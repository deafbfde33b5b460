import Shardwise.Proofs.Shards.Keys
import Shardwise.Proofs.Shards.Owners
import Shardwise.Proofs.Shards.Removals

/-!
# The documents of a handle

A `Site` is what the operations of one handle read and write: the keys of its
shards, and the documents in its collection that name its owner.

* `Site.meets_iff` says which sites of different identities have a key in common:
  one of them keeps shards for periods, and the name of the other is its own with
  the level and the period of one of these behind it.
* `Site.Touches` is what may become of a table when only documents of the site are
  written.  Another site without common keys does not notice it (`Touches.housed`,
  `Touches.unseen`).
-/

namespace Shardwise

/-- The documents of a handle. -/
structure Site where
  group : ShardGroup
  /-- There are shards for periods. -/
  dated : Bool

namespace Site

/-- What a handle is known by. -/
def identity (site : Site) : String × String := (site.group.collection, site.group.owner)

/-! ## Keys -/

/-- The key is that of a shard. -/
def Owns (site : Site) (key : DocKey) : Prop :=
  ∃ level t index, (level = .total ∨ site.dated = true) ∧
    key = counterShardKey site.group.collection site.group.owner level t index

theorem owns_plainKey (site : Site) (index : Nat) : site.Owns (site.group.plainKey index) :=
  ⟨.total, .epoch, index, .inl rfl, rfl⟩

theorem Owns.collection {site : Site} {key : DocKey} (h : site.Owns key) :
    key.collection = site.group.collection := by
  obtain ⟨level, t, index, -, rfl⟩ := h
  rw [counterShardKey_eq]

/-- The plain keys of the other site are keys of this one for some period. -/
def Shadows (site other : Site) : Prop :=
  site.dated = true ∧ other.group.collection = site.group.collection ∧
    ∃ level t, level ≠ .total ∧ other.group.owner = site.group.owner ++ levelMark level t

/-- Both sites have shards with this key. -/
def Meets (site other : Site) : Prop := ∃ key, site.Owns key ∧ other.Owns key

theorem Meets.symm {site other : Site} (h : site.Meets other) : other.Meets site := by
  obtain ⟨key, hkey, hother⟩ := h
  exact ⟨key, hother, hkey⟩

theorem Shadows.meets {site other : Site} (h : site.Shadows other) : site.Meets other := by
  obtain ⟨hdated, hcollection, level, t, -, howner⟩ := h
  refine ⟨_, ⟨level, t, 0, .inr hdated, ?_⟩, .total, t, 0, .inl rfl, rfl⟩
  rw [counterShardKey_eq, counterShardKey_eq, howner, hcollection]
  simp [String.append_assoc]

/-- Different sites have a key in common exactly if one of them shadows the
other. -/
theorem meets_iff {site other : Site} (h : site.identity ≠ other.identity) :
    site.Meets other ↔ site.Shadows other ∨ other.Shadows site := by
  constructor
  · rintro ⟨key, ⟨level, t, index, hdated, rfl⟩, level', u, index', hdated', hkey⟩
    rw [counterShardKey_eq, counterShardKey_eq] at hkey
    obtain ⟨hcollection, hname⟩ := DocKey.mk.inj hkey
    rw [← @String.append_assoc site.group.owner, ← @String.append_assoc other.group.owner] at hname
    obtain ⟨howner, -⟩ := append_index_inj hname
    have hdiff : site.group.owner ≠ other.group.owner := by
      intro hsame
      exact h (Prod.ext hcollection hsame)
    by_cases htotal : level = .total <;> by_cases htotal' : level' = .total
    · subst htotal htotal'
      exact absurd (by simpa using howner) hdiff
    · subst htotal
      exact .inr ⟨hdated'.resolve_left htotal', hcollection, level', u, htotal',
        by simpa using howner⟩
    · subst htotal'
      exact .inl ⟨hdated.resolve_left htotal, hcollection.symm, level, t, htotal,
        by simpa using howner.symm⟩
    · exact absurd (append_levelMark_inj howner htotal htotal') hdiff
  · rintro (hshadows | hshadows)
    · exact hshadows.meets
    · exact hshadows.meets.symm

/-! ## Documents -/

/-- Queries by owner find shards only. -/
def Housed (site : Site) (table : Table) : Prop :=
  ∀ key, site.group.Finds table key → site.Owns key

/-- Only shards of the site were changed, and what was made names its owner. -/
structure Touches (site : Site) (table left : Table) : Prop where
  kept : ∀ key, ¬ site.Owns key → left.get? key = table.get? key
  named : ∀ key owner, left.NamesAt key owner →
    owner = site.group.owner ∨ table.NamesAt key owner

namespace Touches

variable {site other : Site} {table midway left : Table}

theorem refl (site : Site) (table : Table) : site.Touches table table :=
  ⟨fun _ _ => rfl, fun _ _ h => .inr h⟩

theorem of_eq (h : left = table) : site.Touches table left := h ▸ .refl site table

theorem trans (h : site.Touches table midway) (h' : site.Touches midway left) :
    site.Touches table left := by
  refine ⟨fun key hkey => (h'.kept key hkey).trans (h.kept key hkey), fun key owner hnamed => ?_⟩
  rcases h'.named key owner hnamed with hsame | hbefore
  · exact .inl hsame
  · exact h.named key owner hbefore

/-- The site keeps its house. -/
theorem housed (h : site.Touches table left) (hhoused : site.Housed table) :
    site.Housed left := by
  intro key hfinds
  by_contra hkey
  exact hkey (hhoused key ((ShardGroup.Finds.congr (h.kept key hkey)).mp hfinds))

/-- Others keep theirs. -/
theorem housed_other (h : site.Touches table left) (hdiff : site.identity ≠ other.identity)
    (hhoused : other.Housed table) : other.Housed left := by
  rintro key ⟨hcollection, hnamed⟩
  rcases h.named key other.group.owner hnamed with hsame | hbefore
  · have hkey : ¬ site.Owns key := by
      intro hkey
      exact hdiff (Prod.ext (hkey.collection.symm.trans hcollection) hsame.symm)
    exact hhoused key ((ShardGroup.Finds.congr (h.kept key hkey)).mp ⟨hcollection, hnamed⟩)
  · exact hhoused key ⟨hcollection, hbefore⟩

/-- Others do not see it. -/
theorem unseen (h : site.Touches table left) (hapart : ¬ site.Meets other) {key : DocKey}
    (hkey : other.Owns key) : left.get? key = table.get? key :=
  h.kept key fun howns => hapart ⟨key, howns, hkey⟩

end Touches

/-! ## Writes -/

/-- A write that the handle makes. -/
inductive Permits (site : Site) : Write → Prop
  | set {record : ShardRecord} (h : record.owner = site.group.owner) :
      Permits site (.set record.fields false)
  | increment (value : Value) : Permits site (.increment valueField value)
  | delete : Permits site .delete

/-- A write with its key. -/
structure Makes (site : Site) (entry : DocKey × Write) : Prop where
  owns : site.Owns entry.1
  permits : site.Permits entry.2

/-- The writes are those of the handle. -/
def Covers (site : Site) (writes : List (DocKey × Write)) : Prop :=
  ∀ entry ∈ writes, site.Makes entry

@[simp] theorem covers_nil (site : Site) : site.Covers [] :=
  fun _ hentry => absurd hentry List.not_mem_nil

theorem covers_append {site : Site} {writes more : List (DocKey × Write)} :
    site.Covers (writes ++ more) ↔ site.Covers writes ∧ site.Covers more :=
  List.forall_mem_append

/-- A write of the handle puts no other name into a document than its owner's. -/
theorem Permits.owner_eq {site : Site} {write : Write} (h : site.Permits write) {owner : String}
    (hnames : write.Names owner) : owner = site.group.owner := by
  cases h with
  | @set record howner =>
    have hfield := Document.names_eq_true.mp hnames
    cases record.get?_owner.symm.trans hfield
    exact howner
  | increment value => exact absurd hnames.1 (by decide)
  | delete => exact hnames.elim

/-- A commit of an attempt of the handle touches its shards only. -/
theorem Touches.of_commits {site : Site} {db left : Database} {attempt : Attempt}
    (h : db.Commits attempt left) (hcovers : site.Covers attempt.writes) :
    site.Touches db.table left.table := by
  refine ⟨fun key hkey => h.kept key ?_, fun key owner hnamed => ?_⟩
  · rw [writesOn, List.map_eq_nil_iff, List.filter_eq_nil_iff]
    rintro entry hentry hsame
    rw [decide_eq_true_eq] at hsame
    exact hkey (hsame ▸ (hcovers entry hentry).owns)
  · rcases h.names hnamed with hbefore | ⟨write, hwrite, hput⟩
    · exact .inr hbefore
    · exact .inl ((hcovers (key, write) hwrite).permits.owner_eq hput)

/-- A site keeps its house when an attempt of two handles commits. -/
theorem Housed.commits {site other : Site} {db left : Database} {attempt : Attempt}
    (h : site.Housed db.table) (hdiff : site.identity ≠ other.identity)
    (hcommits : db.Commits attempt left)
    (hmakes : ∀ entry ∈ attempt.writes, site.Makes entry ∨ other.Makes entry) :
    site.Housed left.table := by
  rintro key ⟨hcollection, hnamed⟩
  rcases hcommits.names hnamed with hbefore | ⟨write, hwrite, hput⟩
  · exact h key ⟨hcollection, hbefore⟩
  · rcases hmakes (key, write) hwrite with hown | hother
    · exact hown.owns
    · exact absurd (Prod.ext (hcollection.symm.trans hother.owns.collection)
        (hother.permits.owner_eq hput)) hdiff

/-! ## Attempts -/

/-- What operations of the handle make of an attempt: they read shards and add
writes. -/
structure Adds (site : Site) (attempt later : Attempt) : Prop where
  id : later.id = attempt.id
  status : later.status = attempt.status
  reads : ∀ key : DocKey, ¬ site.Owns key → later.reads[key]? = attempt.reads[key]?
  writes : ∃ more, later.writes = attempt.writes ++ more ∧ site.Covers more

namespace Adds

variable {site : Site} {attempt between later : Attempt}

theorem refl (site : Site) (attempt : Attempt) : site.Adds attempt attempt :=
  ⟨rfl, rfl, fun _ _ => rfl, [], (List.append_nil _).symm, site.covers_nil⟩

theorem trans (h : site.Adds attempt between) (h' : site.Adds between later) :
    site.Adds attempt later := by
  obtain ⟨more, hwrites, hcovers⟩ := h.writes
  obtain ⟨more', hwrites', hcovers'⟩ := h'.writes
  refine ⟨h'.id.trans h.id, h'.status.trans h.status,
    fun key hkey => (h'.reads key hkey).trans (h.reads key hkey), more ++ more', ?_,
    covers_append.mpr ⟨hcovers, hcovers'⟩⟩
  rw [hwrites', hwrites, List.append_assoc]

theorem get {table : Table} {key : DocKey} {document : Option Document} (hkey : site.Owns key)
    (h : attempt.get table key = .ok (document, later)) : site.Adds attempt later := by
  obtain ⟨-, -, -, hreads, -⟩ := Attempt.get_eq_ok h
  refine ⟨hreads.id, hreads.status, fun other hother => ?_, [], ?_, site.covers_nil⟩
  · rw [Attempt.reads_of_get h, Attempt.getElem?_record, if_neg]
    rintro ⟨rfl, -⟩
    exact hother hkey
  · rw [hreads.writes, List.append_nil]

theorem buffer {key : DocKey} {write : Write} (hmakes : site.Makes (key, write))
    (h : attempt.buffer key write = .ok later) : site.Adds attempt later := by
  obtain ⟨-, rfl⟩ := Attempt.buffer_eq_ok h
  exact ⟨rfl, rfl, fun _ _ => rfl, [(key, write)], rfl, List.forall_mem_singleton.mpr hmakes⟩

/-- Another handle may have added writes before. -/
theorem makes {other : Site} (h : site.Adds attempt later)
    (hmakes : ∀ entry ∈ attempt.writes, site.Makes entry ∨ other.Makes entry) :
    ∀ entry ∈ later.writes, site.Makes entry ∨ other.Makes entry := by
  obtain ⟨more, hwrites, hcovers⟩ := h.writes
  rw [hwrites, List.forall_mem_append]
  exact ⟨hmakes, fun entry hentry => .inl (hcovers entry hentry)⟩

end Adds

/-- There is nothing in the attempt but what operations of the handle put there. -/
structure Keeps (site : Site) (attempt : Attempt) : Prop where
  reads : ∀ key : DocKey, ¬ site.Owns key → attempt.reads[key]? = none
  covers : site.Covers attempt.writes

/-- An attempt that has just begun. -/
theorem Keeps.begun (site : Site) (id : UInt64) : site.Keeps { id } :=
  ⟨fun key _ => by simp, site.covers_nil⟩

theorem Keeps.adds {site : Site} {attempt later : Attempt} (h : site.Keeps attempt)
    (hadds : site.Adds attempt later) : site.Keeps later := by
  obtain ⟨more, hwrites, hcovers⟩ := hadds.writes
  refine ⟨fun key hkey => (hadds.reads key hkey).trans (h.reads key hkey), ?_⟩
  rw [hwrites, covers_append]
  exact ⟨h.covers, hcovers⟩

end Site

end Shardwise
