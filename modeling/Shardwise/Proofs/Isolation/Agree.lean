import Shardwise.Proofs.Isolation.Within

/-!
# Two stores that look the same to a handle

`Site.Agree` relates two stores with the same documents for the shards of a site.
Versions may differ, since others take versions too.  `Site.InStep` is what may
become of two such stores.

`Site.Twin` relates attempts, one in each store: their versions of a shard are
current in both stores or in none, and the second attempt holds those writes of the
first that are for shards.  The first may hold more, from another handle.  Twins
stay twins over all steps of the stores (`Twin.inStep`), over what the other handle
does in the first attempt (`Twin.adds`), and over operations that keep to the site
(`TxOp.Within.alike`).
-/

namespace Shardwise

variable {α β : Type}

namespace Site

/-! ## Stores -/

/-- Versions are in order, and queries find shards only. -/
structure Valid (site : Site) (store : Store) : Prop where
  housed : site.Housed store.table
  counted : store.Counted

/-- The handle finds the same in both stores. -/
structure Agree (site : Site) (store other : Store) : Prop where
  valid : site.Valid store
  valid' : site.Valid other
  retry : other.retry = store.retry
  isOpen : other.isOpen = store.isOpen
  nextId : other.database.nextId = store.database.nextId
  committed_le : other.stats.committed ≤ store.stats.committed
  same : ∀ key, site.Owns key → other.table.document? key = store.table.document? key

theorem Agree.refl {site : Site} {store : Store} (h : site.Valid store) : site.Agree store store :=
  ⟨h, h, rfl, rfl, rfl, Nat.le_refl _, fun _ _ => rfl⟩

/-- Queries by owner find the same. -/
theorem Agree.scan {site : Site} {store other : Store} (h : site.Agree store other) :
    other.table.scan site.group.collection ownerField (.text site.group.owner) =
      store.table.scan site.group.collection ownerField (.text site.group.owner) := by
  refine eq_of_sorted (f := Prod.fst) (other.table.sorted_scan _ _ _)
    (store.table.sorted_scan _ _ _) ?_
  rintro ⟨key, document⟩
  rw [Table.mem_scan, Table.mem_scan]
  constructor
  · rintro ⟨hdocument, hcollection, hnames⟩
    have howns := h.valid'.housed key ⟨hcollection, document, hdocument, hnames⟩
    exact ⟨(h.same key howns).symm.trans hdocument, hcollection, hnames⟩
  · rintro ⟨hdocument, hcollection, hnames⟩
    have howns := h.valid.housed key ⟨hcollection, document, hdocument, hnames⟩
    exact ⟨(h.same key howns).trans hdocument, hcollection, hnames⟩

/-- Both stores went on, and the handle still finds the same in them.  A shard
stayed in both, or it went from both, or it has a version in each that was not
there before. -/
structure InStep (site : Site) (store other left left' : Store) : Prop where
  agree : site.Agree left left'
  version_le : store.database.version.toNat ≤ left.database.version.toNat
  version_le' : other.database.version.toNat ≤ left'.database.version.toNat
  entry : ∀ key, site.Owns key →
    left.table.get? key = store.table.get? key ∧ left'.table.get? key = other.table.get? key ∨
    left.table.get? key = none ∧ left'.table.get? key = none ∨
    store.database.version.toNat < (left.table.versionOf key).toNat ∧
      other.database.version.toNat < (left'.table.versionOf key).toNat

namespace InStep

variable {site : Site} {store other midway midway' left left' : Store}

/-- Nothing happened to shards in either store. -/
theorem of_eq (h : site.Agree left left')
    (hversion : store.database.version.toNat ≤ left.database.version.toNat)
    (hversion' : other.database.version.toNat ≤ left'.database.version.toNat)
    (hkept : ∀ key, site.Owns key → left.table.get? key = store.table.get? key)
    (hkept' : ∀ key, site.Owns key → left'.table.get? key = other.table.get? key) :
    site.InStep store other left left' :=
  ⟨h, hversion, hversion', fun key hkey => .inl ⟨hkept key hkey, hkept' key hkey⟩⟩

theorem refl (h : site.Agree store other) : site.InStep store other store other :=
  of_eq h (Nat.le_refl _) (Nat.le_refl _) (fun _ _ => rfl) fun _ _ => rfl

theorem trans (h : site.InStep store other midway midway')
    (h' : site.InStep midway midway' left left') : site.InStep store other left left' := by
  have hle := h.version_le
  have hle' := h.version_le'
  refine ⟨h'.agree, Nat.le_trans hle h'.version_le, Nat.le_trans hle' h'.version_le',
    fun key hkey => ?_⟩
  rcases h'.entry key hkey with ⟨hkept, hkept'⟩ | hgone | ⟨hnew, hnew'⟩
  · simp only [Table.versionOf, hkept, hkept']
    exact h.entry key hkey
  · exact .inr (.inl hgone)
  · exact .inr (.inr ⟨Nat.lt_of_le_of_lt hle hnew, Nat.lt_of_le_of_lt hle' hnew'⟩)

end InStep

/-! ## Attempts -/

/-- What two attempts recorded of a shard: both nothing, or both a version, each
current in its store exactly if the other is. -/
inductive Recorded (store other : Store) (key : DocKey) : Option UInt64 → Option UInt64 → Prop
  | unread : Recorded store other key none none
  | read {version version' : UInt64} (past : version.toNat ≤ store.database.version.toNat)
      (past' : version'.toNat ≤ other.database.version.toNat) (zero : version = 0 ↔ version' = 0)
      (current : store.table.versionOf key = version ↔ other.table.versionOf key = version') :
      Recorded store other key (some version) (some version')

namespace Recorded

variable {site : Site} {store other left left' : Store} {key : DocKey}
  {first second : Option UInt64}

/-- What was recorded is current in both stores or in none, whatever happened
since. -/
theorem inStep (h : Recorded store other key first second)
    (hstep : site.InStep store other left left') (hkey : site.Owns key) :
    Recorded left left' key first second := by
  cases h with
  | unread => exact .unread
  | @read version version' past past' zero current =>
    refine .read (Nat.le_trans past hstep.version_le) (Nat.le_trans past' hstep.version_le')
      zero ?_
    rcases hstep.entry key hkey with ⟨hkept, hkept'⟩ | ⟨hgone, hgone'⟩ | ⟨hnew, hnew'⟩
    · simpa only [Table.versionOf, hkept, hkept'] using current
    · rw [Table.versionOf_eq_zero hgone, Table.versionOf_eq_zero hgone', eq_comm, zero, eq_comm]
    · constructor
      · rintro rfl
        omega
      · rintro rfl
        omega

/-- What is recorded by reading in both stores. -/
theorem of_read (h : site.Agree store other) (hkey : site.Owns key) :
    Recorded store other key (some (store.table.versionOf key))
      (some (other.table.versionOf key)) := by
  refine .read (h.valid.counted.sound.versionOf_le key)
    (h.valid'.counted.sound.versionOf_le key) ?_ ⟨fun _ => rfl, fun _ => rfl⟩
  have hsame : other.database.table.document? key = store.database.table.document? key :=
    h.same key hkey
  refine h.valid.counted.sound.versionOf_eq_zero_iff.trans ?_
  rw [← hsame]
  exact h.valid'.counted.sound.versionOf_eq_zero_iff.symm

/-- The first version that is read of a key is recorded. -/
theorem insertIfNew (h : Recorded store other key first second) {version version' : UInt64}
    (hnew : Recorded store other key (some version) (some version')) :
    Recorded store other key (if first = none then some version else first)
      (if second = none then some version' else second) := by
  cases h with
  | unread => exact hnew
  | read past past' zero current => exact .read past past' zero current

/-- Both met a conflict, or neither. -/
theorem conflict_iff (h : Recorded store other key first second) :
    (∃ version, second = some version ∧ other.table.versionOf key ≠ version) ↔
      ∃ version, first = some version ∧ store.table.versionOf key ≠ version := by
  cases h with
  | unread => simp
  | read past past' zero current => simpa using not_congr current.symm

end Recorded

open Classical in
/-- The writes to shards of the site. -/
noncomputable def part (site : Site) (writes : List (DocKey × Write)) : List (DocKey × Write) :=
  writes.filter fun write => decide (site.Owns write.1)

section Part

variable {site other : Site} {writes : List (DocKey × Write)}

@[simp] theorem part_append (site : Site) (writes more : List (DocKey × Write)) :
    site.part (writes ++ more) = site.part writes ++ site.part more :=
  List.filter_append ..

theorem Covers.part_eq (h : site.Covers writes) : site.part writes = writes :=
  List.filter_eq_self.mpr fun entry hentry => by simpa using (h entry hentry).owns

theorem Covers.part_eq_nil (h : other.Covers writes) (hapart : ¬ site.Meets other) :
    site.part writes = [] := by
  refine List.filter_eq_nil_iff.mpr fun entry hentry howns => ?_
  exact hapart ⟨entry.1, by simpa using howns, (h entry hentry).owns⟩

/-- Staging the writes to shards makes the same of the shards as staging all of
them. -/
theorem stage_part (site : Site) {table : Table} {staged : Database.Staged}
    (h : Database.stage table writes = .ok staged) :
    ∃ part, Database.stage table (site.part writes) = .ok part ∧
      ∀ key, site.Owns key → part[key]? = staged[key]? := by
  classical
  obtain ⟨part, hpart, hsame⟩ := Database.stage_filter (fun key => decide (site.Owns key)) h
  exact ⟨part, hpart, fun key hkey => hsame key (decide_eq_true hkey)⟩

end Part

/-- Two attempts, each in its store, are at the same point with the shards of the
site.  The second holds nothing else. -/
structure Twin (site : Site) (store other : Store) (attempt twin : Attempt) : Prop where
  id : twin.id = attempt.id
  status : twin.status = attempt.status
  writes : twin.writes = site.part attempt.writes
  keeps : site.Keeps twin
  reads : ∀ key : DocKey, site.Owns key →
    Recorded store other key attempt.reads[key]? twin.reads[key]?

/-- Where the second attempt takes reads, the first does. -/
def Ready (attempt twin : Attempt) : Prop := twin.writes = [] → attempt.writes = []

namespace Twin

variable {site foreign : Site} {store other left left' : Store} {attempt later twin : Attempt}

/-- Attempts that have just begun. -/
theorem begun (site : Site) (store other : Store) (id : UInt64) :
    site.Twin store other { id } { id } :=
  ⟨rfl, rfl, rfl, .begun site id, fun key _ => by simpa using Recorded.unread⟩

theorem inStep (h : site.Twin store other attempt twin)
    (hstep : site.InStep store other left left') : site.Twin left left' attempt twin :=
  ⟨h.id, h.status, h.writes, h.keeps, fun key hkey => (h.reads key hkey).inStep hstep hkey⟩

/-- What another handle does in the first attempt does not matter. -/
theorem adds (h : site.Twin store other attempt twin) (hadds : foreign.Adds attempt later)
    (hapart : ¬ site.Meets foreign) : site.Twin store other later twin := by
  obtain ⟨more, hwrites, hcovers⟩ := hadds.writes
  refine ⟨h.id.trans hadds.id.symm, h.status.trans hadds.status.symm, ?_, h.keeps,
    fun key hkey => ?_⟩
  · rw [hwrites, part_append, hcovers.part_eq_nil hapart, List.append_nil, h.writes]
  · rw [hadds.reads key fun hforeign => hapart ⟨key, hkey, hforeign⟩]
    exact h.reads key hkey

theorem ensureActive (h : site.Twin store other attempt twin) :
    twin.ensureActive = attempt.ensureActive := by
  unfold Attempt.ensureActive Attempt.isActive
  rw [h.id, h.status]

/-- Documents in which the second attempt meets a conflict. -/
theorem conflict_iff (h : site.Twin store other attempt twin) (key : DocKey) :
    key ∈ (Database.conflicts other.table twin).map Conflict.key ↔
      site.Owns key ∧ key ∈ (Database.conflicts store.table attempt).map Conflict.key := by
  rw [Database.mem_conflicts, Database.mem_conflicts]
  by_cases hkey : site.Owns key
  · rw [(h.reads key hkey).conflict_iff]
    exact ⟨fun hconflict => ⟨hkey, hconflict⟩, And.right⟩
  · rw [h.keeps.reads key hkey]
    exact ⟨fun ⟨_, hread, _⟩ => absurd hread (by simp), fun hboth => absurd hboth.1 hkey⟩

/-- Where the first attempt meets no conflict, the second does not. -/
theorem conflicts_eq_nil (h : site.Twin store other attempt twin)
    (hnone : Database.conflicts store.table attempt = []) :
    Database.conflicts other.table twin = [] := by
  rw [← List.map_eq_nil_iff (f := Conflict.key), List.eq_nil_iff_forall_not_mem]
  intro key hkey
  rw [h.conflict_iff, hnone] at hkey
  exact absurd hkey.2 List.not_mem_nil

/-- Where both hold nothing but the handle's, they meet conflicts in the same
documents. -/
theorem conflicts (h : site.Twin store other attempt twin) (hkeeps : site.Keeps attempt) :
    (Database.conflicts other.table twin).map Conflict.key =
      (Database.conflicts store.table attempt).map Conflict.key := by
  refine eq_of_sorted (f := fun key => key)
    (by rw [List.map_id']; exact Database.sorted_conflicts _ _)
    (by rw [List.map_id']; exact Database.sorted_conflicts _ _) fun key => ?_
  rw [h.conflict_iff]
  refine ⟨And.right, fun hconflict => ⟨?_, hconflict⟩⟩
  by_contra hkey
  obtain ⟨version, hread, -⟩ := Database.mem_conflicts.mp hconflict
  rw [hkeeps.reads key hkey] at hread
  cases hread

/-- Where both hold nothing but the handle's, they hold the same writes. -/
theorem writes_eq (h : site.Twin store other attempt twin) (hkeeps : site.Keeps attempt) :
    twin.writes = attempt.writes :=
  h.writes.trans hkeeps.covers.part_eq

end Twin

end Site

/-! ## Operations inside an attempt -/

/-- Twins read the same and record it alike. -/
theorem Site.Twin.get {site : Site} {store other : Store} {attempt twin : Attempt}
    (h : site.Twin store other attempt twin) (hready : Ready attempt twin)
    (hagree : site.Agree store other) {key : DocKey} (hkey : site.Owns key) :
    (∃ error, attempt.get store.table key = .error error ∧
        twin.get other.table key = .error error) ∨
      ∃ document changed changed', attempt.get store.table key = .ok (document, changed) ∧
        twin.get other.table key = .ok (document, changed') ∧
        site.Twin store other changed changed' ∧ Ready changed changed' := by
  have hempty : twin.writes.isEmpty = attempt.writes.isEmpty := by
    rw [Bool.eq_iff_iff, List.isEmpty_iff, List.isEmpty_iff]
    refine ⟨hready, fun hnil => ?_⟩
    rw [h.writes, hnil]
    rfl
  unfold Attempt.get
  rw [h.ensureActive, hempty, hagree.same key hkey]
  cases attempt.ensureActive with
  | error error => exact .inl ⟨error, rfl, rfl⟩
  | ok _ =>
    cases attempt.writes.isEmpty with
    | false => exact .inl ⟨_, rfl, rfl⟩
    | true =>
      refine .inr ⟨_, _, _, rfl, rfl,
        ⟨h.id, h.status, h.writes, ⟨fun read hread => ?_, h.keeps.covers⟩,
        fun read hread => ?_⟩, hready⟩
      · dsimp only
        rw [Attempt.getElem?_record, if_neg, h.keeps.reads read hread]
        rintro ⟨rfl, -⟩
        exact hread hkey
      · dsimp only
        rw [Attempt.getElem?_record, Attempt.getElem?_record]
        by_cases hsame : key = read
        · subst hsame
          simpa only [true_and] using (h.reads key hkey).insertIfNew (.of_read hagree hkey)
        · rw [if_neg fun hnew => hsame hnew.1, if_neg fun hnew => hsame hnew.1]
          exact h.reads read hread

/-- Twins take the same writes. -/
theorem Site.Twin.buffer {site : Site} {store other : Store} {attempt twin : Attempt}
    (h : site.Twin store other attempt twin) {key : DocKey} {write : Write}
    (hmakes : site.Makes (key, write)) :
    (∃ error, attempt.buffer key write = .error error ∧ twin.buffer key write = .error error) ∨
      ∃ changed changed', attempt.buffer key write = .ok changed ∧
        twin.buffer key write = .ok changed' ∧ site.Twin store other changed changed' ∧
        Ready changed changed' := by
  have hcovers : site.Covers [(key, write)] := List.forall_mem_singleton.mpr hmakes
  unfold Attempt.buffer
  rw [h.ensureActive]
  cases attempt.ensureActive with
  | error error => exact .inl ⟨error, rfl, rfl⟩
  | ok _ =>
    refine .inr ⟨_, _, rfl, rfl, ⟨h.id, h.status, ?_, ⟨h.keeps.reads, ?_⟩, h.reads⟩, fun hnil => ?_⟩
    · dsimp only
      rw [part_append, hcovers.part_eq, h.writes]
    · exact covers_append.mpr ⟨h.keeps.covers, hcovers⟩
    · simp at hnil

/-- An operation that keeps to the site does the same for twins in both stores.  If
it reads, then both attempts have to take reads. -/
theorem TxOp.Within.alike {site : Site} {looks : Bool} {op : TxOp Unit α}
    (h : op.Within site looks) {attempt twin : Attempt} (env : Env Unit) {other : Store}
    (hagree : site.Agree env.store other) (htwin : site.Twin env.store other attempt twin)
    (hready : looks = true → Site.Ready attempt twin) :
    ∃ later, op.runIn twin { env with store := other } =
        ((op.runIn attempt env).1, later, { (op.runIn attempt env).2.2 with store := other }) ∧
      site.Twin env.store other (op.runIn attempt env).2.1 later ∧
      (looks = true → Site.Ready (op.runIn attempt env).2.1 later) := by
  induction h generalizing attempt twin env with
  | aside h =>
    refine ⟨twin, h attempt twin env other htwin.id htwin.status, ?_⟩
    rw [h.attempt_eq]
    exact ⟨htwin, hready⟩
  | get hlooks hkey =>
    rw [runIn_get, runIn_get]
    rcases htwin.get (hready hlooks) hagree hkey with
      ⟨error, hget, hget'⟩ | ⟨document, changed, changed', hget, hget', hlater, hready'⟩
    · rw [hget, hget']
      exact ⟨twin, rfl, htwin, hready⟩
    · rw [hget, hget']
      exact ⟨changed', rfl, hlater, fun _ => hready'⟩
  | @buffer key write hmakes =>
    rw [runIn_change, runIn_change]
    rcases htwin.buffer hmakes with
      ⟨error, hbuffer, hbuffer'⟩ | ⟨changed, changed', hbuffer, hbuffer', hlater, hready'⟩
    · rw [hbuffer, hbuffer']
      exact ⟨twin, rfl, htwin, hready⟩
    · rw [hbuffer, hbuffer']
      exact ⟨changed', rfl, hlater, fun _ => hready'⟩
  | withContext operation owner key h ih =>
    obtain ⟨later, hrun, hlater⟩ := ih env hagree htwin hready
    rw [runIn_withContext, runIn_withContext, hrun]
    exact ⟨later, rfl, hlater⟩
  | @bind _ _ op next h hnext ih ihnext =>
    obtain ⟨between, hrun, hbetween, hready'⟩ := ih env hagree htwin hready
    have hstore := (h.adds attempt env).1
    rw [runIn_bind, runIn_bind, hrun]
    rcases hop : op.runIn attempt env with ⟨error | value, midway, left⟩
    · rw [hop] at hbetween hready'
      exact ⟨between, rfl, hbetween, hready'⟩
    · rw [hop] at hbetween hready' hstore
      dsimp only at hbetween hready' hstore ⊢
      rw [← hstore] at hagree hbetween ⊢
      exact ihnext attempt env value (by rw [hop]) left hagree hbetween hready'

end Shardwise
