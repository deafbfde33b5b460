import Shardwise.Proofs.Store.Replay

/-!
# Versions identify documents

Commits, insertions and removals all take their versions from one counter, and a
commit gives its version to every document that it writes.  A removal forgets the
version of what it removes, so that absence has version 0 again and again.  Any
other version of a key stands for one document: it never comes back for another one.

* `Event.Touches` says that an event is about a key.
* `Store.Renews` is what one request does to versions, and `Store.Step.renews` says
  that every request does it.
* `Store.Spends` is a run together with the number of versions that it takes.
  `Spends.toNat_version` and `Spends.entry` say what becomes of the counter and of one
  document on the way.
* `Store.Spends.identifies` is the result.
-/

namespace Shardwise

/-- The event is about the document of a key: it is written or removed. -/
def Event.Touches (key : DocKey) : Event → Prop
  | .began _ => False
  | .inserted other _ => other = key
  | .removed other => other = key
  | .committed writes => writesOn key writes ≠ []

/-- Without documents there is no version to bound. -/
theorem Database.sound_empty : Database.Sound {} := by
  constructor <;> intro key stored hstored <;> simp [Table.get?] at hstored

namespace Store

variable {store midway left : Store} {events more : List Event} {count others : Nat}

/-! ## One request -/

/-- What a request does to versions.  It takes the next one or none.  A document that
its events are not about stays as it is; any other one goes, or gets the next
version. -/
structure Renews (store : Store) (events : List Event) (left : Store) : Prop where
  version : left.database.version = store.database.version ∨
    left.database.version = store.database.version + 1
  kept : ∀ key, (∀ event ∈ events, ¬ event.Touches key) →
    left.table.get? key = store.table.get? key
  renewed : ∀ key, (∃ event ∈ events, event.Touches key) →
    left.table.get? key = none ∨ left.database.version = store.database.version + 1 ∧
      ∃ stored, left.table.get? key = some stored ∧ stored.version = store.database.version + 1

/-- A request that is about no document. -/
theorem Renews.of_eq (htable : left.table = store.table)
    (hversion : left.database.version = store.database.version)
    (hevents : ∀ key, ∀ event ∈ events, ¬ event.Touches key) : Renews store events left := by
  refine ⟨.inl hversion, fun key _ => by rw [htable], fun key htouched => ?_⟩
  obtain ⟨event, hmem, htouches⟩ := htouched
  exact absurd htouches (hevents key event hmem)

/-- A request with one event. -/
theorem Renews.of_event {event : Event}
    (hversion : left.database.version = store.database.version ∨
      left.database.version = store.database.version + 1)
    (hkept : ∀ key, ¬ event.Touches key → left.table.get? key = store.table.get? key)
    (hrenewed : ∀ key, event.Touches key → ∀ stored, left.table.get? key = some stored →
      left.database.version = store.database.version + 1 ∧
        stored.version = store.database.version + 1) : Renews store [event] left := by
  refine ⟨hversion, fun key hnone => hkept key (hnone event (List.mem_singleton_self _)),
    fun key htouched => ?_⟩
  obtain ⟨other, hmem, htouches⟩ := htouched
  rw [List.mem_singleton.mp hmem] at htouches
  cases hstored : left.table.get? key with
  | none => exact .inl rfl
  | some stored =>
    obtain ⟨hnext, hstamp⟩ := hrenewed key htouches stored hstored
    exact .inr ⟨hnext, stored, rfl, hstamp⟩

theorem renews_insert {key : DocKey} {document : Document}
    (h : store.insert key document = .ok left) : Renews store [.inserted key document] left := by
  rw [insert_eq_ok h]
  refine .of_event (.inr rfl) (fun other hother => ?_) (fun other hother stored hstored => ?_)
  · show (store.table.put key document _).get? other = _
    rw [Table.get?_put]
    exact if_neg hother
  · have hput : (store.table.put key document (store.database.version + 1)).get? other =
        some stored := hstored
    have hkey : key = other := hother
    rw [Table.get?_put, if_pos hkey] at hput
    cases hput
    exact ⟨rfl, rfl⟩

theorem renews_delete {key : DocKey} (h : store.delete key = .ok left) :
    Renews store [.removed key] left := by
  rcases delete_eq_ok h with ⟨rfl, hnone⟩ | rfl
  · refine .of_event (.inl rfl) (fun _ _ => rfl) (fun other hother stored hstored => ?_)
    have hkey : key = other := hother
    rw [← hkey, hnone] at hstored
    cases hstored
  · refine .of_event (.inr rfl) (fun other hother => ?_) (fun other hother stored hstored => ?_)
    · show (store.table.remove key).get? other = _
      rw [Table.get?_remove]
      exact if_neg hother
    · have hremoved : (store.table.remove key).get? other = some stored := hstored
      have hkey : key = other := hother
      rw [Table.get?_remove, if_pos hkey] at hremoved
      cases hremoved

/-- All documents that a commit leaves of those it wrote have one version. -/
theorem renews_commit {attempt : Attempt}
    (h : Database.Commits store.database attempt left.database) :
    Renews store [.committed attempt.writes] left := by
  have hversion := h.version
  refine .of_event ?_ (fun key hkey => ?_) (fun key hkey stored hstored => ?_)
  · split at hversion
    · exact .inl hversion
    · exact .inr hversion
  · exact h.kept key (Classical.not_not.mp hkey)
  · have hwrites : attempt.writes.isEmpty = false := by
      cases hwrites : attempt.writes with
      | nil =>
        simp only [Event.Touches, hwrites, writesOn_nil] at hkey
        exact absurd rfl hkey
      | cons write writes => rfl
    rw [hwrites, if_neg Bool.false_ne_true] at hversion
    exact ⟨hversion, (h.stamped key stored hkey hstored).trans hversion⟩

theorem Step.renews (h : Step store events left) : Renews store events left := by
  cases h with
  | begin h =>
    obtain ⟨-, -, rfl⟩ := begin_eq_ok h
    exact .of_eq rfl rfl fun _ _ hmem => by rw [List.mem_singleton.mp hmem]; exact not_false
  | insert h => exact renews_insert h
  | delete h => exact renews_delete h
  | @commit _ attempt _ _ h =>
    rcases store.commit_cases attempt with
      ⟨error, changed, other, hfailed, -⟩ | ⟨_, other, hdone, -, hcommits⟩
    · cases hfailed.symm.trans h
    · cases hdone.symm.trans h
      exact renews_commit hcommits
  | @fail _ attempt _ _ h =>
    rcases store.commit_cases attempt with
      ⟨error, changed, other, hfailed, hsame, -⟩ | ⟨_, other, hdone, -⟩
    · cases hfailed.symm.trans h
      exact .of_eq (congrArg Database.table hsame) (congrArg Database.version hsame) (by simp)
    · cases hdone.symm.trans h
  | abort h =>
    rw [abort_eq_ok h]
    exact .of_eq rfl rfl (by simp)
  | close | retry => exact .of_eq rfl rfl (by simp)

/-! ## Runs and the versions that they take -/

/-- How many versions a request took: one, if it moved the counter. -/
def taken (store left : Store) : Nat :=
  if left.database.version = store.database.version then 0 else 1

theorem taken_le_one (store left : Store) : store.taken left ≤ 1 := by
  unfold taken
  split <;> omega

/-- The stores that requests lead to, with the events of the way and the number of
versions that were taken on it. -/
inductive Spends (start : Store) : List Event → Nat → Store → Prop
  | start : Spends start [] 0 start
  | step {events more : List Event} {count : Nat} {store left : Store}
      (before : Spends start events count store) (next : Step store more left) :
      Spends start (events ++ more) (count + store.taken left) left

/-- Every run takes some number of versions. -/
theorem Runs.exists_spends (h : Runs store events left) :
    ∃ count, Spends store events count left := by
  induction h with
  | start => exact ⟨0, .start⟩
  | step before next ih =>
    obtain ⟨count, hspends⟩ := ih
    exact ⟨_, hspends.step next⟩

/-- As long as the counter lasts, a request moves it by what it takes. -/
theorem Step.toNat_version (h : Step store events left)
    (room : store.database.version.toNat + store.taken left < UInt64.size) :
    left.database.version.toNat = store.database.version.toNat + store.taken left := by
  rcases h.renews.version with hsame | hnext
  · rw [taken, if_pos hsame, hsame, Nat.add_zero]
  · have hne : left.database.version ≠ store.database.version := by
      rw [hnext]
      simp
    rw [taken, if_neg hne] at room ⊢
    rw [hnext, Database.toNat_succ room]

/-- The counter says how many versions were taken. -/
theorem Spends.toNat_version (h : store.Spends events count left)
    (room : store.database.version.toNat + count < UInt64.size) :
    left.database.version.toNat = store.database.version.toNat + count := by
  induction h with
  | start => rfl
  | @step _ _ count midway left _ next ih =>
    have hmidway : midway.database.version.toNat = store.database.version.toNat + count :=
      ih (by omega)
    rw [next.toNat_version (by omega)]
    omega

/-- A document that no event is about stays.  Any other one is gone at the end, or has a
version that was not taken at the start.  The induction is on the run: a version that is
new stays new, since the counter does not go back. -/
theorem Spends.entry (h : store.Spends events count left)
    (room : store.database.version.toNat + count < UInt64.size) (key : DocKey) :
    (left.table.get? key = store.table.get? key ∧ ∀ event ∈ events, ¬ event.Touches key) ∨
      left.table.get? key = none ∨
      ∃ stored, left.table.get? key = some stored ∧
        store.database.version.toNat < stored.version.toNat ∧
        stored.version.toNat ≤ left.database.version.toNat := by
  induction h with
  | start => exact .inl ⟨rfl, by simp⟩
  | @step events more count midway left before next ih =>
    have hroom : store.database.version.toNat + count < UInt64.size := by omega
    have hmidway := before.toNat_version hroom
    have hleft := next.toNat_version (by omega)
    by_cases htouched : ∃ event ∈ more, event.Touches key
    · rcases next.renews.renewed key htouched with hgone | ⟨hnext, stored, hstored, hstamp⟩
      · exact .inr (.inl hgone)
      · have hcounter : stored.version.toNat = left.database.version.toNat := by
          rw [hstamp, hnext]
        have hgrown : midway.database.version ≠ left.database.version := by
          rw [hnext]
          simp
        have htaken : midway.taken left = 1 := if_neg hgrown.symm
        exact .inr (.inr ⟨stored, hstored, by omega, by omega⟩)
    · have hquiet : ∀ event ∈ more, ¬ event.Touches key := by
        intro event hmem htouches
        exact htouched ⟨event, hmem, htouches⟩
      rw [next.renews.kept key hquiet]
      rcases ih hroom with ⟨hsame, hnone⟩ | hgone | ⟨stored, hstored, hnew, hle⟩
      · refine .inl ⟨hsame, fun event hmem => ?_⟩
        rcases List.mem_append.mp hmem with hearlier | hlater
        · exact hnone event hearlier
        · exact hquiet event hlater
      · exact .inr (.inl hgone)
      · exact .inr (.inr ⟨stored, hstored, hnew, by omega⟩)

/-- Versions stay bounded by the counter. -/
theorem Spends.sound (h : store.Spends events count left)
    (room : store.database.version.toNat + count < UInt64.size)
    (hsound : store.database.Sound) : left.database.Sound := by
  have hcounter := h.toNat_version room
  constructor <;> intro key stored hstored
  · rcases h.entry room key with ⟨hsame, -⟩ | hgone | ⟨made, hmade, hnew, -⟩
    · exact hsound.positive key stored (hsame.symm.trans hstored)
    · cases hgone.symm.trans hstored
    · cases hmade.symm.trans hstored
      omega
  · rcases h.entry room key with ⟨hsame, -⟩ | hgone | ⟨made, hmade, -, hle⟩
    · have hbound := hsound.bounded key stored (hsame.symm.trans hstored)
      omega
    · cases hgone.symm.trans hstored
    · cases hmade.symm.trans hstored
      exact hle

/-! ## Versions identify documents -/

/-- Versions at two moments of a run on a new store that takes fewer than 2^64 - 1 of
them.  The counter does not go back, and every stored version lies between 1 and the
counter.  A commit with writes returns a version above all that were there at any
earlier moment, and the documents that it leaves of those it wrote have it.  A key that
has the same version at both moments, other than that of absence, holds the same document
at both, and no event in between is about the key. -/
theorem Spends.identifies {policy : RetryPolicy}
    (h : Spends { retry := policy } events count midway) (hmore : midway.Spends more others left)
    (room : count + others < UInt64.size - 1) :
    midway.database.version ≤ left.database.version ∧
      (∀ key stored, left.table.get? key = some stored →
        1 ≤ stored.version ∧ stored.version ≤ left.database.version) ∧
      (∀ attempt version committed after,
        left.commit attempt = (.ok version, committed, after) → attempt.writes ≠ [] →
        (∀ key, midway.table.versionOf key < version) ∧
          ∀ key stored, writesOn key attempt.writes ≠ [] →
            after.table.get? key = some stored → stored.version = version) ∧
      ∀ key, midway.table.versionOf key ≠ 0 →
        left.table.versionOf key = midway.table.versionOf key →
        left.table.document? key = midway.table.document? key ∧
          ∀ event ∈ more, ¬ event.Touches key := by
  have hzero : ({ retry := policy } : Store).database.version.toNat = 0 := rfl
  have hsize : UInt64.size = 2 ^ 64 := rfl
  have hmidway := h.toNat_version (by omega)
  have hleft := hmore.toNat_version (by omega)
  have hmidsound := h.sound (by omega) Database.sound_empty
  have hsound := hmore.sound (by omega) hmidsound
  refine ⟨?_, fun key stored hstored => ?_,
    fun attempt version committed after hcommit hwrites => ?_, fun key hpresent hagree => ?_⟩
  · rw [UInt64.le_iff_toNat_le]
    omega
  · rw [UInt64.le_iff_toNat_le, UInt64.le_iff_toNat_le]
    exact ⟨hsound.positive key stored hstored, hsound.bounded key stored hstored⟩
  · obtain ⟨hversion, hcommits⟩ := commit_eq_ok hcommit
    have hnext := hcommits.version
    rw [List.isEmpty_eq_false_iff.mpr hwrites, if_neg Bool.false_ne_true] at hnext
    have hsucc : (left.database.version + 1).toNat = left.database.version.toNat + 1 :=
      Database.toNat_succ (by omega)
    refine ⟨fun key => ?_, fun key stored hkey hstored => ?_⟩
    · have hbound := hmidsound.versionOf_le key
      rw [UInt64.lt_iff_toNat_lt, hversion, hnext, hsucc]
      show (midway.database.table.versionOf key).toNat < _
      omega
    · rw [hversion]
      exact hcommits.stamped key stored hkey hstored
  · rcases hmore.entry (by omega) key with ⟨hsame, hnone⟩ | hgone | ⟨stored, hstored, hnew, -⟩
    · exact ⟨by rw [Table.document?, Table.document?, hsame], hnone⟩
    · rw [Table.versionOf_eq_zero hgone] at hagree
      exact absurd hagree.symm hpresent
    · have hbound := hmidsound.versionOf_le key
      rw [Table.versionOf_eq hstored] at hagree
      have hold : stored.version.toNat ≤ midway.database.version.toNat := by
        rw [hagree]
        exact hbound
      omega

/-! ## A run -/

/-- An attempt that makes a document anew. -/
def remake : Attempt := { id := 1, writes := [(crate, .set ∅ false)] }

/-- One document stays at version 1, while another one goes from version 2 to version 4
by way of absence. -/
theorem identifies_shelf : ∃ midway left events more count others,
    Spends {} events count midway ∧ midway.Spends more others left ∧
      count + others < UInt64.size - 1 ∧
      midway.table.versionOf shelf = 1 ∧ left.table.versionOf shelf = 1 ∧
      midway.table.versionOf crate = 2 ∧ left.table.versionOf crate = 4 ∧
      left.table.document? shelf = midway.table.document? shelf ∧
      ∀ event ∈ more, ¬ event.Touches shelf := by
  obtain ⟨first, hfirst⟩ : ∃ first, insert {} shelf {} = .ok first := ⟨_, rfl⟩
  obtain ⟨midway, hmidway⟩ : ∃ midway, first.insert crate {} = .ok midway := by
    cases hfirst
    exact ⟨_, rfl⟩
  obtain ⟨cleared, hcleared⟩ : ∃ cleared, midway.delete crate = .ok cleared := by
    cases hfirst
    cases hmidway
    exact ⟨_, rfl⟩
  obtain ⟨version, committed, left, hcommit⟩ : ∃ version committed left,
      cleared.commit remake = (.ok version, committed, left) := by
    cases hfirst
    cases hmidway
    cases hcleared
    exact ⟨_, _, _, rfl⟩
  have hspends : Spends {} _ _ midway := (Spends.start.step (.insert hfirst)).step (.insert hmidway)
  have hmore : midway.Spends _ _ left :=
    (Spends.start.step (.delete hcleared)).step (.commit hcommit)
  have room : (0 + taken {} first + first.taken midway) +
      (0 + midway.taken cleared + cleared.taken left) < UInt64.size - 1 := by
    have hsize : UInt64.size = 2 ^ 64 := rfl
    have := taken_le_one {} first
    have := taken_le_one first midway
    have := taken_le_one midway cleared
    have := taken_le_one cleared left
    omega
  have hversions : midway.table.versionOf shelf = 1 ∧ left.table.versionOf shelf = 1 ∧
      midway.table.versionOf crate = 2 ∧ left.table.versionOf crate = 4 := by
    cases hfirst
    cases hmidway
    cases hcleared
    cases hcommit
    exact ⟨rfl, rfl, rfl, rfl⟩
  obtain ⟨hbefore, hafter, hcrate, hmade⟩ := hversions
  obtain ⟨-, -, -, hidentified⟩ := Spends.identifies hspends hmore room
  obtain ⟨hsame, hnone⟩ := hidentified shelf (by rw [hbefore]; decide) (by rw [hafter, hbefore])
  exact ⟨midway, left, _, _, _, _, hspends, hmore, room, hbefore, hafter, hcrate, hmade, hsame,
    hnone⟩

end Store

end Shardwise
