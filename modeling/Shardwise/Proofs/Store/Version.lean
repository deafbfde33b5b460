import Mathlib.Logic.Function.Basic
import Shardwise.Proofs.Store.Commit

/-!
# What a recorded version says

An attempt records the version of every document that it reads, and its commit
compares the recorded versions with those of the table.  This module says what
an agreement of the two is worth.

* `Database.Sound` bounds the versions in a table by the version of the
  database.
* `Database.Moves` is what any change of a database does to one document: it
  stays, or it goes, or it gets a version that was never there before.
* `Attempt.Recalls` is what an attempt knows of a document that it read.  Every
  move of the database keeps it (`Recalls.moves`), and a commit that finds its
  reads valid turns it into a fact about the table (`Recalls.valid`).

A document that was absent when it was first read has version 0 in the read set,
and so has a document that was made and removed again since.  This is why
`Recalls` leaves open that the document is gone.
-/

namespace Shardwise

namespace Table

theorem versionOf_eq {table : Table} {key : DocKey} {stored : Stored}
    (h : table.get? key = some stored) : table.versionOf key = stored.version := by
  simp [versionOf, h]

theorem document?_eq_none {table : Table} {key : DocKey} :
    table.document? key = none ↔ table.get? key = none := by
  simp [document?]

theorem versionOf_eq_zero {table : Table} {key : DocKey} (h : table.get? key = none) :
    table.versionOf key = 0 := by
  simp [versionOf, h]

theorem document?_put (table : Table) (key : DocKey) (document : Document)
    (version : UInt64) :
    (table.put key document version).document? =
      Function.update table.document? key (some document) := by
  funext other
  rw [Function.update_apply, Table.document?, Table.get?_put]
  by_cases h : key = other
  · rw [if_pos h, if_pos h.symm]
    rfl
  · rw [if_neg h, if_neg (Ne.symm h)]
    rfl

theorem document?_remove (table : Table) (key : DocKey) :
    (table.remove key).document? = Function.update table.document? key none := by
  funext other
  rw [Function.update_apply, Table.document?, Table.get?_remove]
  by_cases h : key = other
  · rw [if_pos h, if_pos h.symm]
    rfl
  · rw [if_neg h, if_neg (Ne.symm h)]
    rfl

end Table

namespace Database

/-! ## Versions of a database -/

/-- Every stored document has a version between 1 and that of the database. -/
structure Sound (db : Database) : Prop where
  positive : ∀ key stored, db.table.get? key = some stored → 0 < stored.version.toNat
  bounded : ∀ key stored, db.table.get? key = some stored →
    stored.version.toNat ≤ db.version.toNat

/-- The numbers for the next commit and the next attempt are still to come. -/
def HasRoom (db : Database) : Prop :=
  db.version.toNat + 1 < UInt64.size ∧ db.nextId.toNat + 1 < UInt64.size

instance (db : Database) : Decidable db.HasRoom := inferInstanceAs (Decidable (_ ∧ _))

/-- A word that is not the last has a successor. -/
theorem toNat_succ {word : UInt64} (room : word.toNat + 1 < UInt64.size) :
    (word + 1).toNat = word.toNat + 1 := by
  rw [UInt64.toNat_add]
  exact Nat.mod_eq_of_lt room

theorem HasRoom.version_succ {db : Database} (h : db.HasRoom) :
    (db.version + 1).toNat = db.version.toNat + 1 := toNat_succ h.1

theorem HasRoom.nextId_succ {db : Database} (h : db.HasRoom) :
    (db.nextId + 1).toNat = db.nextId.toNat + 1 := toNat_succ h.2

/-- The numbers for attempts do not go back, and neither does the version.  A
document stays, goes, or gets a version above all that were there. -/
structure Moves (db left : Database) : Prop where
  version_le : db.version.toNat ≤ left.version.toNat
  nextId_le : db.nextId.toNat ≤ left.nextId.toNat
  entry : ∀ key, left.table.get? key = db.table.get? key ∨ left.table.get? key = none ∨
    ∃ stored, left.table.get? key = some stored ∧
      db.version.toNat < stored.version.toNat ∧ stored.version.toNat ≤ left.version.toNat

theorem Moves.refl (db : Database) : Moves db db :=
  ⟨Nat.le_refl _, Nat.le_refl _, fun _ => .inl rfl⟩

/-- A change that keeps table and version. -/
theorem Moves.of_eq {db left : Database} (htable : left.table = db.table)
    (hversion : left.version = db.version) (hid : db.nextId.toNat ≤ left.nextId.toNat) :
    Moves db left :=
  ⟨Nat.le_of_eq (by rw [hversion]), hid, fun key => .inl (by rw [htable])⟩

theorem Moves.sound {db left : Database} (h : Moves db left) (hsound : Sound db) :
    Sound left := by
  constructor
  · intro key stored hstored
    rcases h.entry key with hkept | hgone | ⟨made, hmade, hnew, -⟩
    · exact hsound.positive key stored (hkept ▸ hstored)
    · rw [hgone] at hstored
      cases hstored
    · rw [hmade] at hstored
      cases hstored
      omega
  · intro key stored hstored
    rcases h.entry key with hkept | hgone | ⟨made, hmade, -, hle⟩
    · exact Nat.le_trans (hsound.bounded key stored (hkept ▸ hstored)) h.version_le
    · rw [hgone] at hstored
      cases hstored
    · rw [hmade] at hstored
      cases hstored
      exact hle

theorem Sound.versionOf_le {db : Database} (h : Sound db) (key : DocKey) :
    (db.table.versionOf key).toNat ≤ db.version.toNat := by
  cases hstored : db.table.get? key with
  | none =>
    rw [Table.versionOf_eq_zero hstored]
    exact Nat.zero_le _
  | some stored =>
    rw [Table.versionOf_eq hstored]
    exact h.bounded key stored hstored

/-- Version 0 is that of absent documents only. -/
theorem Sound.versionOf_eq_zero {db : Database} (h : Sound db) {key : DocKey}
    (hzero : db.table.versionOf key = 0) : db.table.get? key = none := by
  cases hstored : db.table.get? key with
  | none => rfl
  | some stored =>
    have hpos := h.positive key stored hstored
    rw [Table.versionOf_eq hstored] at hzero
    rw [hzero] at hpos
    exact absurd hpos (Nat.lt_irrefl 0)

theorem Sound.versionOf_eq_zero_iff {db : Database} (h : Sound db) {key : DocKey} :
    db.table.versionOf key = 0 ↔ db.table.document? key = none :=
  ⟨fun hzero => Table.document?_eq_none.mpr (h.versionOf_eq_zero hzero),
    fun hnone => Table.versionOf_eq_zero (Table.document?_eq_none.mp hnone)⟩

/-! ## The changes of a database -/

theorem Commits.moves {db left : Database} {attempt : Attempt} (h : Commits db attempt left)
    (room : db.version.toNat + 1 < UInt64.size) : Moves db left := by
  have hversion := h.version
  have hsucc := toNat_succ room
  refine ⟨?_, Nat.le_of_eq (by rw [h.nextId]), ?_⟩
  · rw [hversion]
    split <;> omega
  · intro key
    by_cases hnil : writesOn key attempt.writes = []
    · exact .inl (h.kept key hnil)
    · cases hstored : left.table.get? key with
      | none => exact .inr (.inl rfl)
      | some stored =>
        have hne : attempt.writes.isEmpty = false := by
          cases hwrites : attempt.writes with
          | nil => simp [hwrites] at hnil
          | cons write writes => rfl
        have hstamp := h.stamped key stored hnil hstored
        rw [hne, if_neg Bool.false_ne_true] at hversion
        refine .inr (.inr ⟨stored, rfl, ?_, Nat.le_of_eq (congrArg UInt64.toNat hstamp)⟩)
        rw [hstamp, hversion]
        omega

/-- A document put at the next version. -/
theorem moves_put {db : Database} (room : db.HasRoom) (key : DocKey) (document : Document) :
    Moves db { db with
      version := db.version + 1, table := db.table.put key document (db.version + 1) } := by
  have hsucc := room.version_succ
  refine ⟨by dsimp only; omega, Nat.le_refl _, fun other => ?_⟩
  dsimp only
  rw [Table.get?_put]
  by_cases h : key = other
  · rw [if_pos h]
    exact .inr (.inr ⟨_, rfl, by dsimp only; omega, Nat.le_refl _⟩)
  · rw [if_neg h]
    exact .inl rfl

/-- A document removed at the next version. -/
theorem moves_remove {db : Database} (room : db.HasRoom) (key : DocKey) :
    Moves db { db with version := db.version + 1, table := db.table.remove key } := by
  have hsucc := room.version_succ
  refine ⟨by dsimp only; omega, Nat.le_refl _, fun other => ?_⟩
  dsimp only
  rw [Table.get?_remove]
  by_cases h : key = other
  · rw [if_pos h]
    exact .inr (.inl rfl)
  · rw [if_neg h]
    exact .inl rfl

end Database

/-! ## Reading -/

namespace Attempt

/-- What reading from a table does to an attempt: it records versions of the
table for keys that have none. -/
structure Reads (table : Table) (attempt later : Attempt) : Prop where
  id : later.id = attempt.id
  status : later.status = attempt.status
  writes : later.writes = attempt.writes
  kept : ∀ (key : DocKey) (version : UInt64), attempt.reads[key]? = some version →
    later.reads[key]? = some version
  fresh : ∀ (key : DocKey) (version : UInt64), later.reads[key]? = some version →
    attempt.reads[key]? = some version ∨ version = table.versionOf key

theorem Reads.refl (table : Table) (attempt : Attempt) : Reads table attempt attempt :=
  ⟨rfl, rfl, rfl, fun _ _ h => h, fun _ _ h => .inl h⟩

theorem Reads.trans {table : Table} {first second third : Attempt}
    (h : Reads table first second) (h' : Reads table second third) :
    Reads table first third := by
  refine ⟨h'.id.trans h.id, h'.status.trans h.status, h'.writes.trans h.writes, ?_, ?_⟩
  · intro key version hread
    exact h'.kept key version (h.kept key version hread)
  · intro key version hread
    rcases h'.fresh key version hread with hold | hnew
    · exact h.fresh key version hold
    · exact .inr hnew

theorem ensureActive_eq_ok {attempt : Attempt} :
    attempt.ensureActive = .ok () ↔ attempt.status = .active := by
  unfold ensureActive isActive
  by_cases h : attempt.status = .active <;> simp [h]

theorem getElem?_record (reads : Std.ExtTreeMap DocKey UInt64) (key other : DocKey)
    (version : UInt64) :
    (reads.insertIfNew key version)[other]? =
      if key = other ∧ reads[key]? = none then some version else reads[other]? := by
  rw [Std.ExtTreeMap.getElem?_insertIfNew]
  simp only [Std.LawfulEqCmp.compare_eq_iff_eq, Std.ExtTreeMap.mem_iff_isSome_getElem?,
    Option.not_isSome_iff_eq_none]

/-- A read that succeeds returns the document of the table and records its
version, unless the key has one. -/
theorem get_eq_ok {attempt later : Attempt} {table : Table} {key : DocKey}
    {read : Option Document} (h : attempt.get table key = .ok (read, later)) :
    attempt.status = .active ∧ attempt.writes = [] ∧ read = table.document? key ∧
      Reads table attempt later ∧ ∃ version, later.reads[key]? = some version := by
  unfold get at h
  cases hactive : attempt.ensureActive with
  | error error =>
    rw [hactive] at h
    cases h
  | ok _ =>
    rw [hactive] at h
    cases hwrites : attempt.writes with
    | cons write writes =>
      rw [hwrites] at h
      cases h
    | nil =>
      rw [hwrites] at h
      cases h
      refine ⟨ensureActive_eq_ok.mp hactive, rfl, rfl, ⟨rfl, rfl, hwrites.symm, ?_, ?_⟩, ?_⟩
      · intro other version hread
        rw [getElem?_record, if_neg ?_]
        · exact hread
        · rintro ⟨rfl, hnew⟩
          rw [hnew] at hread
          cases hread
      · intro other version hread
        rw [getElem?_record] at hread
        split at hread
        · rename_i hnew
          cases hread
          exact .inr (by rw [hnew.1])
        · exact .inl hread
      · dsimp only
        rw [getElem?_record]
        cases hrecorded : attempt.reads[key]? with
        | none => exact ⟨table.versionOf key, by simp⟩
        | some version => exact ⟨version, by simp⟩

/-- A read records the version of its key, unless there is one. -/
theorem reads_of_get {attempt later : Attempt} {table : Table} {key : DocKey}
    {found : Option Document} (h : attempt.get table key = .ok (found, later)) :
    later.reads = attempt.reads.insertIfNew key (table.versionOf key) := by
  obtain ⟨hactive, hwrites, -⟩ := get_eq_ok h
  simp only [get, ensureActive_eq_ok.mpr hactive, hwrites] at h
  cases h
  rfl

theorem buffer_eq_ok {attempt later : Attempt} {key : DocKey} {write : Write}
    (h : attempt.buffer key write = .ok later) :
    attempt.status = .active ∧
      later = { attempt with writes := attempt.writes ++ [(key, write)] } := by
  unfold buffer at h
  cases hactive : attempt.ensureActive with
  | error error =>
    rw [hactive] at h
    cases h
  | ok _ =>
    rw [hactive] at h
    cases h
    exact ⟨ensureActive_eq_ok.mp hactive, rfl⟩

/-- An increment is buffered if its delta is a number. -/
theorem increment_eq_ok {attempt later : Attempt} {key : DocKey} {field : String} {delta : Value}
    (h : attempt.increment key field delta = .ok later) :
    delta.isNumeric = true ∧ attempt.status = .active ∧
      later = { attempt with writes := attempt.writes ++ [(key, .increment field delta)] } := by
  unfold increment at h
  split at h
  · rename_i hnumeric
    exact ⟨hnumeric, buffer_eq_ok h⟩
  · cases h

theorem buffer_active {attempt : Attempt} (hactive : attempt.status = .active) (key : DocKey)
    (write : Write) :
    attempt.buffer key write = .ok { attempt with writes := attempt.writes ++ [(key, write)] } := by
  unfold buffer
  rw [ensureActive_eq_ok.mpr hactive]
  rfl

/-! ## What an attempt knows of a document that it read -/

/-- While the version that was recorded for a key is that of the table, the
document is the one that was read, or it is gone. -/
def Recalls (attempt : Attempt) (db : Database) (key : DocKey) (read : Option Document) : Prop :=
  ∃ version, attempt.reads[key]? = some version ∧ version.toNat ≤ db.version.toNat ∧
    (db.table.versionOf key = version →
      db.table.document? key = none ∨ db.table.document? key = read)

/-- What was just read is recalled. -/
theorem Recalls.of_read {attempt : Attempt} {db : Database} {key : DocKey}
    {read : Option Document} {version : UInt64} (hrecorded : attempt.reads[key]? = some version)
    (hle : version.toNat ≤ db.version.toNat) (hread : db.table.document? key = read) :
    attempt.Recalls db key read :=
  ⟨version, hrecorded, hle, fun _ => .inr hread⟩

/-- No change of the database makes an attempt recall wrongly.  A document that
is written gets a version above the recorded one, and so the two never agree
again unless it goes. -/
theorem Recalls.moves {attempt : Attempt} {db left : Database} {key : DocKey}
    {read : Option Document} (h : attempt.Recalls db key read) (hmoves : db.Moves left) :
    attempt.Recalls left key read := by
  obtain ⟨version, hrecorded, hle, hknown⟩ := h
  refine ⟨version, hrecorded, Nat.le_trans hle hmoves.version_le, fun hagree => ?_⟩
  rcases hmoves.entry key with hkept | hgone | ⟨stored, hstored, hnew, -⟩
  · simp only [Table.versionOf, Table.document?, hkept] at hagree ⊢
    exact hknown hagree
  · exact .inl (Table.document?_eq_none.mpr hgone)
  · rw [Table.versionOf_eq hstored] at hagree
    rw [hagree] at hnew
    omega

/-- What is recalled hangs on the recorded versions alone. -/
theorem Recalls.of_kept {attempt later : Attempt} {db : Database} {key : DocKey}
    {read : Option Document} (h : attempt.Recalls db key read)
    (hkept : ∀ (key : DocKey) (version : UInt64), attempt.reads[key]? = some version →
      later.reads[key]? = some version) : later.Recalls db key read := by
  obtain ⟨version, hrecorded, hle, hknown⟩ := h
  exact ⟨version, hkept key version hrecorded, hle, hknown⟩

/-- At a commit that finds its reads valid, a document is as it was read, or it is
gone. -/
theorem Recalls.valid {attempt : Attempt} {db left : Database} {key : DocKey}
    {read : Option Document} (h : attempt.Recalls db key read)
    (hcommits : db.Commits attempt left) :
    db.table.document? key = none ∨ db.table.document? key = read := by
  obtain ⟨version, hrecorded, -, hknown⟩ := h
  exact hknown (hcommits.valid key version hrecorded)

end Attempt

end Shardwise
