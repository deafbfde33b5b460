import Mathlib.Data.List.Basic
import Shardwise.Proofs.Store.Commit

/-!
# Commits that do not depend on their order

A commit looks at the documents that the attempt read, and at those that it writes.  It
changes those that it writes.  Two attempts neither of which writes what the other one uses
do not get in each other's way: either of them can be committed first.

* `Attempt.Uses` says that an attempt read or writes a document, and `Attempt.Independent`
  that neither of two attempts writes what the other one uses.
* `Database.verdict` is what a commit decides before it changes anything, and
  `Database.commit_eq_verdict` says that nothing else matters: the verdict gives the outcome,
  the attempt that is left, and the database.
* `Database.verdict_congr` and `Database.get?_after` are the two halves of the argument.  The
  verdict hangs on what the attempt uses, and a commit leaves the rest as it is.
* `Database.commit_comm` is the result.
-/

namespace Shardwise

namespace Attempt

/-- The attempt writes the document of a key. -/
def WritesTo (attempt : Attempt) (key : DocKey) : Prop :=
  writesOn key attempt.writes ≠ []

/-- The attempt has read the document of a key, or writes it. -/
def Uses (attempt : Attempt) (key : DocKey) : Prop :=
  (∃ version, attempt.reads[key]? = some version) ∨ attempt.WritesTo key

/-- Neither attempt writes a document that the other one uses. -/
structure Independent (first second : Attempt) : Prop where
  forth : ∀ key, first.WritesTo key → ¬ second.Uses key
  back : ∀ key, second.WritesTo key → ¬ first.Uses key

theorem Independent.symm {first second : Attempt} (h : first.Independent second) :
    second.Independent first :=
  ⟨h.back, h.forth⟩

theorem writesTo_of_mem {attempt : Attempt} {entry : DocKey × Write}
    (h : entry ∈ attempt.writes) : attempt.WritesTo entry.1 := by
  have hfilter : entry ∈ attempt.writes.filter fun write => write.1 = entry.1 :=
    List.mem_filter.mpr ⟨h, by simp⟩
  exact List.ne_nil_of_mem (List.mem_map_of_mem hfilter)

end Attempt

namespace Database

variable {db other : Database} {attempt : Attempt}

/-! ## Verdicts -/

/-- What a commit decides before it changes anything: how it fails, or what the documents
that are written will be. -/
def verdict (table : Table) (attempt : Attempt) : Except CommitError Staged :=
  if attempt.status ≠ .active then
    .error (.invalidState (Error.notInTransaction
      s!"transaction {attempt.id} is {attempt.status.display}").message)
  else if conflicts table attempt ≠ [] then
    .error (.validationFailed (conflicts table attempt))
  else (stage table attempt.writes).mapError .apply

/-- The attempt that a verdict leaves. -/
def leftBy (attempt : Attempt) : Except CommitError Staged → Attempt
  | .ok _ => { attempt with status := .committed }
  | .error (.invalidState _) => attempt
  | .error (.validationFailed conflicts) => aborted attempt (CommitError.countText conflicts)
  | .error (.apply error) => aborted attempt error.message

/-- The database after a verdict. -/
def after (db : Database) : Except CommitError Staged → Database
  | .ok staged => db.installed staged
  | .error _ => db

/-- A commit carries out its verdict. -/
theorem commit_eq_verdict (db : Database) (attempt : Attempt) :
    db.commit attempt =
      ((verdict db.table attempt).map fun staged => (db.installed staged).version,
        leftBy attempt (verdict db.table attempt), db.after (verdict db.table attempt)) := by
  unfold verdict
  by_cases hactive : attempt.status = .active
  · by_cases hvalid : conflicts db.table attempt = []
    · cases hstage : stage db.table attempt.writes with
      | error error =>
        rw [commit_unstaged hactive hvalid hstage, if_neg (by simp [hactive]),
          if_neg (by simp [hvalid])]
        rfl
      | ok staged =>
        rw [commit_staged hactive hvalid hstage, if_neg (by simp [hactive]),
          if_neg (by simp [hvalid])]
        rfl
    · rw [commit_conflicting hactive hvalid, if_neg (by simp [hactive]), if_pos hvalid]
      rfl
  · rw [commit_inactive hactive, if_pos hactive]
    rfl

theorem verdict_eq_ok {table : Table} {staged : Staged} (h : verdict table attempt = .ok staged) :
    stage table attempt.writes = .ok staged := by
  unfold verdict at h
  split at h
  · simp at h
  · split at h
    · simp at h
    · cases hstage : stage table attempt.writes with
      | error error =>
        rw [hstage] at h
        simp [Except.mapError] at h
      | ok made =>
        rw [hstage] at h
        simpa [Except.mapError] using h

/-! ## What a verdict depends on -/

theorem conflicts_congr {table other : Table}
    (h : ∀ (key : DocKey) (version : UInt64), attempt.reads[key]? = some version →
      other.versionOf key = table.versionOf key) :
    conflicts other attempt = conflicts table attempt := by
  unfold conflicts
  refine List.filterMap_congr fun entry hentry => ?_
  obtain ⟨key, version⟩ := entry
  simp only [h key version (Std.ExtTreeMap.mem_toList_iff_getElem?_eq_some.mp hentry)]

/-- The verdict on an attempt hangs on the documents that the attempt uses. -/
theorem verdict_congr {table other : Table}
    (h : ∀ key, attempt.Uses key → other.get? key = table.get? key) :
    verdict other attempt = verdict table attempt := by
  have hconflicts : conflicts other attempt = conflicts table attempt :=
    conflicts_congr fun key version hread => by
      rw [Table.versionOf, Table.versionOf, h key (.inl ⟨version, hread⟩)]
  have hstage : stage other attempt.writes = stage table attempt.writes :=
    stage_congr fun entry hentry => by
      rw [Table.document?, Table.document?, h entry.1 (.inr (Attempt.writesTo_of_mem hentry))]
  rw [verdict, verdict, hconflicts, hstage]

/-! ## What a verdict changes -/

/-- Staged by the verdict are the documents that the attempt writes. -/
theorem verdict_getElem? {table : Table} {staged : Staged} {key : DocKey}
    (h : verdict table attempt = .ok staged) (hwrites : ¬ attempt.WritesTo key) :
    staged[key]? = none := by
  rw [← Option.not_isSome_iff_eq_none, stage_isSome (verdict_eq_ok h) key]
  exact hwrites

/-- A verdict leaves the documents that the attempt does not write. -/
theorem get?_after {key : DocKey} (hwrites : ¬ attempt.WritesTo key) :
    (db.after (verdict db.table attempt)).table.get? key = db.table.get? key := by
  cases hverdict : verdict db.table attempt with
  | error error => rfl
  | ok staged =>
    show (db.installed staged).table.get? key = _
    rw [get?_installed, verdict_getElem? hverdict hwrites]

/-- By how much a verdict moves the version. -/
def advance : Except CommitError Staged → UInt64
  | .ok staged => if staged.isEmpty then 0 else 1
  | .error _ => 0

theorem version_after (db : Database) (verdict : Except CommitError Staged) :
    (db.after verdict).version = db.version + advance verdict := by
  cases verdict with
  | error error => exact (UInt64.add_zero _).symm
  | ok staged =>
    simp only [after, installed, advance]
    cases staged.isEmpty with
    | false => rfl
    | true => exact (UInt64.add_zero _).symm

theorem nextId_after (db : Database) (verdict : Except CommitError Staged) :
    (db.after verdict).nextId = db.nextId := by
  cases verdict with
  | error error => rfl
  | ok staged => exact nextId_installed db staged

/-- Verdicts on independent attempts can be carried out in either order. -/
theorem document?_after_comm {first second : Attempt} (h : first.Independent second)
    {table : Table} (db : Database) (key : DocKey) :
    ((db.after (verdict table first)).after (verdict table second)).table.document? key =
      ((db.after (verdict table second)).after (verdict table first)).table.document? key := by
  cases hfirst : verdict table first with
  | error error => rfl
  | ok staged =>
    cases hsecond : verdict table second with
    | error error => rfl
    | ok made =>
      simp only [after, document?_installed, seen]
      by_cases hwrites : first.WritesTo key
      · have hnone : made[key]? = none :=
          verdict_getElem? hsecond fun hother => h.forth key hwrites (.inr hother)
        rw [hnone]
        rfl
      · rw [verdict_getElem? hfirst hwrites]
        rfl

/-! ## The order of two commits -/

/-- The verdict on an attempt is the same after the commit of an independent one. -/
theorem verdict_after {first second : Attempt} (h : first.Independent second) (db : Database) :
    verdict (db.after (verdict db.table first)).table second = verdict db.table second :=
  verdict_congr fun key huses => get?_after fun hwrites => h.forth key hwrites huses

/-- Independent attempts can be committed in either order.  Each has the same outcome as if
it came first, up to the version: it succeeds, meets the same conflicts, or fails with the
same error; and it is left the same.  The documents are the same in the end, and so are the
version and the number of the next attempt. -/
theorem commit_comm (db : Database) {first second : Attempt} (h : first.Independent second) :
    let forth := (db.commit first).2.2.commit second
    let back := (db.commit second).2.2.commit first
    ((db.commit first).1.map fun _ => ()) = (back.1.map fun _ => ()) ∧
      ((db.commit second).1.map fun _ => ()) = (forth.1.map fun _ => ()) ∧
      (db.commit first).2.1 = back.2.1 ∧ (db.commit second).2.1 = forth.2.1 ∧
      (∀ key, forth.2.2.table.document? key = back.2.2.table.document? key) ∧
      forth.2.2.version = back.2.2.version ∧ forth.2.2.nextId = back.2.2.nextId := by
  have hforth := verdict_after h db
  have hback := verdict_after h.symm db
  simp only [commit_eq_verdict, hforth, hback, true_and]
  refine ⟨?_, ?_, document?_after_comm h db, ?_, ?_⟩
  · cases verdict db.table first <;> rfl
  · cases verdict db.table second <;> rfl
  · simp only [version_after]
    rw [UInt64.add_assoc, UInt64.add_comm (advance _), ← UInt64.add_assoc]
  · simp only [nextId_after]

/-- An attempt that found nothing under a key, and stores an empty document there. -/
def filling (id : UInt64) (key : DocKey) : Attempt where
  id := id
  reads := (∅ : Std.ExtTreeMap DocKey UInt64).insertIfNew key 0
  writes := [(key, .set ∅ false)]

theorem uses_filling {id : UInt64} {key other : DocKey} (h : (filling id key).Uses other) :
    key = other := by
  by_contra hne
  rcases h with ⟨version, hread⟩ | hwrites
  · simp [filling, hne] at hread
  · simp [filling, Attempt.WritesTo, writesOn_cons, hne] at hwrites

theorem independent_filling {key other : DocKey} (h : key ≠ other) (id next : UInt64) :
    (filling id key).Independent (filling next other) where
  forth := fun _ hwrites huses => h ((uses_filling (.inr hwrites)).trans (uses_filling huses).symm)
  back := fun _ hwrites huses => h ((uses_filling huses).trans (uses_filling (.inr hwrites)).symm)

/-- Only the versions tell which of the two came first. -/
theorem commit_comm_filling :
    let shelf : DocKey := ⟨"rooms", "shelf"⟩
    let crate : DocKey := ⟨"rooms", "crate"⟩
    let forth := (({} : Database).commit (filling 1 shelf)).2.2.commit (filling 2 crate)
    let back := (({} : Database).commit (filling 2 crate)).2.2.commit (filling 1 shelf)
    (filling 1 shelf).Independent (filling 2 crate) ∧
      forth.2.2.table.versionOf shelf = 1 ∧ back.2.2.table.versionOf shelf = 2 ∧
      (∀ key, forth.2.2.table.document? key = back.2.2.table.document? key) ∧
      forth.2.2.version = back.2.2.version := by
  intro shelf crate forth back
  have hindependent : (filling 1 shelf).Independent (filling 2 crate) :=
    independent_filling (by decide) 1 2
  obtain ⟨-, -, -, -, hdocuments, hversion, -⟩ := commit_comm {} hindependent
  exact ⟨hindependent, by decide +kernel, by decide +kernel, hdocuments, hversion⟩

end Database

end Shardwise
