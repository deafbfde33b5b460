import Shardwise.Store.Attempt

/-!
# Commits

A `Database` is a table with the numbers that commits and attempts are given.

`Database.commit` makes the writes of an attempt visible, all of them or none.
It compares the versions that the attempt read with those of the table, works
out what every written document will be, takes one new version for the whole
attempt, and only then changes the table.
-/

namespace Shardwise

/-- A document that an attempt read and that has changed since. -/
structure Conflict where
  key : DocKey
  /-- The version that the attempt read. -/
  read : UInt64
  /-- The version in the table. -/
  current : UInt64
deriving DecidableEq, Repr

/-- Why a commit failed. -/
inductive CommitError where
  /-- Documents that were read have changed. -/
  | validationFailed (conflicts : List Conflict)
  /-- The attempt was not active. -/
  | invalidState (reason : String)
  /-- A write could not be applied. -/
  | apply (error : Error)

namespace CommitError

/-- The wording of a number of conflicts. -/
def countText (conflicts : List Conflict) : String := s!"{conflicts.length} conflict(s)"

/-- The wording of a commit error. -/
def message : CommitError → String
  | .validationFailed conflicts => s!"commit failed: {countText conflicts}"
  | .invalidState reason => s!"invalid state: {reason}"
  | .apply error => s!"apply failed: {error.message}"

/-- The commit failed because of what others wrote. -/
def isConflict : CommitError → Bool
  | .validationFailed _ => true
  | _ => false

/-- The wording that names one of the conflicts, with its versions. -/
def reasonOf (conflicts : List Conflict) (conflict : Conflict) : String :=
  s!"{conflict.key.display} changed from version {conflict.read} to {conflict.current} " ++
    s!"({countText conflicts})"

/-- What the caller of a transaction may be told.  One of the conflicts is named; reads
are kept in no order, so it may be any of them. -/
def reasons (conflicts : List Conflict) : List String :=
  if conflicts.isEmpty then ["read set changed"] else conflicts.map (reasonOf conflicts)

/-- What the caller of a transaction is told for certain: the only wording that there may
be, and otherwise the number that all of them end with. -/
def reason (conflicts : List Conflict) : String :=
  match reasons conflicts with
  | [reason] => reason
  | _ => countText conflicts

/-- The error that the caller of a transaction sees.  Where it could name any of several
conflicts, its wording leaves open which. -/
def toError : CommitError → Error
  | .validationFailed conflicts => .conflict (reason conflicts)
  | .invalidState reason => .notInTransaction reason
  | .apply error => error

end CommitError

/-- The committed documents, and the numbers for commits and attempts. -/
structure Database where
  table : Table := {}
  /-- The version of the last commit. -/
  version : UInt64 := 0
  /-- The number of the next attempt. -/
  nextId : UInt64 := 1

namespace Database

instance : Inhabited Database := ⟨{}⟩

/-! ## Numbers -/

/-- Takes the next version. -/
def allocateVersion (db : Database) : UInt64 × Database :=
  (db.version + 1, { db with version := db.version + 1 })

/-- Takes the next attempt number. -/
def allocateId (db : Database) : UInt64 × Database :=
  (db.nextId, { db with nextId := db.nextId + 1 })

/-- Begins an attempt. -/
def begin (db : Database) : Attempt × Database :=
  let (id, db) := db.allocateId
  ({ id }, db)

/-! ## Steps of a commit -/

/-- The documents that an attempt read and whose version is another one now. -/
def conflicts (table : Table) (attempt : Attempt) : List Conflict :=
  attempt.reads.toList.filterMap fun (key, read) =>
    let current := table.versionOf key
    if current == read then none else some ⟨key, read, current⟩

/-- The document that a write makes of the one that is there. -/
def applyWrite (current : Option Document) : Write → Except Error (Option Document)
  | .set fields merge =>
    match current, merge with
    | some document, true => .ok (some (document.merge fields))
    | _, _ => .ok (some ⟨fields⟩)
  | .increment field delta =>
    let document := current.getD {}
    let added := match document.get? field with
      | some value => if value.isNumeric then value.add delta field else .ok delta
      | none => .ok delta
    added.map fun value => some (document.set field value)
  | .delete => .ok none

/-- What written documents will be; those to be removed are absent. -/
abbrev Staged := Std.ExtTreeMap DocKey (Option Document)

/-- Applies one more write, to what earlier writes made of its document or else
to the document in the table. -/
def stageWrite (table : Table) (staged : Staged) (write : DocKey × Write) :
    Except Error Staged := do
  let current := match staged[write.1]? with
    | some document => document
    | none => table.document? write.1
  return staged.insert write.1 (← applyWrite current write.2)

/-- Applies writes in their order. -/
def stage (table : Table) (writes : List (DocKey × Write)) : Except Error Staged :=
  writes.foldlM (stageWrite table) ∅

/-- Changes one document of the table. -/
def installOne (version : UInt64) (table : Table) (entry : DocKey × Option Document) : Table :=
  match entry.2 with
  | some document => table.put entry.1 document version
  | none => table.remove entry.1

/-- Changes the table to what was staged. -/
def install (table : Table) (version : UInt64) (staged : Staged) : Table :=
  staged.toList.foldl (installOne version) table

/-! ## Commit and abort -/

/-- The attempt aborted, or as it is if it cannot be aborted. -/
def abandon (attempt : Attempt) (reason : String) : Attempt :=
  match attempt.markAborted reason with
  | .ok aborted => aborted
  | .error _ => attempt

/-- Commits an attempt.  Without writes it takes no version; otherwise the
version is a new one, and every document that it wrote has it.

A commit is one step.  Other commits wait for it, but a document can be inserted or
deleted outside attempts while it is under way; runs interleave whole operations, and
leave such an overlap out. -/
def commit (db : Database) (attempt : Attempt) :
    Except CommitError UInt64 × Attempt × Database :=
  match attempt.markValidating with
  | .error error => (.error (.invalidState error.message), attempt, db)
  | .ok validating =>
    match conflicts db.table validating with
    | conflict :: more =>
      let all := conflict :: more
      (.error (.validationFailed all), abandon validating (CommitError.countText all), db)
    | [] =>
      match stage db.table validating.writes with
      | .error error => (.error (.apply error), abandon validating error.message, db)
      | .ok staged =>
        let (version, numbered) :=
          if staged.isEmpty then (db.version, db) else db.allocateVersion
        let installed := { numbered with table := install db.table version staged }
        match validating.markCommitted with
        | .ok committed => (.ok version, committed, installed)
        | .error error => (.error (.invalidState error.message), validating, installed)

end Database

end Shardwise
