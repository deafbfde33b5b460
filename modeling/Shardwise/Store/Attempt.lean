import Shardwise.Store.Table
import Shardwise.Text.Quoted
import Shardwise.Value.Number

/-!
# Attempts

An `Attempt` is one try of a transaction.  It records the version of every
document that it reads, and keeps its writes to itself until its commit.  All
reads come before all writes.

An attempt is active, then validating, then committed; from the first two it can
be aborted.  The operations that change an attempt return the changed attempt, so
one that fails changes nothing.
-/

namespace Shardwise

/-- How far an attempt has come. -/
inductive Status where
  /-- It takes reads and writes. -/
  | active
  /-- Its reads are being compared with the table. -/
  | validating
  | committed
  | aborted (reason : String)
deriving DecidableEq, Repr

/-- The form of a status in messages. -/
def Status.display : Status → String
  | .active => "Active"
  | .validating => "Validating"
  | .committed => "Committed"
  | .aborted reason => "Aborted \x7b reason: " ++ Text.quoted reason ++ " \x7d"

/-- A write that waits for the commit. -/
inductive Write where
  /-- Stores a document.  With `merge`, a document that is there keeps its other
  fields. -/
  | set (fields : Fields) (merge : Bool)
  /-- Adds to a number. -/
  | increment (field : String) (delta : Value)
  /-- Removes the document. -/
  | delete

instance : Inhabited Write := ⟨.delete⟩

/-- One try of a transaction. -/
structure Attempt where
  /-- The number of the attempt, which no other attempt of the store has. -/
  id : UInt64
  /-- The version at which each key was first read. -/
  reads : Std.ExtTreeMap DocKey UInt64 := ∅
  /-- The writes, in their order. -/
  writes : List (DocKey × Write) := []
  status : Status := .active

namespace Attempt

instance : Inhabited Attempt := ⟨{ id := 0 }⟩

/-! ## Status -/

/-- The attempt takes reads and writes. -/
def isActive (attempt : Attempt) : Bool := attempt.status == .active

/-- The attempt is committed. -/
def isCommitted (attempt : Attempt) : Bool := attempt.status == .committed

/-- The attempt is aborted. -/
def isAborted (attempt : Attempt) : Bool :=
  match attempt.status with
  | .aborted _ => true
  | _ => false

/-- Fails unless the attempt is active. -/
def ensureActive (attempt : Attempt) : Except Error Unit :=
  if attempt.isActive then .ok ()
  else .error (.notInTransaction s!"transaction {attempt.id} is {attempt.status.display}")

/-- An active attempt starts validating. -/
def markValidating (attempt : Attempt) : Except Error Attempt := do
  attempt.ensureActive
  return { attempt with status := .validating }

/-- A validating attempt is committed. -/
def markCommitted (attempt : Attempt) : Except Error Attempt :=
  match attempt.status with
  | .validating => .ok { attempt with status := .committed }
  | status =>
    .error (.notInTransaction s!"cannot commit transaction {attempt.id} from {status.display}")

/-- An attempt that is not at its end is aborted and loses its writes; it keeps
its reads. -/
def markAborted (attempt : Attempt) (reason : String) : Except Error Attempt :=
  match attempt.status with
  | .active | .validating => .ok { attempt with status := .aborted reason, writes := [] }
  | status =>
    .error (.notInTransaction s!"cannot abort transaction {attempt.id} from {status.display}")

/-! ## Reads and writes -/

/-- Reads a document.  The first version read of a key is the one recorded, so
that reading again does not hide a change. -/
def get (attempt : Attempt) (table : Table) (key : DocKey) :
    Except Error (Option Document × Attempt) := do
  attempt.ensureActive
  if attempt.writes.isEmpty then
    return (table.document? key,
      { attempt with reads := attempt.reads.insertIfNew key (table.versionOf key) })
  else throw (.ofStore "reads must be issued before any write in a transaction")

/-- Adds a write at the end. -/
def buffer (attempt : Attempt) (key : DocKey) (write : Write) : Except Error Attempt := do
  attempt.ensureActive
  return { attempt with writes := attempt.writes ++ [(key, write)] }

/-- Stores a document, or with `merge` some fields of it. -/
def set (attempt : Attempt) (key : DocKey) (fields : Fields) (merge : Bool) :
    Except Error Attempt :=
  attempt.buffer key (.set fields merge)

/-- Adds a number to a field. -/
def increment (attempt : Attempt) (key : DocKey) (field : String) (delta : Value) :
    Except Error Attempt :=
  if delta.isNumeric then attempt.buffer key (.increment field delta)
  else .error (delta.mismatch field "number")

/-- Removes a document. -/
def delete (attempt : Attempt) (key : DocKey) : Except Error Attempt :=
  attempt.buffer key .delete

end Attempt

end Shardwise
