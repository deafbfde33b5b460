import Shardwise.Settings
import Shardwise.Store.Commit

/-!
# The store

A `Store` is a database that can be closed, with a retry policy and with counts
of what became of its attempts.  After `Store.close` every request fails; the
documents stay readable through the table.
-/

namespace Shardwise

/-- What became of the attempts of a store.  The counts don't wrap around: fewer than 2^64
attempts are meant. -/
structure Stats where
  started : Nat := 0
  committed : Nat := 0
  aborted : Nat := 0
  /-- Attempts that followed a conflict. -/
  retried : Nat := 0
deriving DecidableEq, Repr, Inhabited

/-- A transactional document store. -/
structure Store where
  database : Database := {}
  retry : RetryPolicy := {}
  isOpen : Bool := true
  stats : Stats := {}

namespace Store

instance : Inhabited Store := ⟨{}⟩

/-- The committed documents. -/
def table (store : Store) : Table := store.database.table

/-- The number of committed documents. -/
def size (store : Store) : Nat := store.table.size

/-- Stops taking requests. -/
def close (store : Store) : Store := { store with isOpen := false }

/-- Fails if the store is closed. -/
def ensureOpen (store : Store) : Except Error Unit :=
  if store.isOpen then .ok () else .error (.ofStore "store is closed")

/-! ## Requests outside transactions -/

/-- Stores a document at a version of its own, so that attempts that read the key
conflict. -/
def insert (store : Store) (key : DocKey) (document : Document) : Except Error Store := do
  store.ensureOpen
  let (version, db) := store.database.allocateVersion
  return { store with database := { db with table := db.table.put key document version } }

/-- The document stored under a key. -/
def get (store : Store) (key : DocKey) : Except Error (Option Document) := do
  store.ensureOpen
  return store.table.document? key

/-- The documents of a collection whose `field` agrees with `value`, ordered by
key. -/
def query (store : Store) (collection field : String) (value : Value) :
    Except Error (List (DocKey × Document)) := do
  store.ensureOpen
  return store.table.scan collection field value

/-- Removes a document.  Only a removal takes a version. -/
def delete (store : Store) (key : DocKey) : Except Error Store := do
  store.ensureOpen
  match store.table.get? key with
  | none => return store
  | some _ =>
    let (_, db) := store.database.allocateVersion
    return { store with database := { db with table := db.table.remove key } }

/-! ## Attempts -/

/-- Begins an attempt. -/
def begin (store : Store) : Except Error (Attempt × Store) := do
  store.ensureOpen
  let (attempt, database) := store.database.begin
  let stats := { store.stats with started := store.stats.started + 1 }
  return (attempt, { store with database, stats })

/-- Counts an attempt that was aborted. -/
def countAborted (store : Store) : Store :=
  { store with stats := { store.stats with aborted := store.stats.aborted + 1 } }

/-- Counts an attempt that was committed. -/
def countCommitted (store : Store) : Store :=
  { store with stats := { store.stats with committed := store.stats.committed + 1 } }

/-- Counts an attempt that follows a conflict. -/
def countRetried (store : Store) : Store :=
  { store with stats := { store.stats with retried := store.stats.retried + 1 } }

/-- Commits an attempt.  An attempt that was not active counts as neither
committed nor aborted. -/
def commit (store : Store) (attempt : Attempt) : Except Error UInt64 × Attempt × Store :=
  match store.ensureOpen with
  | .error error => (.error error, attempt, store)
  | .ok _ =>
    let (outcome, attempt, database) := store.database.commit attempt
    let store := { store with database }
    match outcome with
    | .ok version => (.ok version, attempt, store.countCommitted)
    | .error (.invalidState reason) =>
      (.error (CommitError.invalidState reason).toError, attempt, store)
    | .error error => (.error error.toError, attempt, store.countAborted)

/-- Aborts an attempt, also when the store is closed. -/
def abort (store : Store) (attempt : Attempt) (reason : String) :
    Except Error (Attempt × Store) := do
  let aborted ← attempt.markAborted reason
  return (aborted, store.countAborted)

end Store

end Shardwise
