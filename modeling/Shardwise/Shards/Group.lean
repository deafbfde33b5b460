import Shardwise.ShardKey
import Shardwise.ShardRecord
import Shardwise.Store.Transact

/-!
# Shard groups

A `ShardGroup` is all shards of one owner in one collection.  Every document of
the group names the owner, so one query by owner finds them all, and
`ShardGroup.deleteShards` removes them batch by batch.

Counters, coders and serials split each write into a read phase and a write
phase.  The read phase leaves a `Stamp` in what it returns, and
`ShardGroup.checkWrite` lets a write phase go on only inside the attempt and for
the group that the stamp names.
-/

namespace Shardwise

variable {υ : Type}

/-- The shards of one owner in one collection. -/
structure ShardGroup where
  collection : String
  /-- The name that all shards share. -/
  owner : String
  numShards : Nat
deriving DecidableEq, Repr, Inhabited

/-- Where a read phase ran. -/
structure Stamp where
  /-- The attempt that it ran in. -/
  attempt : UInt64
  collection : String
  owner : String
deriving DecidableEq, Repr

/-- The sum of the values of shard documents, added up in their order. -/
def sumValues (documents : List Document) : Except Error Float :=
  documents.foldlM (fun sum document => do
    return sum + (← (← document.field valueField).toFloat valueField)) 0.0

namespace ShardGroup

/-! ## Validity -/

/-- What is wrong with the names and the shard count, if anything. -/
def problem? (group : ShardGroup) : Option String :=
  if group.collection.isEmpty then some "collection is empty"
  else if group.owner.isEmpty then some "id is empty"
  else if group.numShards == 0 then some s!"'{group.owner}' has zero shards"
  else none

/-- Fails if a name is empty, there are no shards, or the context is done. -/
def check (group : ShardGroup) (ctx : Context) : Op υ Unit :=
  match group.problem? with
  | some problem => throw (.invalidConfiguration problem)
  | none => Op.check ctx

/-- Fails unless the attempt takes operations. -/
def ensureInTransaction (attempt : Attempt) : Except Error Unit :=
  if attempt.isActive then .ok () else .error (.notInTransaction attempt.status.display)

/-! ## Stamps -/

/-- The stamp of a read phase of the group. -/
def stamp (group : ShardGroup) (attempt : Attempt) : Stamp :=
  ⟨attempt.id, group.collection, group.owner⟩

/-- Fails unless a stamp is of the group and of the attempt. -/
def verify (group : ShardGroup) (stamp : Stamp) (attempt : Attempt) : Except Error Unit :=
  if stamp.collection != group.collection || stamp.owner != group.owner then
    .error (.missingReadPhase group.owner
      s!"token was read for '{stamp.collection}/{stamp.owner}'")
  else if stamp.attempt != attempt.id then
    .error (.missingReadPhase group.owner
      s!"token was read in transaction {stamp.attempt}, not {attempt.id}")
  else .ok ()

/-- What every read phase checks first. -/
def checkRead (group : ShardGroup) (ctx : Context) : TxOp υ Unit := do
  TxOp.ofOp (group.check ctx)
  TxOp.ofExcept (ensureInTransaction (← TxOp.attempt))

/-- What every write phase checks first. -/
def checkWrite (group : ShardGroup) (ctx : Context) (stamp : Stamp) : TxOp υ Unit := do
  group.checkRead ctx
  TxOp.ofExcept (group.verify stamp (← TxOp.attempt))

/-! ## Documents of a group -/

/-- The key of a shard without level and period. -/
def plainKey (group : ShardGroup) (index : Nat) : DocKey :=
  shardKey group.collection group.owner none none index

/-- The documents of the group, ordered by key. -/
def owned (group : ShardGroup) (ctx : Context) (operation : String) :
    Op υ (List (DocKey × Document)) :=
  Op.withContext operation group.owner ⟨group.collection, ""⟩ <|
    Op.query ctx group.collection ownerField (.text group.owner)

/-- The number of documents of the group. -/
def shardsCount (group : ShardGroup) (ctx : Context) : Op υ Nat := do
  group.check ctx
  return (← group.owned ctx "shards_count").length

/-- Removes the documents under some keys in one transaction. -/
def deleteBatch (group : ShardGroup) (ctx : Context) (first : DocKey) (keys : List DocKey) :
    Op υ Unit :=
  Op.withContext "delete_shards" group.owner first <|
    Op.transact ctx (keys.forM TxOp.delete)

/-- Removes batches of the group until none is left, at most `rounds` of them.  A
batch is one document larger than the number of shards.  The result says whether
no document is left. -/
def deleteRounds (group : ShardGroup) (ctx : Context) : Nat → Op υ Bool
  | 0 => return (← group.owned ctx "delete_shards").isEmpty
  | rounds + 1 => do
    match (← group.owned ctx "delete_shards").take (group.numShards + 1) with
    | [] => return true
    | (first, document) :: more =>
      group.deleteBatch ctx first (((first, document) :: more).map Prod.fst)
      group.deleteRounds ctx rounds

/-- Removes the documents of the group, in at most `rounds` batches.  The result
says whether no document is left. -/
def deleteShards (group : ShardGroup) (ctx : Context) (rounds : Nat) : Op υ Bool := do
  group.check ctx
  group.deleteRounds ctx rounds

/-! ## The write of a phase -/

/-- Adds to a shard that exists, and otherwise makes it. -/
def writeShard (group : ShardGroup) (operation : String) (key : DocKey) (present : Bool)
    (made : ShardRecord) : TxOp υ Unit :=
  TxOp.withContext operation group.owner key <|
    if present then TxOp.increment key valueField made.value
    else TxOp.set key made.fields false

/-! ## Counting shards -/

/-- The count after `count`; the largest word stays itself. -/
def countAfter (count : UInt64) : UInt64 := if count + 1 == 0 then count else count + 1

/-- The next count of a shard: one more than its document holds, and 1 if there is
none. -/
def nextCount : Option Document → Except Error UInt64
  | some document => do
    let count ← (← document.field valueField).toUInt64 valueField
    return countAfter count
  | none => .ok 1

/-- Counts a shard up by one, or makes it with 1. -/
def reserve (group : ShardGroup) (key : DocKey) (present : Bool) : TxOp υ Unit :=
  group.writeShard "number_wx" key present { owner := group.owner, value := .int 1 }

end ShardGroup

end Shardwise
