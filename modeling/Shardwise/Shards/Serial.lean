import Shardwise.Shards.Group

/-!
# Serials

A serial counts upwards in a single document, without gaps or repetitions.
`Serial.numberRead` finds the next number, and `Serial.numberWrite` reserves it.
-/

namespace Shardwise

variable {υ : Type}

/-- A source of consecutive numbers. -/
structure Serial where
  collection : String
  owner : String
  /-- Batches of a deletion at most. -/
  maxDeleteRounds : Nat := ({} : AdminSettings).maxDeleteRounds
deriving DecidableEq, Repr

/-- What the read phase of a serial number leaves for the write phase. -/
structure PendingSerial where
  stamp : Stamp
  /-- The document of the serial exists. -/
  present : Bool
  /-- The number to reserve. -/
  number : UInt64

namespace Serial

/-- A serial with the settings of a file. -/
def ofSettings (settings : Settings) (collection owner : String) : Serial where
  collection := collection
  owner := owner
  maxDeleteRounds := settings.admin.maxDeleteRounds

/-- The group of the serial's one shard. -/
def group (serial : Serial) : ShardGroup := ⟨serial.collection, serial.owner, 1⟩

/-- The key of the serial's document. -/
def key (serial : Serial) : DocKey := serial.group.plainKey 0

/-- The read phase of a number. -/
def numberRead (serial : Serial) (ctx : Context) : TxOp υ PendingSerial := do
  serial.group.checkRead ctx
  let stored ← TxOp.withContext "number_rx" serial.owner serial.key (TxOp.get serial.key)
  let number ← TxOp.ofExcept (ShardGroup.nextCount stored)
  let stamp := serial.group.stamp (← TxOp.attempt)
  return { stamp, present := stored.isSome, number }

/-- The write phase of a number: reserves it. -/
def numberWrite (serial : Serial) (ctx : Context) (pending : PendingSerial) :
    TxOp υ UInt64 := do
  serial.group.checkWrite ctx pending.stamp
  serial.group.reserve serial.key pending.present
  return pending.number

/-- Reserves a number in a transaction of its own. -/
def next (serial : Serial) (ctx : Context) : Op υ UInt64 :=
  Op.transact ctx do
    let pending ← serial.numberRead ctx
    serial.numberWrite ctx pending

/-- Starts over: removes the document in a transaction. -/
def clear (serial : Serial) (ctx : Context) : Op υ Unit := do
  serial.group.check ctx
  Op.withContext "clear" serial.owner serial.key <|
    Op.transact ctx (TxOp.delete serial.key)

/-- Removes all documents of the serial; the result says whether none is left. -/
def delete (serial : Serial) (ctx : Context) : Op υ Bool :=
  serial.group.deleteShards ctx serial.maxDeleteRounds

end Serial

end Shardwise
