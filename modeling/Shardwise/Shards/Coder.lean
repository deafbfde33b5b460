import Shardwise.Code
import Shardwise.Shards.Group

/-!
# Coders

A coder hands out numbers that never repeat.  Each of its shards counts on its
own, and the number of the `k`-th reservation of shard `i` out of `n` is
`k * n + i`, so no two shards meet and a single shard counts upwards.

`Coder.numberRead` chooses a shard and finds its next number, and
`Coder.numberWrite` reserves it.  The code phases do the same with the number
written as a code.
-/

namespace Shardwise

variable {υ : Type}

/-- A sharded source of numbers and codes. -/
structure Coder where
  group : ShardGroup
  /-- Batches of a deletion at most. -/
  maxDeleteRounds : Nat := ({} : AdminSettings).maxDeleteRounds
deriving DecidableEq, Repr

/-- What the read phase of a number leaves for the write phase. -/
structure PendingNumber where
  stamp : Stamp
  /-- The shard that was chosen. -/
  index : Nat
  key : DocKey
  /-- The document of the shard exists. -/
  present : Bool
  /-- The number to reserve. -/
  number : UInt64

/-- What the read phase of a code leaves for the write phase. -/
structure PendingCode where
  number : PendingNumber
  width : CodeWidth
  code : String

namespace Coder

/-- A coder with the settings of a file. -/
def ofSettings (settings : Settings) (collection owner : String) : Coder where
  group := ⟨collection, owner, settings.coder.numShards⟩
  maxDeleteRounds := settings.admin.maxDeleteRounds

/-! ## Numbers -/

/-- The number of the reservation `count` of a shard, if it is below 2^64. -/
def pack (numShards index : Nat) (count : UInt64) : Except Error UInt64 :=
  let number := count.toNat * numShards + index
  if number < 0x10000000000000000 then .ok (UInt64.ofNat number)
  else .error (.capacityExceeded 64 count.toNat)

/-- The read phase of a number: chooses a shard and finds its next number. -/
def numberRead (coder : Coder) (ctx : Context) : TxOp υ PendingNumber := do
  coder.group.checkRead ctx
  let index ← TxOp.pickShard coder.group.numShards
  let key := coder.group.plainKey index
  let stored ← TxOp.withContext "number_rx" coder.group.owner key (TxOp.get key)
  let count ← TxOp.ofExcept (ShardGroup.nextCount stored)
  let number ← TxOp.ofExcept (pack coder.group.numShards index count)
  let stamp := coder.group.stamp (← TxOp.attempt)
  return { stamp, index, key, present := stored.isSome, number }

/-- The write phase of a number: reserves it. -/
def numberWrite (coder : Coder) (ctx : Context) (pending : PendingNumber) : TxOp υ UInt64 := do
  coder.group.checkWrite ctx pending.stamp
  coder.group.reserve pending.key pending.present
  return pending.number

/-- Reserves a number in a transaction of its own. -/
def number (coder : Coder) (ctx : Context) : Op υ UInt64 :=
  Op.transact ctx do
    let pending ← coder.numberRead ctx
    coder.numberWrite ctx pending

/-! ## Codes -/

/-- The read phase of a code of some width. -/
def codeRead (coder : Coder) (ctx : Context) (width : CodeWidth) : TxOp υ PendingCode := do
  let number ← coder.numberRead ctx
  let code ← TxOp.ofExcept (Code.encode number.number width)
  return { number, width, code }

/-- The write phase of a code.  The width must be that of the read phase. -/
def codeWrite (coder : Coder) (ctx : Context) (pending : PendingCode) (width : CodeWidth) :
    TxOp υ String := do
  if pending.width ≠ width then
    throw (.missingReadPhase coder.group.owner
      s!"token holds a {pending.width.bits}-bit code, not {width.bits}-bit")
  discard (coder.numberWrite ctx pending.number)
  return pending.code

/-- Reserves a code in a transaction of its own. -/
def code (coder : Coder) (ctx : Context) (width : CodeWidth) : Op υ String :=
  Op.transact ctx do
    let pending ← coder.codeRead ctx width
    coder.codeWrite ctx pending width

/-! ## Bulk operations -/

/-- Removes all documents of the coder; the result says whether none is left. -/
def delete (coder : Coder) (ctx : Context) : Op υ Bool :=
  coder.group.deleteShards ctx coder.maxDeleteRounds

end Coder

end Shardwise
