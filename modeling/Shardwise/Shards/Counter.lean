import Shardwise.Shards.Group

/-!
# Counters

A counter spreads its increments over several shards and adds the shards up when
it is read.  With the date hierarchy each increment also goes to the shards of
the year, the month, the day and the hour.

`Counter.incrementRead` chooses a shard and finds out which of its documents
exist; `Counter.incrementWrite` adds to those and makes the others.  The hour's
document is made together with those of all coarser levels, so the read phase
looks from the finest level up and stops reading at the first document it finds.

`Counter.countAll` adds up the totals, and `Counter.detailPeriod` adds up the
documents of one level by the periods that they lie in.
-/

namespace Shardwise

variable {υ : Type}

/-- The clock that a counter reads. -/
inductive ClockSource where
  /-- The clock that is set by hand. -/
  | manual
  /-- The clock of the system. -/
  | system
deriving DecidableEq, Repr, Inhabited

/-- A sharded counter. -/
structure Counter where
  group : ShardGroup
  /-- Keep shards for years, months, days and hours. -/
  dateHierarchy : Bool := false
  clock : ClockSource := .system
  /-- Batches of a deletion at most. -/
  maxDeleteRounds : Nat := ({} : AdminSettings).maxDeleteRounds
deriving DecidableEq, Repr

/-- One level's document of a shard, as a read phase saw it. -/
structure LevelShard where
  level : Level
  key : DocKey
  /-- The document exists. -/
  present : Bool
deriving DecidableEq, Repr, Inhabited

/-- What the read phase of an increment leaves for the write phase. -/
structure PendingIncrement where
  stamp : Stamp
  /-- The shard that was chosen. -/
  index : Nat
  /-- The time of the read phase. -/
  time : Instant
  /-- The documents to write, finest level first and the total last. -/
  shards : List LevelShard

/-- The levels whose document exists. -/
def PendingIncrement.presentLevels (pending : PendingIncrement) : List Level :=
  (pending.shards.filter LevelShard.present).map LevelShard.level

namespace Counter

/-- A counter with the settings of a file. -/
def ofSettings (settings : Settings) (collection owner : String) : Counter where
  group := ⟨collection, owner, settings.counter.numShards⟩
  dateHierarchy := settings.counter.dateHierarchy
  maxDeleteRounds := settings.admin.maxDeleteRounds

/-! ## Increments -/

/-- The time that the counter's clock shows. -/
def now (counter : Counter) : TxOp υ Instant := do
  let env ← TxOp.env
  return match counter.clock with
    | .manual => env.manualClock
    | .system => env.systemClock

/-- The key of one level's document of a shard. -/
def levelKey (counter : Counter) (level : Level) (time : Instant) (index : Nat) : DocKey :=
  counterShardKey counter.group.collection counter.group.owner level time index

/-- Reads whether a document exists. -/
def isPresent (counter : Counter) (ctx : Context) (key : DocKey) : TxOp υ Bool := do
  TxOp.check ctx
  let document ← TxOp.withContext "increment_rx" counter.group.owner key (TxOp.get key)
  return document.isSome

/-- Looks at the documents of some levels, finest first.  Once one exists, all
coarser ones do, and are not read. -/
def probe (counter : Counter) (ctx : Context) (time : Instant) (index : Nat) :
    Bool → List Level → TxOp υ (List LevelShard)
  | _, [] => return []
  | found, level :: coarser => do
    let key := counter.levelKey level time index
    let present ← if found then pure true else counter.isPresent ctx key
    return ⟨level, key, present⟩ :: (← counter.probe ctx time index present coarser)

/-- Looks at the documents that an increment writes.  The total is read unless the
finest document exists. -/
def probeAll (counter : Counter) (ctx : Context) (time : Instant) (index : Nat) :
    TxOp υ (List LevelShard) := do
  let dated ← if counter.dateHierarchy then
      counter.probe ctx time index false Level.datedFinestFirst
    else pure []
  let finestPresent := (dated.head?.map LevelShard.present).getD false
  return dated ++ (← counter.probe ctx time index finestPresent [.total])

/-- The read phase of an increment: chooses a shard and finds out which of its
documents exist. -/
def incrementRead (counter : Counter) (ctx : Context) : TxOp υ PendingIncrement := do
  counter.group.checkRead ctx
  let index ← TxOp.pickShard counter.group.numShards
  let time ← counter.now
  let shards ← counter.probeAll ctx time index
  return { stamp := counter.group.stamp (← TxOp.attempt), index, time, shards }

/-- The write of one level's document. -/
def writeLevel (counter : Counter) (time : Instant) (value : Int64) (shard : LevelShard) :
    TxOp υ Unit :=
  counter.group.writeShard "increment_wx" shard.key shard.present
    { owner := counter.group.owner, value := .int value,
      level := some shard.level, time := some time }

/-- The write phase of an increment: adds `value` to the documents that exist, and
makes the others with it. -/
def incrementWrite (counter : Counter) (ctx : Context) (pending : PendingIncrement)
    (value : Int64) : TxOp υ Unit := do
  counter.group.checkWrite ctx pending.stamp
  if value ≤ 0 then
    throw (.invalidInput s!"increment must be positive, got {value.toInt}")
  pending.shards.forM (counter.writeLevel pending.time value)

/-- Increments in a transaction of its own. -/
def increment (counter : Counter) (ctx : Context) (value : Int64) : Op υ Unit :=
  Op.transact ctx do
    let pending ← counter.incrementRead ctx
    counter.incrementWrite ctx pending value

/-! ## Sums -/

/-- The documents of one level, ordered by key. -/
def levelDocuments (counter : Counter) (ctx : Context) (level : Level) (operation : String) :
    Op υ (List Document) := do
  let owned ← counter.group.owned ctx operation
  let documents := owned.map Prod.snd
  return documents.filter fun document =>
    document.get? levelField == some (.text level.name)

/-- The sum of all increments. -/
def countAll (counter : Counter) (ctx : Context) : Op υ Float := do
  counter.group.check ctx
  Op.ofExcept (sumValues (← counter.levelDocuments ctx .total "count_all"))

/-- Sums by the instants that their periods begin at. -/
abbrev PeriodSums := Std.ExtTreeMap Instant Float

/-- Adds a document to the sum of its period, if that begins in `[since, until)`. -/
def addToPeriod (level : Level) (since before : Instant) (sums : PeriodSums)
    (document : Document) : Except Error PeriodSums := do
  let record ← ShardRecord.ofDocument document
  match record.time with
  | none => throw (.typeMismatch timeField "Timestamp" "missing")
  | some time =>
    let begun ← level.start time
    if (compare begun since).isGE && (compare begun before).isLT then
      let value ← record.value.toFloat valueField
      return sums.insert begun ((sums[begun]?.getD 0.0) + value)
    else return sums

/-- The sums of one level's documents by period, over the periods that begin in
`[since, before)`.  Periods without documents are left out. -/
def detailPeriod (counter : Counter) (ctx : Context) (level : Level) (since before : Instant) :
    Op υ PeriodSums := do
  counter.group.check ctx
  unless level.isDated do
    throw (.invalidInput "period queries need a date level; use count_all for Total")
  unless (compare since before).isLT do
    throw (.invalidInput s!"empty period range [{since.display}, {before.display})")
  let documents ← counter.levelDocuments ctx level "detail_period"
  Op.ofExcept (documents.foldlM (addToPeriod level since before) ∅)

/-- The sum of one level's documents over the periods that begin in
`[since, before)`. -/
def countPeriod (counter : Counter) (ctx : Context) (level : Level) (since before : Instant) :
    Op υ Float := do
  let sums ← counter.detailPeriod ctx level since before
  return sums.toList.foldl (fun sum (_, value) => sum + value) 0.0

/-! ## Bulk operations -/

/-- Removes all documents of the counter; the result says whether none is left. -/
def delete (counter : Counter) (ctx : Context) : Op υ Bool :=
  counter.group.deleteShards ctx counter.maxDeleteRounds

end Counter

end Shardwise
