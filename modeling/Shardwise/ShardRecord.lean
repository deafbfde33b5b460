import Shardwise.Document
import Shardwise.Level
import Shardwise.Value.Number

/-!
# Shard documents

A shard document holds its owner and its value, and a counter shard also its
level and the time it was made at.  `ShardRecord.fields` writes these four
fields and `ShardRecord.ofDocument` reads them: a level or a time that is null
counts as absent, and other fields are left alone.
-/

namespace Shardwise

/-- The field that names the owner. -/
def ownerField : String := "OwnerID"

/-- The field that holds the value. -/
def valueField : String := "Value"

/-- The field that names the level. -/
def levelField : String := "Level"

/-- The field that holds the time of creation. -/
def timeField : String := "Time"

/-- What a shard document says. -/
structure ShardRecord where
  /-- The name that all shards of one primitive share. -/
  owner : String
  /-- The value of the shard. -/
  value : Value
  /-- The level of a counter shard. -/
  level : Option Level := none
  /-- The time at which a counter shard was made. -/
  time : Option Instant := none

namespace ShardRecord

/-- The fields that a record is stored as. -/
def fields (record : ShardRecord) : Fields :=
  let plain : Fields := (∅ : Fields).insert ownerField (.text record.owner)
    |>.insert valueField record.value
  let leveled := match record.level with
    | some level => plain.insert levelField (.text level.name)
    | none => plain
  match record.time with
  | some time => leveled.insert timeField (.time time)
  | none => leveled

/-- The owner that a document names. -/
def ownerOf (document : Document) : Except Error String := do
  match ← document.field ownerField with
  | .text owner => return owner
  | other => throw (other.mismatch ownerField "String")

/-- The number that a document holds. -/
def valueOf (document : Document) : Except Error Value := do
  let value ← document.field valueField
  if value.isNumeric then return value else throw (value.mismatch valueField "number")

/-- The level that a document names, if it names one. -/
def levelOf (document : Document) : Except Error (Option Level) :=
  match document.get? levelField with
  | none | some .null => .ok none
  | some (.text name) => some <$> Level.ofName name
  | some other => .error (other.mismatch levelField "String")

/-- The time that a document holds, if it holds one. -/
def timeOf (document : Document) : Except Error (Option Instant) :=
  match document.get? timeField with
  | none | some .null => .ok none
  | some (.time t) => .ok (some t)
  | some other => .error (other.mismatch timeField "Timestamp")

/-- The record that a document stores. -/
def ofDocument (document : Document) : Except Error ShardRecord := do
  let owner ← ownerOf document
  let value ← valueOf document
  let level ← levelOf document
  let time ← timeOf document
  return { owner, value, level, time }

end ShardRecord

end Shardwise
