import Shardwise.Datum
import Shardwise.ShardRecord
import Shardwise.Settings

/-!
# Stored forms

How levels, keys, values, documents and settings are written as interchange data,
and how they are read back.

A structure is a record of its fields, and may also be given as a list of them in
their order; parts with other names are left alone.  A value is its kind with its
content, and a null is its kind alone.  Settings that are not given have their
defaults.
-/

namespace Shardwise

/-- A text. -/
def Datum.asText? : Datum → Option String
  | .text s => some s
  | _ => none

/-- A truth value. -/
def Datum.asBool? : Datum → Option Bool
  | .bool b => some b
  | _ => none

/-- A whole number from 0 up to a bound. -/
def Datum.asNatBelow? (bound : Nat) : Datum → Option Nat
  | .int n => if 0 ≤ n ∧ n < bound then some n.toNat else none
  | _ => none

/-! ## Levels and keys -/

/-- The stored form of a level: its name. -/
def Level.toDatum (level : Level) : Datum := .text level.name

/-- Reads a level, by its name or as a record of its name and null. -/
def Level.ofDatum? : Datum → Option Level
  | .text name | .record [(name, .null)] => (Level.ofName name).toOption
  | _ => none

/-- The fields of a key. -/
def DocKey.fieldNames : List String := ["collection", "name"]

/-- The stored form of a key. -/
def DocKey.toDatum (key : DocKey) : Datum :=
  .record [("collection", .text key.collection), ("name", .text key.name)]

/-- The data may stand for a structure with some fields. -/
def Datum.isStructure (names : List String) : Datum → Bool
  | .record _ => true
  | .list items => items.length ≤ names.length
  | _ => false

/-- Reads a key. -/
def DocKey.ofDatum? (datum : Datum) : Option DocKey := do
  guard (datum.isStructure fieldNames)
  let collection ← datum.part? fieldNames "collection"
  let name ← datum.part? fieldNames "name"
  return ⟨← collection.asText?, ← name.asText?⟩

/-! ## Values and documents -/

/-- The stored form of a value. -/
def Value.toDatum : Value → Datum
  | .null => .text "Null"
  | .bool b => .record [("Bool", .bool b)]
  | .int n => .record [("Int", .int n.toInt)]
  | .uint n => .record [("UInt", .int n.toNat)]
  | .float x => .record [("Float", .float x)]
  | .text s => .record [("String", .text s)]
  | .time t => .record [("Timestamp", .text t.rfc3339)]

/-- The float of a number; whole numbers have the nearest one. -/
def Datum.asFloat? : Datum → Option Float
  | .float x => some x
  | .int n =>
    match Value.int64OfInt? n, Value.uint64OfInt? n with
    | some word, _ => some (Value.floatOfInt64 word)
    | none, some word => some word.toFloat
    | none, none => none
  | _ => none

/-- Reads the content of a value of some kind. -/
def Value.ofContent? (kind : String) (content : Datum) : Option Value :=
  match kind, content with
  | "Null", .null => some .null
  | "Bool", .bool b => some (.bool b)
  | "Int", .int n => .int <$> Value.int64OfInt? n
  | "UInt", .int n => .uint <$> Value.uint64OfInt? n
  | "Float", number => .float <$> number.asFloat?
  | "String", .text s => some (.text s)
  | "Timestamp", .text s => .time <$> Instant.ofRfc3339? s
  | _, _ => none

/-- Reads a value. -/
def Value.ofDatum? : Datum → Option Value
  | .text "Null" => some .null
  | .record [(kind, content)] => Value.ofContent? kind content
  | _ => none

/-- The stored form of a document. -/
def Document.toDatum (document : Document) : Datum :=
  .record [("fields", .record (document.fields.toList.map fun (name, value) =>
    (name, value.toDatum)))]

/-- Reads named fields. -/
def Document.fieldsOf? : Datum → Option Fields
  | .record parts => parts.foldlM (fun fields (name, datum) => do
      return fields.insert name (← Value.ofDatum? datum)) ∅
  | _ => none

/-- Reads a document. -/
def Document.ofDatum? (datum : Datum) : Option Document := do
  guard (datum.isStructure ["fields"])
  return ⟨← fieldsOf? (← datum.part? ["fields"] "fields")⟩

/-! ## Settings -/

namespace Settings

/-- A setting that is read if it is given. -/
def setting {α : Type} (datum : Datum) (names : List String) (name : String)
    (read : Datum → Option α) (default : α) : Option α :=
  match datum.part? names name with
  | some part => read part
  | none => some default

/-- The data may stand for a section.  A date says nothing about any setting.  With
`exact`, a list must not be longer than the section. -/
def isSection (exact : Bool) (names : List String) : Datum → Bool
  | .date _ => true
  | .list items => !exact || items.length ≤ names.length
  | datum => datum.isStructure names

/-- A count or a time: a whole number below 2^64. -/
def asWord? : Datum → Option Nat := Datum.asNatBelow? UInt64.size

/-- A number of shards: a whole number below 2^32. -/
def asShards? : Datum → Option Nat := Datum.asNatBelow? UInt32.size

/-- Reads the retry policy. -/
def retryOf? (exact : Bool) (datum : Datum) : Option RetryPolicy := do
  let names := ["max_retries", "base_delay_ms", "max_delay_ms"]
  guard (isSection exact names datum)
  let standard : RetryPolicy := {}
  return {
    maxRetries := ← setting datum names "max_retries" asWord? standard.maxRetries
    baseDelay := ← setting datum names "base_delay_ms" asWord? standard.baseDelay
    maxDelay := ← setting datum names "max_delay_ms" asWord? standard.maxDelay }

/-- Reads what counters use. -/
def counterOf? (exact : Bool) (datum : Datum) : Option CounterSettings := do
  let names := ["num_shards", "date_hierarchy"]
  guard (isSection exact names datum)
  let standard : CounterSettings := {}
  return {
    numShards := ← setting datum names "num_shards" asShards? standard.numShards
    dateHierarchy := ← setting datum names "date_hierarchy" Datum.asBool?
      standard.dateHierarchy }

/-- Reads what coders use. -/
def coderOf? (exact : Bool) (datum : Datum) : Option CoderSettings := do
  let names := ["num_shards"]
  guard (isSection exact names datum)
  let standard : CoderSettings := {}
  return { numShards := ← setting datum names "num_shards" asShards? standard.numShards }

/-- Reads the limits of bulk operations. -/
def adminOf? (exact : Bool) (datum : Datum) : Option AdminSettings := do
  let names := ["max_delete_rounds"]
  guard (isSection exact names datum)
  let standard : AdminSettings := {}
  return {
    maxDeleteRounds := ← setting datum names "max_delete_rounds" asWord?
      standard.maxDeleteRounds }

/-- Reads settings without asking whether they can work. -/
def ofDatum? (exact : Bool) (datum : Datum) : Option Settings := do
  let names := ["retry", "counter", "coder", "admin"]
  guard (isSection exact names datum)
  return {
    retry := ← setting datum names "retry" (retryOf? exact) {}
    counter := ← setting datum names "counter" (counterOf? exact) {}
    coder := ← setting datum names "coder" (coderOf? exact) {}
    admin := ← setting datum names "admin" (adminOf? exact) {} }

/-- The stored form of settings. -/
def toDatum (settings : Settings) : Datum :=
  .record [
    ("retry", .record [
      ("max_retries", .int settings.retry.maxRetries),
      ("base_delay_ms", .int settings.retry.baseDelay),
      ("max_delay_ms", .int settings.retry.maxDelay)]),
    ("counter", .record [
      ("num_shards", .int settings.counter.numShards),
      ("date_hierarchy", .bool settings.counter.dateHierarchy)]),
    ("coder", .record [("num_shards", .int settings.coder.numShards)]),
    ("admin", .record [("max_delete_rounds", .int settings.admin.maxDeleteRounds)])]

end Settings

end Shardwise
