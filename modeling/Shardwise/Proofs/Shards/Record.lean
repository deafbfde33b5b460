import Mathlib.Algebra.Group.Nat.Defs
import Shardwise.Proofs.Store.Commit
import Shardwise.Shards.Group

/-!
# The document of a shard

A write phase adds to the document of a shard if its read phase found one, and
otherwise makes it; `ShardGroup.shardWrite` is the write that it buffers.  This
module says what a commit makes of these writes:

* `ShardRecord.get?_owner` to `get?_time` read the four fields of a document;
* `ShardRecord.applyWrite_add` and `applyWrite_make` are the two writes;
* `counted` is the document of a shard that is counted up by one each time, and
  `nextCount_counted` what a read phase makes of it.
-/

namespace Shardwise

/-! ## The fields of a record -/

namespace ShardRecord

theorem getElem?_fields (record : ShardRecord) (name : String) :
    record.fields[name]? =
      if name = ownerField then some (.text record.owner)
      else if name = valueField then some record.value
      else if name = levelField then record.level.map fun level => .text level.name
      else if name = timeField then record.time.map .time
      else none := by
  rcases record with ⟨owner, value, level, time⟩
  unfold fields ownerField valueField levelField timeField
  cases level <;> cases time <;>
    simp only [Std.ExtTreeMap.getElem?_insert, Std.LawfulEqCmp.compare_eq_iff_eq,
      Option.map_some, Option.map_none] <;> grind

/-- The document that stores a record. -/
def document (record : ShardRecord) : Document := ⟨record.fields⟩

theorem get?_owner (record : ShardRecord) :
    record.document.get? ownerField = some (.text record.owner) :=
  record.getElem?_fields ownerField

theorem get?_value (record : ShardRecord) :
    record.document.get? valueField = some record.value :=
  record.getElem?_fields valueField

theorem get?_level (record : ShardRecord) :
    record.document.get? levelField = record.level.map fun level => .text level.name :=
  record.getElem?_fields levelField

theorem get?_time (record : ShardRecord) :
    record.document.get? timeField = record.time.map .time :=
  record.getElem?_fields timeField

/-- The record with another value. -/
def withValue (record : ShardRecord) (n : Int64) : ShardRecord := { record with value := .int n }

theorem set_value (record : ShardRecord) (n : Int64) :
    record.document.set valueField (.int n) = (record.withValue n).document := by
  apply Document.ext_get?
  intro name
  rw [Document.get?_set]
  simp only [Document.get?, document, getElem?_fields, withValue, valueField, ownerField]
  grind

/-! ## The two writes -/

/-- A sum of whole numbers that fits a signed word is stored as one. -/
theorem add_int {a b : Int64} (field : String)
    (hlow : -0x8000000000000000 ≤ a.toInt + b.toInt)
    (hhigh : a.toInt + b.toInt < 0x8000000000000000) :
    Value.add (.int a) (.int b) field = .ok (.int (Int64.ofInt (a.toInt + b.toInt))) := by
  have hsum : Value.wordSum? (.int a) (.int b) =
      some (.int (Int64.ofInt (a.toInt + b.toInt))) := by
    simp [Value.wordSum?, Value.word?, Value.int64OfInt?, hlow, hhigh]
  simp [Value.add, hsum]

theorem applyWrite_add {record : ShardRecord} {a b : Int64} (hvalue : record.value = .int a)
    (hlow : -0x8000000000000000 ≤ a.toInt + b.toInt)
    (hhigh : a.toInt + b.toInt < 0x8000000000000000) :
    Database.applyWrite (some record.document) (.increment valueField (.int b)) =
      .ok (some (record.withValue (Int64.ofInt (a.toInt + b.toInt))).document) := by
  simp only [Database.applyWrite, Option.getD_some, get?_value, hvalue, Value.isNumeric, if_true,
    add_int valueField hlow hhigh]
  simp only [Except.map, set_value]

theorem applyWrite_make (current : Option Document) (record : ShardRecord) :
    Database.applyWrite current (.set record.fields false) = .ok (some record.document) := by
  cases current <;> rfl

end ShardRecord

/-! ## Owners -/

/-- Queries tell texts apart as they are. -/
theorem Value.beq_text {value : Option Value} {text : String} :
    (value == some (.text text)) = true ↔ value = some (.text text) := by
  rcases value with _ | value
  · simp
  · cases value with
    | text other =>
      show (other == text) = true ↔ _
      simp
    | _ =>
      constructor
      · intro h
        cases h
      · intro h
        cases h

namespace Document

/-- The document names the owner. -/
def names (document : Document) (owner : String) : Bool :=
  document.get? ownerField == some (.text owner)

theorem names_eq_true {document : Document} {owner : String} :
    document.names owner = true ↔ document.get? ownerField = some (.text owner) :=
  Value.beq_text

theorem get?_set_value (document : Document) (value : Value) {name : String}
    (h : name ≠ valueField) : (document.set valueField value).get? name = document.get? name := by
  rw [get?_set, if_neg (Ne.symm h)]

theorem names_set (document : Document) (value : Value) (owner : String) :
    (document.set valueField value).names owner = document.names owner := by
  rw [names, names, get?_set_value _ _ (by decide)]

end Document

theorem ShardRecord.names_document (record : ShardRecord) :
    record.document.names record.owner = true :=
  Document.names_eq_true.mpr record.get?_owner

namespace ShardGroup

/-- The write that a write phase buffers: it adds to a shard that its read phase
found, and otherwise makes it. -/
def shardWrite (present : Bool) (made : ShardRecord) : Write :=
  if present then .increment valueField made.value else .set made.fields false

/-! ## Shards that are counted up -/

/-- The document of a shard that was counted up to `count`. -/
def counted (owner : String) : Nat → Option Document
  | 0 => none
  | count + 1 =>
    some { owner, value := .int (Int64.ofNat (count + 1)) : ShardRecord }.document

@[simp] theorem counted_zero (owner : String) : counted owner 0 = none := rfl

theorem counted_isSome (owner : String) (count : Nat) :
    (counted owner count).isSome = decide (0 < count) := by
  cases count <;> simp [counted]

theorem toInt_ofNat {n : Nat} (h : n < 2 ^ 63) : (Int64.ofNat n).toInt = n :=
  Int64.toInt_ofNat_of_lt h

/-- Counting up counts one more. -/
theorem applyWrite_counted {owner : String} {count : Nat} (hroom : count + 1 < 2 ^ 63) :
    Database.applyWrite (counted owner count)
      (shardWrite (decide (0 < count)) { owner, value := .int 1 }) =
      .ok (counted owner (count + 1)) := by
  cases count with
  | zero => exact ShardRecord.applyWrite_make _ _
  | succ count =>
    have hnow : (Int64.ofNat (count + 1)).toInt = (count + 1 : Nat) := toInt_ofNat (by omega)
    have hone : (1 : Int64).toInt = 1 := by decide
    have hsum : (Int64.ofNat (count + 1)).toInt + (1 : Int64).toInt = (count + 1 + 1 : Nat) := by
      omega
    simp only [Nat.zero_lt_succ, decide_true, shardWrite, if_true, counted]
    rw [ShardRecord.applyWrite_add rfl (by omega) (by omega), hsum]
    rfl

/-! ## The next count -/

theorem uint64OfInt?_natCast {count : Nat} (hroom : count < 2 ^ 64) :
    Value.uint64OfInt? count = some (UInt64.ofNat count) := by
  have hhigh : (count : Int) < 0x10000000000000000 := by omega
  rw [Value.uint64OfInt?, if_pos ⟨Int.natCast_nonneg count, hhigh⟩, Int.toNat_natCast]

theorem toUInt64_ofNat {count : Nat} (hroom : count < 2 ^ 63) (field : String) :
    Value.toUInt64 (.int (Int64.ofNat count)) field = .ok (UInt64.ofNat count) := by
  unfold Value.toUInt64 Value.whole?
  dsimp only
  rw [toInt_ofNat hroom, Option.bind_some, uint64OfInt?_natCast (by omega)]

theorem countAfter_ofNat {count : Nat} (hroom : count + 1 < 2 ^ 64) :
    countAfter (UInt64.ofNat count) = UInt64.ofNat (count + 1) := by
  have hsucc : (UInt64.ofNat count + 1).toNat = count + 1 := by
    simp [UInt64.toNat_add]
    omega
  have hne : UInt64.ofNat count + 1 ≠ 0 := by
    intro heq
    rw [heq] at hsucc
    cases hsucc
  rw [countAfter, if_neg (by simpa using hne)]
  simp

/-- The next count of a shard that was counted up. -/
theorem nextCount_counted {owner : String} {count : Nat} (hroom : count < 2 ^ 63) :
    nextCount (counted owner count) = .ok (UInt64.ofNat (count + 1)) := by
  cases count with
  | zero => rfl
  | succ count =>
    have hfield : Document.field { owner, value := .int (Int64.ofNat (count + 1)) :
        ShardRecord }.document valueField = .ok (.int (Int64.ofNat (count + 1))) := by
      simp only [Document.field, ShardRecord.get?_value]
    simp only [nextCount, counted, hfield, bind, Except.bind, toUInt64_ofNat hroom, pure,
      Except.pure]
    rw [countAfter_ofNat (by omega)]

end ShardGroup

end Shardwise
