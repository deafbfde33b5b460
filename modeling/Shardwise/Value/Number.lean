import Shardwise.Error
import Shardwise.Value

/-!
# Values as numbers

A stored number may be a signed word, an unsigned word or a float.
`Value.toFloat`, `Value.toInt64` and `Value.toUInt64` read it as one of the
three and refuse what would lose something: a float is read as a word only if it
is whole and of magnitude at most 2^53, up to where every whole number is a
float of its own.

`Value.add` is the sum that an increment stores.  Words stay words while the sum
fits, and everything else becomes a float.
-/

namespace Shardwise.Value

/-! ## Conversions -/

/-- The value is not of the expected kind. -/
def mismatch (value : Value) (field expected : String) : Error :=
  .typeMismatch field expected value.kind

/-- The nearest float of a signed word. -/
def floatOfInt64 (n : Int64) : Float :=
  if n < 0 then -(UInt64.ofNat n.toInt.natAbs).toFloat
  else (UInt64.ofNat n.toInt.toNat).toFloat

/-- The float 2^53: up to it every whole number is a float. -/
def wholeLimit : Float := (9007199254740992 : UInt64).toFloat

/-- The whole number that a float stands for exactly, if it has one of magnitude
at most 2^53. -/
def wholeOfFloat? (x : Float) : Option Int :=
  let size := x.abs.toUInt64
  if x.abs ≤ wholeLimit && Float.beq size.toFloat x.abs then
    some (if x < 0 then -(size.toNat : Int) else size.toNat)
  else none

/-- The signed word of a whole number, if it fits. -/
def int64OfInt? (n : Int) : Option Int64 :=
  if -0x8000000000000000 ≤ n ∧ n < 0x8000000000000000 then some (Int64.ofInt n) else none

/-- The unsigned word of a whole number, if it fits. -/
def uint64OfInt? (n : Int) : Option UInt64 :=
  if 0 ≤ n ∧ n < 0x10000000000000000 then some (UInt64.ofNat n.toNat) else none

/-- The whole number that a value stands for exactly. -/
def whole? : Value → Option Int
  | .int n => some n.toInt
  | .uint n => some n.toNat
  | .float x => wholeOfFloat? x
  | _ => none

/-- A number as a float; infinities and what is not a number are refused. -/
def toFloat (value : Value) (field : String) : Except Error Float :=
  match value with
  | .int n => .ok (floatOfInt64 n)
  | .uint n => .ok n.toFloat
  | .float x => if x.isFinite then .ok x else .error (value.mismatch field "number")
  | _ => .error (value.mismatch field "number")

/-- A number as a signed word. -/
def toInt64 (value : Value) (field : String) : Except Error Int64 :=
  match value.whole?.bind int64OfInt? with
  | some n => .ok n
  | none => .error (value.mismatch field "i64")

/-- A number as an unsigned word. -/
def toUInt64 (value : Value) (field : String) : Except Error UInt64 :=
  match value.whole?.bind uint64OfInt? with
  | some n => .ok n
  | none => .error (value.mismatch field "u64")

/-! ## Sums -/

/-- The signed word that a word value stands for; floats have none here. -/
def word? : Value → Option Int64
  | .int n => some n
  | .uint n => int64OfInt? n.toNat
  | _ => none

/-- The sum of two words as a word: two unsigned words give an unsigned one, and
other words add as signed ones. -/
def wordSum? : Value → Value → Option Value
  | .uint a, .uint b => (uint64OfInt? (a.toNat + b.toNat : Nat)).map .uint
  | a, b => do
    let x ← a.word?
    let y ← b.word?
    return .int (← int64OfInt? (x.toInt + y.toInt))

/-- The value of a numeric field after an increment by `delta`. -/
def add (value delta : Value) (field : String) : Except Error Value :=
  match wordSum? value delta with
  | some sum => .ok sum
  | none => do
    let x ← value.toFloat field
    let y ← delta.toFloat field
    return .float (x + y)

end Shardwise.Value
