import Shardwise.Instant

/-!
# Field values

A document field holds one `Value`.  Whole numbers come in two kinds of 64-bit
word, and as floats.  `Value`'s equality test is that of its contents: a float
that is not a number differs from itself, and zeros of both signs agree.
-/

namespace Shardwise

/-- What a field of a document holds. -/
inductive Value where
  | null
  | bool (b : Bool)
  /-- A signed word. -/
  | int (n : Int64)
  /-- An unsigned word. -/
  | uint (n : UInt64)
  | float (x : Float)
  | text (s : String)
  | time (t : Instant)

namespace Value

instance : Inhabited Value := ⟨.null⟩

/-- The test that queries use. -/
protected def beq : Value → Value → Bool
  | .null, .null => true
  | .bool a, .bool b => a == b
  | .int a, .int b => a == b
  | .uint a, .uint b => a == b
  | .float a, .float b => Float.beq a b
  | .text a, .text b => a == b
  | .time a, .time b => a == b
  | _, _ => false

instance : BEq Value := ⟨Value.beq⟩

/-- The name of a value's kind. -/
def kind : Value → String
  | .null => "Null"
  | .bool _ => "Bool"
  | .int _ => "Int"
  | .uint _ => "UInt"
  | .float _ => "Float"
  | .text _ => "String"
  | .time _ => "Timestamp"

/-- Words and floats are numbers. -/
def isNumeric : Value → Bool
  | .int _ | .uint _ | .float _ => true
  | _ => false

/-- The text that a value holds. -/
def text? : Value → Option String
  | .text s => some s
  | _ => none

/-- The instant that a value holds. -/
def time? : Value → Option Instant
  | .time t => some t
  | _ => none

end Value

end Shardwise
