import Shardwise.Datum
import Shardwise.Text.Padded
import Shardwise.Text.Reader

/-!
# Data as JSON text

`Datum.ofJson?` reads a JSON text and `Datum.toJson` writes one.  A number with
neither fraction nor exponent is a whole number as long as it fits a signed or an
unsigned word of 64 bits, and minus zero and all other numbers are floats.
Floats are written with all their digits, so that nothing is lost.
-/

namespace Shardwise.Datum

open Text

/-! ## Reading numbers -/

/-- The power of ten with an exponent of at most 308. -/
def powerOfTen (exponent : Nat) : Float := Float.ofScientific 1 false exponent

/-- Divides by a power of ten, in steps of at most 308 places.  After three full
steps nothing is left of a word. -/
def scaleDown (x : Float) (places : Nat) : Float :=
  let steps := (places - 1) / 308
  Nat.repeat (· / powerOfTen 308) (min steps 3) x / powerOfTen (places - 308 * steps)

/-- A significand times a power of ten, unless it is too large. -/
def scale? (significand : UInt64) (exponent : Int) : Option Float :=
  let x := significand.toFloat
  if exponent < 0 then some (scaleDown x exponent.natAbs)
  else if 308 < exponent then if x == 0.0 then some x else none
  else
    let scaled := x * powerOfTen exponent.toNat
    if scaled.isInf then none else some scaled

/-- The leading digits of a number that fit an unsigned word, as a number, and the
digits after them. -/
def significandOf : List Char → Nat → Nat × List Char
  | [], taken => (taken, [])
  | c :: rest, taken =>
    let longer := 10 * taken + (c.toNat - '0'.toNat)
    if longer < UInt64.size then significandOf rest longer else (taken, c :: rest)

/-- The float that a sign, the digits before and after the point, and an exponent
write.  Digits that do not fit an unsigned word count as zeros. -/
def floatOfDigits? (negative : Bool) (whole fraction : List Char) (exponent : Int) :
    Option Float := do
  let (front, dropped) := significandOf whole 0
  let (significand, unused) := significandOf fraction front
  let used : Int := fraction.length - unused.length
  let x ← scale? (UInt64.ofNat significand) (exponent + dropped.length - used)
  return if negative then -x else x

/-- An exponent, with its sign. -/
def readExponent : Reader Int := do
  discard (Reader.charIf fun c => c == 'e' || c == 'E')
  let sign ← Reader.optional? (Reader.charIf fun c => c == '+' || c == '-')
  let size := Reader.numberOfDigits (← Reader.takeWhile1 Char.isDigit)
  return if sign == some '-' then -(size : Int) else size

/-- A number. -/
def readNumber : Reader Datum := do
  let negative := (← Reader.optional? (Reader.char '-')).isSome
  let whole ← Reader.takeWhile1 Char.isDigit
  if whole.head? == some '0' && whole.length > 1 then failure
  let fraction ← Reader.optional? (Reader.char '.' *> Reader.takeWhile1 Char.isDigit)
  let exponent ← Reader.optional? readExponent
  let float (front behind : List Char) (power : Int) : Reader Datum :=
    match floatOfDigits? negative front behind power with
    | some x => return .float x
    | none => failure
  match fraction, exponent with
  | none, none =>
    let size := Reader.numberOfDigits whole
    if negative && (size == 0 || 0x8000000000000000 < size) then float whole [] 0
    else if UInt64.size ≤ size then float whole [] 0
    else return .int (if negative then -(size : Int) else size)
  | _, _ => float whole (fraction.getD []) (exponent.getD 0)

/-! ## Reading texts -/

/-- The value of a hexadecimal digit. -/
def hexValue (c : Char) : Nat :=
  if c.isDigit then c.toNat - '0'.toNat
  else if 'a' ≤ c && c ≤ 'f' then c.toNat - 'a'.toNat + 10
  else c.toNat - 'A'.toNat + 10

/-- A hexadecimal digit. -/
def isHexDigit (c : Char) : Bool :=
  c.isDigit || ('a' ≤ c && c ≤ 'f') || ('A' ≤ c && c ≤ 'F')

/-- A number of exactly `count` hexadecimal digits. -/
def readHex (count : Nat) : Reader Nat := do
  let digits ← Reader.takeUpTo count isHexDigit
  if digits.length == count then
    return digits.foldl (fun n c => 16 * n + hexValue c) 0
  else failure

/-- The character of a code point. -/
def charOfCode (code : Nat) : Reader Char :=
  if code.isValidChar then return Char.ofNat code else failure

/-- A code point behind `\u`; a surrogate must be followed by its partner. -/
def readCodePoint : Reader Char := do
  let code ← readHex 4
  if 0xD800 ≤ code && code < 0xDC00 then
    Reader.literal "\\u"
    let low ← readHex 4
    if 0xDC00 ≤ low && low < 0xE000 then
      charOfCode (0x10000 + (code - 0xD800) * 0x400 + (low - 0xDC00))
    else failure
  else charOfCode code

/-- What stands behind a backslash. -/
def readEscape : Reader Char := do
  match ← Reader.charIf fun _ => true with
  | 'b' => return '\x08'
  | 'f' => return '\x0c'
  | 'n' => return '\n'
  | 'r' => return '\r'
  | 't' => return '\t'
  | 'u' => readCodePoint
  | c => if c == '"' || c == '\\' || c == '/' then return c else failure

/-- A text between quotes. -/
def readText : Reader String := do
  Reader.char '"'
  let plain : Reader (List Char) :=
    Reader.takeWhile1 fun c => c != '"' && c != '\\' && 0x20 ≤ c.toNat
  let escaped : Reader (List Char) := do
    Reader.char '\\'
    return [← readEscape]
  let pieces ← Reader.many (plain <|> escaped)
  Reader.char '"'
  return String.ofList pieces.flatten

/-! ## Reading data -/

/-- Leaves out the white space of JSON. -/
def readSpace : Reader Unit :=
  discard (Reader.takeWhile fun c => c == ' ' || c == '\n' || c == '\r' || c == '\t')

/-- A reader with white space around it. -/
def spaced {α : Type} (reader : Reader α) : Reader α := readSpace *> reader <* readSpace

/-- Data that is neither a list nor a record. -/
def readAtom : Reader Datum :=
  let word (name : String) (datum : Datum) : Reader Datum := do
    Reader.literal name
    return datum
  .text <$> readText <|> readNumber <|> word "true" (.bool true) <|>
    word "false" (.bool false) <|> word "null" .null

/-- Data with lists and records nested at most as deep as given. -/
def readJson : Nat → Reader Datum
  | 0 => readAtom
  | depth + 1 =>
    let item := spaced (readJson depth)
    let comma := Reader.char ','
    let part : Reader (String × Datum) := do
      let name ← spaced readText
      Reader.char ':'
      return (name, ← item)
    let list : Reader Datum := do
      Reader.char '['
      readSpace
      let items ← Reader.sepBy item comma
      Reader.char ']'
      return .list items
    let record : Reader Datum := do
      Reader.char '\x7b'
      readSpace
      let parts ← Reader.sepBy part comma
      Reader.char '\x7d'
      return ofParts parts
    record <|> list <|> readAtom

/-- The data that a JSON text holds, with lists and records nested at most 127
deep. -/
def ofJson? (text : String) : Option Datum := Reader.readAll (spaced (readJson 127)) text

/-! ## Writing -/

/-- A whole number divided by a power of ten, with a point and at least one digit
behind it. -/
def withPoint (number places : Nat) : String :=
  let digits := (paddedNat (places + 1) number).toList
  let (front, behind) := digits.splitAt (digits.length - places)
  let kept := (behind.reverse.dropWhile (· == '0')).reverse
  String.ofList (front ++ ['.'] ++ (if kept.isEmpty then ['0'] else kept))

/-- A float with all its digits; what is not finite has no form of its own. -/
def floatText (x : Float) : String :=
  let bits := x.toBits.toNat
  let sign := if bits >>> 63 == 0 then "" else "-"
  let exponent := (bits >>> 52) % 2048
  let fraction := bits % 0x10000000000000
  let significand := if exponent == 0 then fraction else fraction + 0x10000000000000
  let power := max exponent 1
  if exponent == 2047 then "null"
  else if power < 1075 then
    let places := 1075 - power
    sign ++ withPoint (significand * Nat.pow 5 places) places
  else sign ++ withPoint (significand <<< (power - 1075)) 0

/-- A character inside quotes. -/
def textChar (c : Char) : List Char :=
  if c == '"' || c == '\\' then ['\\', c]
  else if c.toNat < 0x20 then
    let digits := Nat.toDigits 16 c.toNat
    ['\\', 'u'] ++ List.replicate (4 - digits.length) '0' ++ digits
  else [c]

/-- A text between quotes. -/
def textText (s : String) : String :=
  String.ofList (['"'] ++ s.toList.flatMap textChar ++ ['"'])

mutual

/-- The JSON text of data. -/
def toJson : Datum → String
  | .null => "null"
  | .bool b => if b then "true" else "false"
  | .int n => toString n
  | .float x => floatText x
  | .text s | .date s => textText s
  | .list items => "[" ++ ",".intercalate (itemTexts items) ++ "]"
  | .record parts => "\x7b" ++ ",".intercalate (partTexts parts) ++ "\x7d"

/-- The texts of the items of a list. -/
def itemTexts : List Datum → List String
  | [] => []
  | item :: items => toJson item :: itemTexts items

/-- The texts of the parts of a record. -/
def partTexts : List (String × Datum) → List String
  | [] => []
  | (name, value) :: parts => (textText name ++ ":" ++ toJson value) :: partTexts parts

end

end Shardwise.Datum
