/-!
# The URL-safe base64 alphabet

Bytes are written in groups of three as four symbols of six bits each, highest
bits first; a last group of one or two bytes takes two or three symbols, whose
unused bits are zero.  There is no padding.

`encode` writes bytes.  `decode` reads exactly what `encode` writes, and says
where any other text goes wrong: it looks at the length first, then at whole
groups of eight symbols, then at the rest, and at unused bits last.
-/

namespace Shardwise.Base64Url

/-! ## Symbols -/

/-- The symbol of six bits. -/
def symbol (bits : UInt8) : UInt8 :=
  if bits < 26 then bits + 65
  else if bits < 52 then bits + 71
  else if bits < 62 then bits - 4
  else if bits == 62 then 45
  else 95

/-- The six bits of a symbol. -/
def bits? (byte : UInt8) : Option UInt8 :=
  if 65 ≤ byte ∧ byte ≤ 90 then some (byte - 65)
  else if 97 ≤ byte ∧ byte ≤ 122 then some (byte - 71)
  else if 48 ≤ byte ∧ byte ≤ 57 then some (byte + 4)
  else if byte == 45 then some 62
  else if byte == 95 then some 63
  else none

/-- The padding character of other variants of the alphabet. -/
def padding : UInt8 := 61

/-! ## Writing -/

/-- The bytes cut into groups of six bits, the last one filled with zeros. -/
def sixes : List UInt8 → List UInt8
  | [] => []
  | [a] => [a >>> 2, (a &&& 3) <<< 4]
  | [a, b] => [a >>> 2, (a &&& 3) <<< 4 ||| b >>> 4, (b &&& 15) <<< 2]
  | a :: b :: c :: rest =>
    a >>> 2 :: ((a &&& 3) <<< 4 ||| b >>> 4) :: ((b &&& 15) <<< 2 ||| c >>> 6) :: (c &&& 63) ::
      sixes rest

/-- The text of some bytes. -/
def encode (bytes : List UInt8) : String :=
  String.ofList ((sixes bytes).map fun bits => Char.ofNat (symbol bits).toNat)

/-! ## Reading -/

/-- What is wrong with a text. -/
inductive DecodeError where
  /-- A byte does not belong at its place. -/
  | invalidByte (byte : UInt8) (offset : Nat)
  /-- One symbol is left over, and six bits are not a byte. -/
  | invalidLength
  /-- The text ends in padding. -/
  | invalidPadding
  /-- The unused bits of the last symbol are not zero. -/
  | invalidLastSymbol (byte : UInt8) (offset : Nat)
deriving DecidableEq, Repr

/-- The wording of what is wrong. -/
def DecodeError.message : DecodeError → String
  | .invalidByte byte offset => s!"Invalid byte {byte}, offset {offset}."
  | .invalidLength => "Encoded text cannot have a 6-bit remainder."
  | .invalidPadding => "Invalid padding"
  | .invalidLastSymbol byte offset => s!"Invalid last symbol {byte}, offset {offset}."

/-- The bytes that groups of six bits make up; bits that fill no byte are
dropped. -/
def eights : List UInt8 → List UInt8
  | a :: b :: c :: d :: rest =>
    (a <<< 2 ||| b >>> 4) :: (b <<< 4 ||| c >>> 2) :: (c <<< 6 ||| d) :: eights rest
  | [a, b, c] => [a <<< 2 ||| b >>> 4, b <<< 4 ||| c >>> 2]
  | [a, b] => [a <<< 2 ||| b >>> 4]
  | _ => []

/-- The bits of the last symbol that fill no byte. -/
def unusedBits (count : Nat) (last : UInt8) : UInt8 :=
  if count % 4 == 2 then last &&& 15 else if count % 4 == 3 then last &&& 3 else 0

/-- A single symbol left over is an error, of the symbol itself where it is no
symbol. -/
def checkLength (bytes : List UInt8) : Except DecodeError Unit :=
  match bytes.getLast? with
  | some last =>
    if bytes.length % 4 != 1 then .ok ()
    else if last == padding || (bits? last).isSome then .error .invalidLength
    else .error (.invalidByte last (bytes.length - 1))
  | none => .ok ()

/-- Refuses every byte that is no symbol. -/
def checkSymbols : Nat → List UInt8 → Except DecodeError Unit
  | _, [] => .ok ()
  | offset, byte :: rest =>
    if (bits? byte).isSome then checkSymbols (offset + 1) rest
    else .error (.invalidByte byte offset)

/-- Refuses what may not stand among the last eight symbols.  Padding may follow
two symbols of a group and be followed by padding alone; the result says whether
there is any. -/
def checkTail (start : Nat) : Nat → Option Nat → List UInt8 → Except DecodeError Bool
  | _, padded, [] => .ok padded.isSome
  | i, padded, byte :: rest =>
    if byte == padding then
      if i % 4 < 2 then .error (.invalidByte padding (padded.getD (start + i)))
      else checkTail start (i + 1) (padded.orElse fun _ => some (start + i)) rest
    else match padded with
      | some first => .error (.invalidByte padding first)
      | none =>
        if (bits? byte).isSome then checkTail start (i + 1) none rest
        else .error (.invalidByte byte (start + i))

/-- The last symbol fills whole bytes. -/
def checkUnused (bytes sixes : List UInt8) : Except DecodeError Unit :=
  match bytes.getLast?, sixes.getLast? with
  | some byte, some last =>
    if unusedBits sixes.length last == 0 then .ok ()
    else .error (.invalidLastSymbol byte (bytes.length - 1))
  | _, _ => .ok ()

/-- The bytes that a text writes. -/
def decode (text : String) : Except DecodeError (List UInt8) := do
  let bytes := text.toUTF8.toList
  checkLength bytes
  let start := (bytes.length - 1) / 8 * 8
  checkSymbols 0 (bytes.take start)
  if ← checkTail start 0 none (bytes.drop start) then throw .invalidPadding
  let sixes := bytes.filterMap bits?
  checkUnused bytes sixes
  return eights sixes

end Shardwise.Base64Url
