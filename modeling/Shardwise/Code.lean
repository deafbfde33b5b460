import Shardwise.Code.Base64Url
import Shardwise.Code.Scramble
import Shardwise.Error

/-!
# Codes

A code is a short text that stands for a number below 2^16, 2^32 or 2^64.  The
number is scrambled within its width, and its bytes, highest first, are written
in the URL-safe base64 alphabet.  `Code.encode` and `Code.decode` undo each
other, so different numbers have different codes of the same width.
-/

namespace Shardwise

/-- The width of the number behind a code. -/
inductive CodeWidth where
  | bits16
  | bits32
  | bits64
deriving DecidableEq, Repr, Inhabited

namespace CodeWidth

/-- The bytes of a number of this width. -/
def bytes : CodeWidth → Nat
  | .bits16 => 2
  | .bits32 => 4
  | .bits64 => 8

/-- The width in bits. -/
def bits (width : CodeWidth) : Nat := 8 * width.bytes

/-- The largest number of this width, which is also the mask of its bits. -/
def maxNumber : CodeWidth → UInt64
  | .bits16 => 0xFFFF
  | .bits32 => 0xFFFFFFFF
  | .bits64 => 0xFFFFFFFFFFFFFFFF

/-- The length of a code of this width. -/
def codeLength : CodeWidth → Nat
  | .bits16 => 3
  | .bits32 => 6
  | .bits64 => 11

end CodeWidth

namespace Code

/-- The `count` low bytes of a word, highest first. -/
def bytesOfWord (word : UInt64) : Nat → List UInt8
  | 0 => []
  | count + 1 => (word >>> (8 * UInt64.ofNat count)).toUInt8 :: bytesOfWord word count

/-- The word that some bytes make up, highest first. -/
def wordOfBytes (bytes : List UInt8) : UInt64 :=
  bytes.foldl (fun word byte => word <<< 8 ||| byte.toUInt64) 0

/-- The code of a number.  It fails if the number needs more bits. -/
def encode (number : UInt64) (width : CodeWidth) : Except Error String :=
  if number ≤ width.maxNumber then
    .ok (Base64Url.encode
      (bytesOfWord (Scramble.scramble width.maxNumber number) width.bytes))
  else .error (.capacityExceeded width.bits number.toNat)

/-- The number behind a code. -/
def decode (code : String) (width : CodeWidth) : Except Error UInt64 :=
  match Base64Url.decode code with
  | .error problem => .error (.invalidInput s!"malformed code '{code}': {problem.message}")
  | .ok bytes =>
    if bytes.length == width.bytes then
      .ok (Scramble.unscramble width.maxNumber (wordOfBytes bytes))
    else .error (.invalidInput s!"code '{code}' is not a {width.bits}-bit code")

end Code

end Shardwise
