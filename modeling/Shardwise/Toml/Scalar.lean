import Shardwise.Calendar
import Shardwise.Datum.Json

/-!
# Scalars of TOML

Strings in their four forms, numbers, truth values, and dates and times.
`readScalar` reads any of them.  A date or a time is kept as it is written, after
its fields have been checked.
-/

namespace Shardwise.Toml

open Text Datum

/-! ## Characters -/

/-- The white space inside a line. -/
def isSpace (c : Char) : Bool := c == ' ' || c == '\t'

/-- A character that may stand in a comment: everything but controls, and the tab. -/
def isVisible (c : Char) : Bool := c == '\t' || (0x20 ≤ c.toNat && c.toNat != 0x7F)

/-- Leaves out the white space inside a line. -/
def readSpaces : Reader Unit := discard (Reader.takeWhile isSpace)

/-- The end of a line. -/
def readNewline : Reader Unit := Reader.literal "\n" <|> Reader.literal "\x0d\n"

/-! ## Strings -/

/-- What stands behind a backslash. -/
def readTomlEscape : Reader Char := do
  match ← Reader.charIf fun _ => true with
  | 'b' => return '\x08'
  | 'f' => return '\x0c'
  | 'n' => return '\n'
  | 'r' => return '\r'
  | 't' => return '\t'
  | 'u' => charOfCode (← readHex 4)
  | 'U' => charOfCode (← readHex 8)
  | c => if c == '"' || c == '\\' then return c else failure

/-- An escaped character. -/
def readEscaped : Reader (List Char) := do
  Reader.char '\\'
  return [← readTomlEscape]

/-- A string in one line, with escapes. -/
def readBasic : Reader String := do
  Reader.char '"'
  let plain := Reader.takeWhile1 fun c => isVisible c && c != '"' && c != '\\'
  let pieces ← Reader.many (plain <|> readEscaped)
  Reader.char '"'
  return String.ofList pieces.flatten

/-- A string in one line, as it is written. -/
def readLiteral : Reader String := do
  Reader.char '\''
  let cs ← Reader.takeWhile fun c => isVisible c && c != '\''
  Reader.char '\''
  return String.ofList cs

/-- The end of a line inside a string. -/
def readLineBreak : Reader (List Char) := do
  readNewline
  return ['\n']

/-- A backslash at the end of a line leaves out all white space up to the next
character. -/
def readJoin : Reader (List Char) := do
  Reader.char '\\'
  readSpaces
  readNewline
  discard (Reader.many (readNewline <|> discard (Reader.takeWhile1 isSpace)))
  return []

/-- One or two quotes that do not end a string. -/
def readInnerQuotes (quote : Char) : Reader (List Char) := do
  let quotes ← Reader.takeWhile (· == quote)
  let more := (← Reader.next?).isSome
  if (quotes.length == 1 || quotes.length == 2) && more then return quotes else failure

/-- A string over several lines between triple quotes.  A line end right behind the
opening quotes is left out, and up to two quotes may stand before the closing ones. -/
def readMultiline (quote : Char) (content : Reader (List Char)) : Reader String := do
  Reader.literal (String.ofList [quote, quote, quote])
  discard (Reader.optional? readNewline)
  let pieces ← Reader.many (content <|> readInnerQuotes quote)
  let closing ← Reader.takeWhile (· == quote)
  if 3 ≤ closing.length && closing.length ≤ 5 then
    return String.ofList (pieces.flatten ++ closing.drop 3)
  else failure

/-- A string over several lines, with escapes. -/
def readMultilineBasic : Reader String :=
  let plain := Reader.takeWhile1 fun c => isVisible c && c != '"' && c != '\\'
  readMultiline '"' (plain <|> readJoin <|> readEscaped <|> readLineBreak)

/-- A string over several lines, as it is written. -/
def readMultilineLiteral : Reader String :=
  let plain := Reader.takeWhile1 fun c => isVisible c && c != '\''
  readMultiline '\'' (plain <|> readLineBreak)

/-- A string in any of the four forms. -/
def readString : Reader String :=
  readMultilineBasic <|> readBasic <|> readMultilineLiteral <|> readLiteral

/-! ## Numbers -/

/-- Digits of a class, with single underscores between them. -/
def readDigits (isDigit : Char → Bool) : Reader (List Char) := do
  let first ← Reader.takeWhile1 isDigit
  let more ← Reader.many (Reader.char '_' *> Reader.takeWhile1 isDigit)
  return first ++ more.flatten

/-- A sign, if there is one; it says whether the number is negative. -/
def readSign : Reader Bool := do
  return (← Reader.optional? (Reader.charIf fun c => c == '+' || c == '-')) == some '-'

/-- The digits of a decimal number, whose first is 0 only if it stands alone. -/
def readWhole : Reader (List Char) := do
  if (← Reader.next?) == some '0' then return [← Reader.charIf (· == '0')]
  else readDigits Char.isDigit

/-- A whole number that fits a signed word. -/
def fitting (n : Int) : Reader Datum :=
  if -0x8000000000000000 ≤ n && n < 0x8000000000000000 then return .int n else failure

/-- A whole number in decimal digits. -/
def readDecimal : Reader Datum := do
  let negative ← readSign
  let size := Reader.numberOfDigits (← readWhole)
  fitting (if negative then -(size : Int) else size)

/-- A whole number behind `mark`, in digits of a base. -/
def readBase (mark : String) (base : Nat) : Reader Datum := do
  Reader.literal mark
  let digits ← readDigits fun c => isHexDigit c && hexValue c < base
  let size : Nat := digits.foldl (fun n c => base * n + hexValue c) 0
  fitting size

/-- An exponent. -/
def readPower : Reader Int := do
  discard (Reader.charIf fun c => c == 'e' || c == 'E')
  let negative ← readSign
  let size := Reader.numberOfDigits (← readDigits Char.isDigit)
  return if negative then -(size : Int) else size

/-- The nearest float of decimal digits and an exponent. -/
def nearestFloat (digits : Nat) (exponent : Int) : Float :=
  Float.ofScientific digits (exponent < 0) exponent.natAbs

/-- A number with a fraction or an exponent.  What is too large is refused, unless
it is negative. -/
def readFloat : Reader Datum := do
  let negative ← readSign
  let whole ← readWhole
  let fraction ← Reader.optional? (Reader.char '.' *> readDigits Char.isDigit)
  let power ← Reader.optional? readPower
  if fraction.isNone && power.isNone then failure
  let behind := fraction.getD []
  let x := nearestFloat (Reader.numberOfDigits (whole ++ behind))
    (power.getD 0 - behind.length)
  if negative then return .float (-x)
  else if x.isInf then failure
  else return .float x

/-- An infinity, or what is not a number. -/
def readSpecial : Reader Datum := do
  let negative ← readSign
  let infinity : Reader Float := do Reader.literal "inf"; return 1.0 / 0.0
  let undefined : Reader Float := do Reader.literal "nan"; return 0.0 / 0.0
  let x ← infinity <|> undefined
  return .float (if negative then -x else x)

/-! ## Dates and times -/

/-- A number of exactly two digits, at most `largest`. -/
def readTwo (largest : Nat) : Reader Unit := do
  if (← Reader.decimalOf 2) ≤ largest then return () else failure

/-- A date that the calendar has. -/
def readDay : Reader Unit := do
  let year ← Reader.decimalOf 4
  Reader.char '-'
  let month ← Reader.decimalOf 2
  Reader.char '-'
  let day ← Reader.decimalOf 2
  if (⟨year, month, day⟩ : Calendar.Date).Exists then return () else failure

/-- A time of day. -/
def readTime : Reader Unit := do
  readTwo 23
  Reader.char ':'
  readTwo 59
  Reader.char ':'
  readTwo 60
  discard (Reader.optional? (Reader.char '.' *> Reader.takeWhile1 Char.isDigit))

/-- A distance from UTC. -/
def readZone : Reader Unit :=
  let zulu := discard (Reader.charIf fun c => c == 'Z' || c == 'z')
  let numeric := do
    discard (Reader.charIf fun c => c == '+' || c == '-')
    readTwo 23
    Reader.char ':'
    readTwo 59
  zulu <|> numeric

/-- A date, a date with a time, or a time. -/
def readMoment : Reader Unit :=
  let timed := do
    discard (Reader.charIf fun c => c == 'T' || c == 't' || c == ' ')
    readTime
    discard (Reader.optional? readZone)
  let dated := do
    readDay
    discard (Reader.optional? timed)
  dated <|> readTime

/-- A date or a time, as it is written. -/
def readDate : Reader Datum := do
  let before ← get
  readMoment
  let after ← get
  return .date (String.ofList (before.take (before.length - after.length)))

/-! ## Any scalar -/

/-- A truth value. -/
def readBool : Reader Datum :=
  (do Reader.literal "true"; return .bool true) <|>
    (do Reader.literal "false"; return .bool false)

/-- A value that is neither an array nor a table. -/
def readScalar : Reader Datum :=
  Datum.text <$> readString <|> readBool <|> readDate <|> readFloat <|> readSpecial <|>
    readBase "0x" 16 <|> readBase "0o" 8 <|> readBase "0b" 2 <|> readDecimal

end Shardwise.Toml
