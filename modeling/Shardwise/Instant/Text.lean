import Shardwise.Instant
import Shardwise.Text.Padded
import Shardwise.Text.Reader

/-!
# The written forms of instants

`Instant.display` is the form used in messages and `Instant.rfc3339` the form of
stored data.  They differ only in what stands between date and time and behind
the time.  A fraction of a second is written with three, six or nine digits, the
fewest that are exact, and left out when it is zero.  A leap second is written
as second 60.

`Instant.ofRfc3339?` reads the second form, and accepts more than is written:
blanks around the numbers of the date and the time, a signed year of any length,
any offset from UTC, and fractions of any length.
-/

namespace Shardwise.Instant

open Calendar Text

/-! ## Writing -/

/-- The fraction of a second, with the fewest of three, six or nine digits. -/
def fraction (nanos : Nat) : String :=
  if nanos == 0 then ""
  else if nanos % 1000000 == 0 then "." ++ paddedNat 3 (nanos / 1000000)
  else if nanos % 1000 == 0 then "." ++ paddedNat 6 (nanos / 1000)
  else "." ++ paddedNat 9 nanos

/-- Date and time with `between` between them and `behind` behind them. -/
def written (t : Instant) (between behind : String) : String :=
  let leap := t.nanos / 1000000000
  let date := t.date
  signedYear date.year ++ "-" ++ paddedNat 2 date.month ++ "-" ++ paddedNat 2 date.day ++
    between ++ paddedNat 2 t.hour ++ ":" ++ paddedNat 2 t.minute ++ ":" ++
    paddedNat 2 (t.second + leap) ++ fraction (t.nanos % 1000000000) ++ behind

/-- The form used in messages: `2024-03-10 12:15:00 UTC`. -/
def display (t : Instant) : String := t.written " " " UTC"

/-- The form of stored data: `2024-03-10T12:15:00Z`. -/
def rfc3339 (t : Instant) : String := t.written "T" "Z"

/-! ## Reading -/

/-- A number of at most two digits, with blanks before it. -/
def readField : Reader Nat := do
  Reader.blanks
  Reader.decimalUpTo 2

/-- A separator, with blanks before it. -/
def readSeparator (c : Char) : Reader Unit := do
  Reader.blanks
  Reader.char c

/-- A year: up to four digits, or a sign and any number of digits. -/
def readYear : Reader Int := do
  Reader.blanks
  let signed : Reader Nat := do return Reader.numberOfDigits (← Reader.takeWhile1 Char.isDigit)
  (do Reader.char '-'; return -(← signed)) <|> (do Reader.char '+'; return ← signed) <|>
    (do return ← Reader.decimalUpTo 4)

/-- A calendar date. -/
def readDate : Reader Date := do
  let year ← readYear
  readSeparator '-'
  let month ← readField
  readSeparator '-'
  let day ← readField
  let date : Date := ⟨year, month, day⟩
  if date.Exists then return date else failure

/-- A fraction of a second, in nanoseconds; digits after the ninth are dropped. -/
def readFraction : Reader Nat := do
  Reader.char '.'
  let digits ← Reader.takeWhile1 Char.isDigit
  let kept := digits.take 9
  return Reader.numberOfDigits kept * Nat.pow 10 (9 - kept.length)

/-- The name of UTC, in any case. -/
def readUtcName : Reader Unit := do
  let name ← Reader.takeUpTo 3 Char.isAlpha
  if name.map Char.toUpper == ['U', 'T', 'C'] then return () else failure

/-- The distance from UTC in seconds: a `Z`, the name of UTC, or a sign, hours
and minutes. -/
def readOffset : Reader Int := do
  let zulu : Reader Int := do
    discard (Reader.charIf fun c => c == 'Z' || c == 'z')
    return 0
  let utc : Reader Int := do readUtcName; return 0
  let numeric : Reader Int := do
    let sign ← Reader.charIf fun c => c == '+' || c == '-' || c == '\u2212'
    let hours ← Reader.decimalOf 2
    discard (Reader.takeWhile fun c => c == ':' || isBlank c)
    let minutes ← Reader.decimalOf 2
    let distance : Nat := hours * 3600 + minutes * 60
    if minutes < 60 && distance < 86400 then
      return if sign == '+' then (distance : Int) else -distance
    else failure
  utc <|> zulu <|> numeric

/-- A date, a time of day and an offset. -/
def readInstant : Reader Instant := do
  let date ← readDate
  discard (Reader.charIf fun c => c == 'T' || c == 't' || c == ' ')
  let hour ← readField
  readSeparator ':'
  let minute ← readField
  readSeparator ':'
  let second ← readField
  let nanos := (← Reader.optional? readFraction).getD 0
  Reader.blanks
  let offset ← readOffset
  Reader.blanks
  if hour ≤ 23 && minute ≤ 59 && second ≤ 60 then
    let leap := second / 60
    let found := do
      let shown ← ofCivil? date hour minute (second - leap) (nanos + leap * 1000000000)
      ofParts? (shown.seconds - offset) shown.nanos
    match found with
    | some t => return t
    | none => failure
  else failure

/-- The instant that a text of the form `2024-03-10T12:15:00Z` writes. -/
def ofRfc3339? (text : String) : Option Instant := Reader.readAll readInstant text

end Shardwise.Instant
