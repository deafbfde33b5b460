/-!
# Zero-padded decimal numbers

Dates and key parts write numbers at a minimal width.  `padded` fills with
zeros between the sign and the digits and counts the sign as part of the
width; `signedYear` is the form of a year outside `0..9999`, whose sign is
always written and not counted.
-/

namespace Shardwise.Text

/-- The decimal digits of `n`, with zeros in front up to `width` characters. -/
def paddedNat (width n : Nat) : String :=
  let digits := Nat.toDigits 10 n
  String.ofList (List.replicate (width - digits.length) '0' ++ digits)

/-- The decimal form of `n`, at least `width` characters long: a minus sign
comes first and takes one character of the width. -/
def padded (width : Nat) (n : Int) : String :=
  if n < 0 then "-" ++ paddedNat (width - 1) n.natAbs else paddedNat width n.natAbs

/-- A year: four digits in `0..9999`, and otherwise a sign and at least four
digits. -/
def signedYear (year : Int) : String :=
  if year < 0 then "-" ++ paddedNat 4 year.natAbs
  else if year ≤ 9999 then paddedNat 4 year.natAbs
  else "+" ++ paddedNat 4 year.natAbs

end Shardwise.Text
