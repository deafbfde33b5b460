/-!
# Scrambling words

A number is scrambled by multiplying it with an odd word and flipping some bits,
both modulo a power of two.  Both steps can be undone, so different numbers
never meet.  `inverse` finds the word that undoes the multiplication.
-/

namespace Shardwise.Scramble

/-- The word that numbers are multiplied with.  It is odd. -/
def multiplier : UInt64 := 0x9E3779B97F4A7C15

/-- The bits that are flipped. -/
def flipped : UInt64 := 0x5DEECE66D1CE4E5B

/-- One step of Newton's iteration for the inverse of `odd`.  It doubles the
number of low bits that are right. -/
def newtonStep (odd inv : UInt64) : UInt64 := inv * (2 - odd * inv)

/-- The inverse of an odd word modulo 2^64.  The word itself is right in three
low bits, so five steps are enough. -/
def inverse (odd : UInt64) : UInt64 := Nat.repeat (newtonStep odd) 5 odd

/-- Scrambles the low bits of a number that `mask` selects. -/
def scramble (mask number : UInt64) : UInt64 :=
  (number * multiplier &&& mask) ^^^ (flipped &&& mask)

/-- Undoes `scramble`. -/
def unscramble (mask word : UInt64) : UInt64 :=
  (word ^^^ (flipped &&& mask)) * inverse multiplier &&& mask

end Shardwise.Scramble
