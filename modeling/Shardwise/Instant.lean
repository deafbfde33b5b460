import Std.Data.ExtTreeMap
import Shardwise.Calendar

/-!
# Instants of UTC time

An `Instant` is a count of seconds from 1970-01-01T00:00:00 and a count of
nanoseconds in that second.  Second 59 of a minute may hold up to two thousand
million nanoseconds: the second half of them is a leap second.  The years go
from -262143 to 262142.

`Instant.ofParts?` and `Instant.ofCivil?` build instants, the fields `date`,
`hour`, `minute` and `second` read them in the calendar, and
`Instant.addSeconds?` moves them.  Instants are ordered by their two counts;
`Instant.lt_iff` says so.
-/

namespace Shardwise

open Calendar

/-- The first second of year -262143. -/
def earliestSecond : Int := -8334601228800

/-- The last second of year 262142. -/
def latestSecond : Int := 8210266876799

/-- The two counts name an instant: the second lies in the calendar, and only
second 59 of a minute holds more than a thousand million nanoseconds. -/
abbrev IsInstant (seconds : Int) (nanos : Nat) : Prop :=
  earliestSecond ≤ seconds ∧ seconds ≤ latestSecond ∧
    (nanos < 1000000000 ∨ nanos < 2000000000 ∧ seconds % 60 = 59)

/-- A point of UTC time between the years -262143 and 262142. -/
structure Instant where
  /-- Seconds from 1970-01-01T00:00:00, negative before. -/
  seconds : Int
  /-- Nanoseconds in the second; a leap second has a thousand million or more. -/
  nanos : Nat
  isInstant : IsInstant seconds nanos
deriving DecidableEq

namespace Instant

/-- The start of 1970. -/
def epoch : Instant := ⟨0, 0, by decide⟩

instance : Inhabited Instant := ⟨epoch⟩

/-- The instant of two counts, if there is one. -/
def ofParts? (seconds : Int) (nanos : Nat) : Option Instant :=
  if h : IsInstant seconds nanos then some ⟨seconds, nanos, h⟩ else none

/-! ## Order -/

instance : Ord Instant := ⟨compareLex (compareOn seconds) (compareOn nanos)⟩

instance : Std.TransOrd Instant :=
  inferInstanceAs (Std.TransCmp (compareLex (compareOn seconds) (compareOn nanos)))

instance : Std.LawfulEqOrd Instant where
  eq_of_compare {a b} h := by
    change compareLex (compareOn seconds) (compareOn nanos) a b = .eq at h
    cases a; cases b
    simp_all [compareLex, compareOn, Ordering.then_eq_eq]

instance : LT Instant := ltOfOrd

instance : LE Instant := leOfOrd

theorem lt_iff {a b : Instant} :
    a < b ↔ a.seconds < b.seconds ∨ a.seconds = b.seconds ∧ a.nanos < b.nanos := by
  change compareLex (compareOn seconds) (compareOn nanos) a b = .lt ↔ _
  simp [compareLex, compareOn, Ordering.then_eq_lt, Int.compare_eq_lt, Nat.compare_eq_lt]

theorem le_iff {a b : Instant} : a ≤ b ↔ ¬ b < a :=
  Ordering.isLE_iff_ne_gt.trans (not_congr Std.OrientedCmp.gt_iff_lt)

/-! ## Calendar fields -/

/-- The date of an instant. -/
def date (t : Instant) : Date := Date.ofDay (t.seconds / 86400)

/-- Seconds since midnight. -/
def secondOfDay (t : Instant) : Nat := (t.seconds % 86400).toNat

/-- The hour of the day. -/
def hour (t : Instant) : Nat := t.secondOfDay / 3600

/-- The minute of the hour. -/
def minute (t : Instant) : Nat := t.secondOfDay / 60 % 60

/-- The second of the minute, below 60 also in a leap second. -/
def second (t : Instant) : Nat := t.secondOfDay % 60

/-- The instant of a date and a time of day, if the calendar reaches it. -/
def ofCivil? (date : Date) (hour minute second nanos : Nat) : Option Instant :=
  ofParts? (date.toDay * 86400 + (hour * 3600 + minute * 60 + second : Nat)) nanos

/-! ## Moving -/

/-- The instant `count` seconds later, or earlier if `count` is negative.  A
leap second is left forwards from second 59, and backwards from the second
after it. -/
def addSeconds? (t : Instant) (count : Int) : Option Instant :=
  if t.nanos < 1000000000 || count == 0 then ofParts? (t.seconds + count) t.nanos
  else if count < 0 then ofParts? (t.seconds + 1 + count) (t.nanos - 1000000000)
  else ofParts? (t.seconds + count) (t.nanos - 1000000000)

end Instant

end Shardwise
