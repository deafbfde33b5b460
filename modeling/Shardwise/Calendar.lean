/-!
# The proleptic Gregorian calendar

Days are counted from 1970-01-01, and years are numbered through a year 0.
`yearStart` is the day count of the first of January, `yearOf` finds the year
that a day lies in, and the months of a year are placed by `monthStart`, the
number of days of the year before the month.  `Date.ofDay` and `Date.day?`
convert between day counts and dates.
-/

namespace Shardwise.Calendar

/-! ## Years -/

/-- A year is a leap year when 4 divides it, except the hundreds that 400 does
not divide. -/
abbrev IsLeap (year : Int) : Prop :=
  year % 4 = 0 ∧ (year % 100 ≠ 0 ∨ year % 400 = 0)

/-- The day count of the first of January of `year`. -/
def yearStart (year : Int) : Int :=
  let past := year - 1
  365 * past + past / 4 - past / 100 + past / 400 - 719162

/-- The year that `day` lies in.  Four hundred years have 146097 days, and the
guess at that rate is at most one year off. -/
def yearOf (day : Int) : Int :=
  let guess := 400 * (day + 719162) / 146097 + 1
  if yearStart (guess + 1) ≤ day then guess + 1
  else if day < yearStart guess then guess - 1
  else guess

/-! ## Months -/

/-- The number of days of a year before `month`, counted from 1; month 13 gives
the length of the year. -/
def monthStart (leap : Bool) : Nat → Nat
  | 0 | 1 => 0
  | 2 => 31
  | 3 => if leap then 60 else 59
  | 4 => if leap then 91 else 90
  | 5 => if leap then 121 else 120
  | 6 => if leap then 152 else 151
  | 7 => if leap then 182 else 181
  | 8 => if leap then 213 else 212
  | 9 => if leap then 244 else 243
  | 10 => if leap then 274 else 273
  | 11 => if leap then 305 else 304
  | 12 => if leap then 335 else 334
  | _ => if leap then 366 else 365

/-- The number of days of `month`. -/
def monthLength (leap : Bool) (month : Nat) : Nat :=
  monthStart leap (month + 1) - monthStart leap month

/-- The month that the day `dayOfYear`, counted from 0, lies in: the last one
that has begun. -/
def monthOf (leap : Bool) (dayOfYear : Nat) : Nat :=
  ((List.range 12).filter fun past => monthStart leap (past + 1) ≤ dayOfYear).length

/-! ## Dates -/

/-- A calendar date; months and days count from 1. -/
structure Date where
  year : Int
  month : Nat
  day : Nat
deriving DecidableEq, Repr

namespace Date

/-- The date of a day count. -/
def ofDay (day : Int) : Date :=
  let year := yearOf day
  let leap := decide (IsLeap year)
  let dayOfYear := (day - yearStart year).toNat
  let month := monthOf leap dayOfYear
  ⟨year, month, dayOfYear - monthStart leap month + 1⟩

/-- The date exists: its month is one of the twelve and has its day. -/
def Exists (date : Date) : Prop :=
  1 ≤ date.month ∧ date.month ≤ 12 ∧ 1 ≤ date.day ∧
    date.day ≤ monthLength (decide (IsLeap date.year)) date.month

instance (date : Date) : Decidable date.Exists :=
  inferInstanceAs (Decidable (_ ∧ _))

/-- The day count of a date. -/
def toDay (date : Date) : Int :=
  yearStart date.year + monthStart (decide (IsLeap date.year)) date.month + (date.day - 1 : Nat)

end Date

end Shardwise.Calendar
