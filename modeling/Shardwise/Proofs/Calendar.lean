import Shardwise.Calendar

/-!
# Day counts and dates

`yearOf` guesses a year and corrects the guess; `yearStart_yearOf_le` and
`lt_yearStart_yearOf` say that the day lies in the year that it finds, and
`yearOf_eq` that there is no other.  Months are a table, and what is to be known
of it is tried for all days of a year.  `Date.ofDay_toDay` says that a date that
exists is found again from its day count, `Date.exists_ofDay` that every day has a
date that exists, and `Date.toDay_lt_iff` that dates are in the order of their days.
-/

namespace Shardwise.Calendar

/-! ## Years -/

theorem yearStart_eq (year : Int) :
    yearStart year =
      365 * (year - 1) + (year - 1) / 4 - (year - 1) / 100 + (year - 1) / 400 - 719162 :=
  rfl

theorem yearStart_succ (year : Int) :
    yearStart (year + 1) = yearStart year + if IsLeap year then 366 else 365 := by
  rw [yearStart_eq, yearStart_eq]
  split <;> rename_i h <;> unfold IsLeap at h <;> omega

theorem yearStart_mono {year later : Int} (h : year ≤ later) :
    yearStart year ≤ yearStart later := by
  rw [yearStart_eq, yearStart_eq]
  omega

/-- The guess is never too late, and at most one year early. -/
theorem guess_bounds (day : Int) :
    yearStart (400 * (day + 719162) / 146097 + 1) ≤ day ∧
      day < yearStart (400 * (day + 719162) / 146097 + 1 + 1 + 1) := by
  rw [yearStart_eq, yearStart_eq]
  omega

theorem yearStart_yearOf_le (day : Int) : yearStart (yearOf day) ≤ day := by
  have hguess := (guess_bounds day).1
  unfold yearOf
  dsimp only
  split
  · assumption
  · rw [if_neg (by omega)]
    exact hguess

theorem lt_yearStart_yearOf (day : Int) : day < yearStart (yearOf day + 1) := by
  obtain ⟨hguess, hlater⟩ := guess_bounds day
  unfold yearOf
  dsimp only
  split
  · exact hlater
  · rw [if_neg (by omega)]
    omega

/-- A day lies in one year only. -/
theorem yearOf_eq {day year : Int} (hbegun : yearStart year ≤ day)
    (hended : day < yearStart (year + 1)) : yearOf day = year := by
  have hle := yearStart_yearOf_le day
  have hlt := lt_yearStart_yearOf day
  by_cases hearlier : yearOf day + 1 ≤ year
  · have hmono := yearStart_mono hearlier
    omega
  · by_cases hlater : year + 1 ≤ yearOf day
    · have hmono := yearStart_mono hlater
      omega
    · omega

/-! ## Months -/

/-- The number of days of a year. -/
def yearLength (leap : Bool) : Nat := if leap then 366 else 365

theorem yearStart_succ_eq (year : Int) :
    yearStart (year + 1) = yearStart year + yearLength (decide (IsLeap year)) := by
  rw [yearStart_succ, yearLength]
  by_cases h : IsLeap year
  · rw [if_pos h, if_pos (decide_eq_true h)]
    rfl
  · rw [if_neg h, decide_eq_false h, if_neg Bool.false_ne_true]
    rfl

/-- Every day of a year is in one of its twelve months. -/
theorem monthOf_spec : ∀ leap, ∀ dayOfYear < yearLength leap,
    1 ≤ monthOf leap dayOfYear ∧ monthOf leap dayOfYear ≤ 12 ∧
      monthStart leap (monthOf leap dayOfYear) ≤ dayOfYear ∧
      dayOfYear < monthStart leap (monthOf leap dayOfYear) +
        monthLength leap (monthOf leap dayOfYear) := by
  decide +kernel

/-- The days of a month are in this month, and in the year. -/
theorem monthOf_eq : ∀ leap, ∀ month < 13, 1 ≤ month → ∀ past < monthLength leap month,
    monthOf leap (monthStart leap month + past) = month ∧
      monthStart leap month + past < yearLength leap := by
  decide +kernel

theorem monthStart_mono : ∀ leap, ∀ month < 14, ∀ earlier ≤ month,
    monthStart leap earlier ≤ monthStart leap month := by
  decide

theorem monthLength_le : ∀ leap, ∀ month < 13, monthLength leap month ≤ 31 := by decide

/-! ## Dates -/

namespace Date

/-- The days of a year before a date. -/
def dayOfYear (date : Date) : Nat :=
  monthStart (decide (IsLeap date.year)) date.month + (date.day - 1)

theorem toDay_eq (date : Date) : date.toDay = yearStart date.year + date.dayOfYear := by
  simp only [toDay, dayOfYear, Int.natCast_add]
  omega

theorem Exists.monthOf_dayOfYear {date : Date} (h : date.Exists) :
    monthOf (decide (IsLeap date.year)) date.dayOfYear = date.month ∧
      date.dayOfYear < yearLength (decide (IsLeap date.year)) := by
  obtain ⟨hmonth, hlast, hday, hlength⟩ := h
  exact monthOf_eq _ date.month (by omega) hmonth (date.day - 1) (by omega)

/-- A date that exists is that of its day. -/
theorem ofDay_toDay {date : Date} (h : date.Exists) : ofDay date.toDay = date := by
  obtain ⟨hmonth, hlt⟩ := h.monthOf_dayOfYear
  obtain ⟨-, -, hday, -⟩ := h
  have hnext := yearStart_succ_eq date.year
  have hyear : yearOf date.toDay = date.year := by
    apply yearOf_eq <;> rw [toDay_eq] <;> omega
  have hpast : (date.toDay - yearStart date.year).toNat = date.dayOfYear := by
    rw [toDay_eq]
    omega
  unfold ofDay
  dsimp only
  rw [hyear, hpast, hmonth]
  have hback : date.dayOfYear - monthStart (decide (IsLeap date.year)) date.month + 1 =
      date.day := by
    unfold dayOfYear
    omega
  rw [hback]

/-- Different dates that exist have different days. -/
theorem toDay_inj {date other : Date} (h : date.Exists) (hother : other.Exists)
    (heq : date.toDay = other.toDay) : date = other := by
  rw [← ofDay_toDay h, heq, ofDay_toDay hother]

/-- The days of the year before a day. -/
theorem dayOfYear_lt (day : Int) :
    (day - yearStart (yearOf day)).toNat < yearLength (decide (IsLeap (yearOf day))) := by
  have hle := yearStart_yearOf_le day
  have hlt := lt_yearStart_yearOf day
  rw [yearStart_succ_eq] at hlt
  omega

/-- Every day has a date that exists. -/
theorem exists_ofDay (day : Int) : (ofDay day).Exists := by
  obtain ⟨hmonth, hlast, hbegun, hended⟩ := monthOf_spec _ _ (dayOfYear_lt day)
  refine ⟨hmonth, hlast, Nat.le_add_left 1 _, ?_⟩
  unfold ofDay
  dsimp only
  omega

theorem month_le (day : Int) : (ofDay day).month ≤ 12 := (exists_ofDay day).2.1

theorem day_le (day : Int) : (ofDay day).day ≤ 31 := by
  obtain ⟨-, hlast, -, hlength⟩ := exists_ofDay day
  exact Nat.le_trans hlength (monthLength_le _ _ (by omega))

/-- The date of a day leads back to the day. -/
theorem toDay_ofDay (day : Int) : (ofDay day).toDay = day := by
  obtain ⟨-, -, hbegun, -⟩ := monthOf_spec _ _ (dayOfYear_lt day)
  have hle := yearStart_yearOf_le day
  rw [toDay_eq]
  unfold ofDay dayOfYear
  dsimp only
  omega

/-! ## The order of dates -/

/-- A date comes before another: the years decide, then the months, then the days. -/
def Before (date other : Date) : Prop :=
  date.year < other.year ∨ date.year = other.year ∧
    (date.month < other.month ∨ date.month = other.month ∧ date.day < other.day)

theorem Before.toDay_lt {date other : Date} (h : date.Before other) (hdate : date.Exists)
    (hother : other.Exists) : date.toDay < other.toDay := by
  have hended := hdate.monthOf_dayOfYear.2
  have hnext := yearStart_succ_eq date.year
  obtain ⟨-, -, hone, hlength⟩ := hdate
  rw [toDay_eq, toDay_eq]
  rcases h with hyear | ⟨hyear, hmonth | ⟨hmonth, hday⟩⟩
  · have hmono : yearStart (date.year + 1) ≤ yearStart other.year := yearStart_mono hyear
    omega
  · have hlast := hother.2.1
    have hmono := monthStart_mono (decide (IsLeap other.year)) other.month (by omega)
      (date.month + 1) hmonth
    simp only [monthLength, dayOfYear, hyear] at hlength ⊢
    omega
  · simp only [dayOfYear, hyear, hmonth]
    omega

/-- Dates that exist are in the order of their days. -/
theorem toDay_lt_iff {date other : Date} (hdate : date.Exists) (hother : other.Exists) :
    date.toDay < other.toDay ↔ date.Before other := by
  constructor
  · intro hlt
    have hback : ¬ other.Before date := fun hback => by
      have hgt := hback.toDay_lt hother hdate
      omega
    -- if neither date is before the other, they are the same
    by_cases hfront : date.Before other
    · exact hfront
    · have hsame : date = other := by
        rcases date with ⟨year, month, day⟩
        rcases other with ⟨year', month', day'⟩
        simp only [Before] at hfront hback
        simp only [mk.injEq]
        omega
      rw [hsame] at hlt
      exact absurd hlt (Int.lt_irrefl _)
  · intro hbefore
    exact hbefore.toDay_lt hdate hother

end Date

end Shardwise.Calendar
