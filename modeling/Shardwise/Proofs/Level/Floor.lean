import Shardwise.Proofs.Level

/-!
# Periods as a floor

A dated level cuts time into periods, and `Level.start` takes an instant to the one at which
its period begins.  `start` goes to the calendar and back: it reads date and hour of the
instant, sets the fields below the level to their first values, and counts the seconds of
what it gets.  This module says what that amounts to on the line of time.

* `Level.start_instant` says where the start of a period lies, and `Level.SamePeriod.start`
  that it belongs to the period that it begins.
* `Level.opening?_mono` carries the order of instants through the calendar.
* `Level.start_floor` is the result: the start is a floor, and the floors of coarser levels
  nest around it.

Leap seconds have no seconds of their own to count, so an instant and its start are compared
by their seconds first, and the start has no nanoseconds.
-/

namespace Shardwise

open Calendar

namespace Level

variable {level : Level} {t u begun later : Instant} {date other : Date} {hours more : Nat}

/-! ## The start of a period -/

/-- A period begins at the first second of its date and hour. -/
theorem start_instant (h : level.start t = .ok begun) :
    ∃ date hours, level.opening? t = some (date, hours) ∧
      begun.seconds = date.toDay * 86400 + (hours * 3600 : Nat) ∧ begun.nanos = 0 := by
  cases hopening : level.opening? t with
  | none => simp [start, hopening] at h
  | some opening =>
    obtain ⟨date, hours⟩ := opening
    obtain ⟨first, hfirst, hseconds, hnanos⟩ := ofCivil?_opening hopening
    have hbegun : first = begun := by simpa [start, hopening, hfirst] using h
    rw [← hbegun]
    exact ⟨date, hours, rfl, hseconds, hnanos⟩

/-- A period has begun at its instants. -/
theorem start_le (h : level.start t = .ok begun) : begun ≤ t := by
  obtain ⟨date, hours, hopening, hseconds, hnanos⟩ := start_instant h
  have hle := (opening?_eq_some hopening).2.2.2
  rw [Instant.le_iff, Instant.lt_iff]
  omega

/-- The calendar reads off the start of a period what the period begins with. -/
theorem date_hour_of_seconds (hexists : date.Exists) (hhours : hours < 24)
    (h : begun.seconds = date.toDay * 86400 + (hours * 3600 : Nat)) :
    begun.date = date ∧ begun.hour = hours := by
  have hday : begun.seconds / 86400 = date.toDay := by omega
  have hsecond : begun.secondOfDay = hours * 3600 := by
    unfold Instant.secondOfDay
    omega
  constructor
  · rw [Instant.date, hday, Date.ofDay_toDay hexists]
  · rw [Instant.hour, hsecond]
    omega

/-- A period begins with an instant of its own. -/
theorem SamePeriod.start (h : level.start t = .ok begun) : level.SamePeriod t begun := by
  obtain ⟨date, hours, hopening, hseconds, -⟩ := start_instant h
  obtain ⟨hexists, hhours, -⟩ := opening?_eq_some hopening
  obtain ⟨hdate, hhour⟩ := date_hour_of_seconds hexists hhours hseconds
  rw [samePeriod_iff, hopening]
  cases level with
  | total => simp [opening?] at hopening
  | year | month | day | hour =>
    simp only [opening?, Option.some.injEq, Prod.mk.injEq] at hopening
    obtain ⟨rfl, rfl⟩ := hopening
    simp [opening?, hdate, hhour]

/-! ## Order -/

/-- Of two instants the dates are in order. -/
theorem not_date_before (h : t.seconds ≤ u.seconds) : ¬ u.date.Before t.date := by
  show ¬ (Date.ofDay (u.seconds / 86400)).Before (Date.ofDay (t.seconds / 86400))
  rw [← Date.toDay_lt_iff (Date.exists_ofDay _) (Date.exists_ofDay _), Date.toDay_ofDay,
    Date.toDay_ofDay]
  omega

/-- The period of the later of two instants does not begin first. -/
theorem opening?_mono (h : t.seconds ≤ u.seconds) (ht : level.opening? t = some (date, hours))
    (hu : level.opening? u = some (other, more)) :
    date.toDay * 86400 + (hours * 3600 : Nat) ≤ other.toDay * 86400 + (more * 3600 : Nat) := by
  have horder := not_date_before h
  have hexists := (opening?_eq_some ht).1
  have hexists' := (opening?_eq_some hu).1
  -- above the hour the fields that are kept decide about the order of the dates
  have hdates : hours = 0 → more = 0 → ¬ other.Before date →
      date.toDay * 86400 + (hours * 3600 : Nat) ≤ other.toDay * 86400 + (more * 3600 : Nat) := by
    intro hmidnight hmidnight' hbefore
    rw [← Date.toDay_lt_iff hexists' hexists] at hbefore
    omega
  cases level with
  | total => simp [opening?] at ht
  | year | month =>
    simp only [opening?, Option.some.injEq, Prod.mk.injEq] at ht hu
    obtain ⟨rfl, rfl⟩ := ht
    obtain ⟨rfl, rfl⟩ := hu
    refine hdates rfl rfl ?_
    simp only [Date.Before] at horder ⊢
    omega
  | day =>
    simp only [opening?, Option.some.injEq, Prod.mk.injEq] at ht hu
    obtain ⟨rfl, rfl⟩ := ht
    obtain ⟨rfl, rfl⟩ := hu
    exact hdates rfl rfl horder
  | hour =>
    simp only [opening?, Option.some.injEq, Prod.mk.injEq] at ht hu
    obtain ⟨rfl, rfl⟩ := ht
    obtain ⟨rfl, rfl⟩ := hu
    simp only [Instant.date, Date.toDay_ofDay, Instant.hour, Instant.secondOfDay]
    omega

theorem start_mono (hle : t ≤ u) (ht : level.start t = .ok begun)
    (hu : level.start u = .ok later) : begun ≤ later := by
  obtain ⟨date, hours, hopening, hseconds, hnanos⟩ := start_instant ht
  obtain ⟨other, more, hopening', hseconds', hnanos'⟩ := start_instant hu
  rw [Instant.le_iff, Instant.lt_iff] at hle ⊢
  have hmono := opening?_mono (by omega) hopening hopening'
  omega

/-! ## The floor -/

/-- The starts of the periods of a dated level are a floor.  Every instant has one, it is not
after the instant, and it is its own start; later instants do not have earlier ones.  The
periods of a coarser level are made of whole periods: the coarser start of an instant comes
no later, and it is that of the finer start too. -/
theorem start_floor (hdated : level ≠ .total) :
    (∀ t, ∃ begun, level.start t = .ok begun ∧ begun ≤ t ∧ level.start begun = .ok begun ∧
      ∀ coarse : Level, coarse ≠ .total → coarse.depth < level.depth →
        ∃ earlier, coarse.start t = .ok earlier ∧ earlier ≤ begun ∧
          coarse.start begun = .ok earlier) ∧
    ∀ t u begun later, t ≤ u → level.start t = .ok begun → level.start u = .ok later →
      begun ≤ later := by
  constructor
  · intro t
    obtain ⟨begun, hbegun, -⟩ := start_eq_ok hdated t
    have hsame : level.SamePeriod t begun := SamePeriod.start hbegun
    refine ⟨begun, hbegun, start_le hbegun, hsame.symm.trans hbegun, ?_⟩
    intro coarse hcoarse hdepth
    obtain ⟨earlier, hearlier, -⟩ := start_eq_ok hcoarse t
    have hnested : coarse.start begun = .ok earlier :=
      (hsame.coarser (Nat.le_of_lt hdepth)).symm.trans hearlier
    exact ⟨earlier, hearlier, start_le hnested, hnested⟩
  · intro t u begun later
    exact start_mono

/-- The leap second at the end of 2016. -/
def leapSecond : Instant := ⟨1483228799, 1500000000, by decide⟩

/-- The start of December 2016. -/
def december : Instant := ⟨1480550400, 0, by decide⟩

/-- The start of 2017. -/
def newYear : Instant := ⟨1483228800, 0, by decide⟩

/-- The leap second still belongs to December, and the second after it to January. -/
theorem start_floor_leapSecond :
    Level.month ≠ .total ∧ Level.year ≠ .total ∧ Level.year.depth < Level.month.depth ∧
      leapSecond ≤ newYear ∧ Level.month.start leapSecond = .ok december ∧
      Level.month.start newYear = .ok newYear ∧ december ≤ leapSecond ∧
      Level.month.start december = .ok december ∧ december ≤ newYear ∧
      ∃ earlier, Level.year.start leapSecond = .ok earlier ∧ earlier ≤ december ∧
        Level.year.start december = .ok earlier := by
  have hmonth : Level.month ≠ .total := by decide
  have hyear : Level.year ≠ .total := by decide
  have hdepth : Level.year.depth < Level.month.depth := by decide
  have hle : leapSecond ≤ newYear := by decide
  have hdecember : Level.month.start leapSecond = .ok december := rfl
  have hjanuary : Level.month.start newYear = .ok newYear := rfl
  obtain ⟨hfloor, hmono⟩ := start_floor hmonth
  obtain ⟨begun, hbegun, hbefore, hown, hnested⟩ := hfloor leapSecond
  have hsame : begun = december := by simpa [hdecember] using hbegun.symm
  rw [hsame] at hbefore hown hnested
  exact ⟨hmonth, hyear, hdepth, hle, hdecember, hjanuary, hbefore, hown,
    hmono _ _ _ _ hle hdecember hjanuary, hnested .year hyear hdepth⟩

end Level

end Shardwise
