import Shardwise.Level
import Shardwise.Proofs.Calendar
import Shardwise.Proofs.Text.Padded

/-!
# Periods

Two instants lie in the same period of a level when the level has the same start
for both.  The key of a shard writes the calendar fields of its period instead;
`Level.suffix?_eq_iff` says that the two ways agree, so that shards are kept for
periods and for nothing else.

* `Level.start_eq_ok` says that every dated level has a start at every instant,
  and where it is.
* `Level.samePeriod_iff` reduces a period to the date and hour that it begins
  with, and so does `Level.suffix?_eq_iff` for what keys write.
* `Level.SamePeriod.coarser` nests the periods of the levels.
-/

namespace Shardwise

open Calendar Text

namespace Instant

theorem hour_lt (t : Instant) : t.hour < 24 := by
  unfold hour secondOfDay
  omega

/-- The day and the hour of an instant have begun. -/
theorem day_hour_le (t : Instant) :
    t.date.toDay * 86400 + (t.hour * 3600 : Nat) ≤ t.seconds := by
  unfold date hour secondOfDay
  rw [Date.toDay_ofDay]
  omega

end Instant

namespace Level

/-- Both instants lie in the same period of a level; the total has one period
only. -/
def SamePeriod (level : Level) (t u : Instant) : Prop := level.start t = level.start u

/-! ## Where periods begin -/

/-- The date and the hour that a period begins with are not after the instant. -/
theorem opening?_eq_some {level : Level} {t : Instant} {date : Date} {hours : Nat}
    (h : level.opening? t = some (date, hours)) :
    date.Exists ∧ hours < 24 ∧ date.year = t.date.year ∧
      date.toDay * 86400 + (hours * 3600 : Nat) ≤ t.seconds := by
  have hexists : t.date.Exists := Date.exists_ofDay _
  have hle := t.day_hour_le
  have hhour := t.hour_lt
  have hfirst : ∀ leap, 1 ≤ monthLength leap 1 := by decide
  have hmidnight : ∀ day : Int, day ≤ t.date.toDay →
      day * 86400 + (0 * 3600 : Nat) ≤ t.seconds := by
    intro day hday
    omega
  have hyear : (⟨t.date.year, 1, 1⟩ : Date).toDay ≤ t.date.toDay := by
    rw [Date.toDay_eq, Date.toDay_eq]
    simp only [Date.dayOfYear, monthStart]
    omega
  have hmonth : (⟨t.date.year, t.date.month, 1⟩ : Date).toDay ≤ t.date.toDay := by
    rw [Date.toDay_eq, Date.toDay_eq]
    simp only [Date.dayOfYear]
    omega
  cases level with
  | total => cases h
  | year =>
    cases h
    exact ⟨⟨Nat.le_refl 1, Nat.le_add_left 1 11, Nat.le_refl 1, hfirst _⟩, by decide, rfl,
      hmidnight _ hyear⟩
  | month =>
    cases h
    obtain ⟨hone, htwelve, hday, hlength⟩ := hexists
    exact ⟨⟨hone, htwelve, Nat.le_refl 1, Nat.le_trans hday hlength⟩, by decide, rfl,
      hmidnight _ hmonth⟩
  | day =>
    cases h
    exact ⟨hexists, by decide, rfl, hmidnight _ (Int.le_refl _)⟩
  | hour =>
    cases h
    exact ⟨hexists, hhour, rfl, hle⟩

theorem opening?_isSome {level : Level} (h : level ≠ .total) (t : Instant) :
    ∃ date hours, level.opening? t = some (date, hours) := by
  cases level with
  | total => exact absurd rfl h
  | year => exact ⟨_, _, rfl⟩
  | month => exact ⟨_, _, rfl⟩
  | day => exact ⟨_, _, rfl⟩
  | hour => exact ⟨_, _, rfl⟩

/-- The years of instants are those from -262143. -/
theorem le_year (t : Instant) : -262143 ≤ t.date.year := by
  have hearliest : yearStart (-262143) * 86400 = earliestSecond := by decide
  have hbelow := t.isInstant.1
  have hlt := lt_yearStart_yearOf (t.seconds / 86400)
  show -262143 ≤ yearOf (t.seconds / 86400)
  by_cases hearlier : yearOf (t.seconds / 86400) + 1 ≤ -262143
  · have hmono := yearStart_mono hearlier
    omega
  · omega

/-- The start of a period is an instant. -/
theorem ofCivil?_opening {level : Level} {t : Instant} {date : Date} {hours : Nat}
    (h : level.opening? t = some (date, hours)) :
    ∃ begun, Instant.ofCivil? date hours 0 0 0 = some begun ∧
      begun.seconds = date.toDay * 86400 + (hours * 3600 : Nat) ∧ begun.nanos = 0 := by
  obtain ⟨-, -, hyear, hle⟩ := opening?_eq_some h
  have hearliest : yearStart (-262143) * 86400 = earliestSecond := by decide
  have hlatest : t.seconds ≤ latestSecond := t.isInstant.2.1
  have hmono := yearStart_mono (hyear ▸ le_year t)
  have hday := date.toDay_eq
  have hbelow : earliestSecond ≤ date.toDay * 86400 + (hours * 3600 : Nat) := by omega
  have hinstant : IsInstant (date.toDay * 86400 + (hours * 3600 : Nat)) 0 :=
    ⟨hbelow, Int.le_trans hle hlatest, .inl (Nat.zero_lt_succ _)⟩
  refine ⟨⟨_, 0, hinstant⟩, ?_, rfl, rfl⟩
  simp only [Instant.ofCivil?, Instant.ofParts?, Nat.zero_mul, Nat.add_zero]
  exact dif_pos hinstant

/-- Every dated level has a start at every instant, and not after it. -/
theorem start_eq_ok {level : Level} (h : level ≠ .total) (t : Instant) :
    ∃ begun, level.start t = .ok begun ∧ begun.seconds ≤ t.seconds := by
  obtain ⟨date, hours, hopening⟩ := opening?_isSome h t
  obtain ⟨begun, hcivil, hseconds, -⟩ := ofCivil?_opening hopening
  refine ⟨begun, ?_, hseconds ▸ (opening?_eq_some hopening).2.2.2⟩
  simp only [start, hopening, hcivil]

/-! ## Periods as fields -/

/-- A period is known by the date and the hour that it begins with. -/
theorem samePeriod_iff {level : Level} {t u : Instant} :
    level.SamePeriod t u ↔ level.opening? t = level.opening? u := by
  unfold SamePeriod
  by_cases htotal : level = .total
  · subst htotal
    exact ⟨fun _ => rfl, fun _ => rfl⟩
  · obtain ⟨date, hours, ht⟩ := opening?_isSome htotal t
    obtain ⟨other, more, hu⟩ := opening?_isSome htotal u
    obtain ⟨begun, hbegun, hseconds, -⟩ := ofCivil?_opening ht
    obtain ⟨later, hlater, hothers, -⟩ := ofCivil?_opening hu
    obtain ⟨hexists, hhours, -⟩ := opening?_eq_some ht
    obtain ⟨hexists', hmore, -⟩ := opening?_eq_some hu
    rw [ht, hu]
    constructor
    · intro hsame
      simp only [start, ht, hu, hbegun, hlater, Except.ok.injEq] at hsame
      rw [hsame, hothers] at hseconds
      have hday : other.toDay = date.toDay := by omega
      have hhour : more = hours := by omega
      rw [Date.toDay_inj hexists' hexists hday, hhour]
    · intro hsame
      cases hsame
      simp only [start, ht, hu, hbegun]

/-- Instants in one period are in one period of every coarser level. -/
theorem SamePeriod.coarser {level coarse : Level} {t u : Instant} (h : level.SamePeriod t u)
    (hdepth : coarse.depth ≤ level.depth) : coarse.SamePeriod t u := by
  rw [samePeriod_iff] at h ⊢
  cases coarse <;> cases level <;> simp_all [opening?, depth]

/-! ## Periods in keys -/

/-- Texts with ends of one length agree in front and at the end. -/
theorem append_inj_of_length {a b c d : String} (h : a ++ b = c ++ d)
    (hlength : b.toList.length = d.toList.length) : a = c ∧ b = d := by
  have hlist := congrArg String.toList h
  simp only [String.toList_append] at hlist
  obtain ⟨hfront, hback⟩ := List.append_inj' hlist hlength
  exact ⟨String.toList_injective hfront, String.toList_injective hback⟩

/-- Two digits at the end can be read back. -/
theorem paddedNat_two_inj {a b : String} {m n : Nat} (hm : m < 100) (hn : n < 100)
    (h : a ++ paddedNat 2 m = b ++ paddedNat 2 n) : a = b ∧ m = n := by
  obtain ⟨hfront, hback⟩ := append_inj_of_length h
    (by rw [length_paddedNat_two hm, length_paddedNat_two hn])
  exact ⟨hfront, paddedNat_inj hback⟩

theorem month_of_text {t u : Instant}
    (h : padded 4 t.date.year ++ paddedNat 2 t.date.month =
      padded 4 u.date.year ++ paddedNat 2 u.date.month) :
    t.date.year = u.date.year ∧ t.date.month = u.date.month := by
  have ht : t.date.month ≤ 12 := Date.month_le _
  have hu : u.date.month ≤ 12 := Date.month_le _
  obtain ⟨hyear, hmonth⟩ := paddedNat_two_inj (by omega) (by omega) h
  exact ⟨padded_inj hyear, hmonth⟩

theorem date_of_text {t u : Instant}
    (h : padded 4 t.date.year ++ paddedNat 2 t.date.month ++ paddedNat 2 t.date.day =
      padded 4 u.date.year ++ paddedNat 2 u.date.month ++ paddedNat 2 u.date.day) :
    t.date = u.date := by
  have ht : t.date.day ≤ 31 := Date.day_le _
  have hu : u.date.day ≤ 31 := Date.day_le _
  obtain ⟨hfront, hday⟩ := paddedNat_two_inj (by omega) (by omega) h
  obtain ⟨hyear, hmonth⟩ := month_of_text hfront
  rcases hdate : t.date with ⟨year, month, day⟩
  rcases hother : u.date with ⟨year', month', day'⟩
  simp only [hdate, hother] at hyear hmonth hday
  rw [hyear, hmonth, hday]

/-- Keys write the same of two instants exactly if these are in the same
period. -/
theorem suffix?_eq_iff {level : Level} {t u : Instant} :
    level.suffix? t = level.suffix? u ↔ level.SamePeriod t u := by
  rw [samePeriod_iff]
  cases level with
  | total => exact ⟨fun _ => rfl, fun _ => rfl⟩
  | year =>
    simp only [suffix?, opening?, Option.some.injEq, Prod.mk.injEq, Date.mk.injEq, and_true]
    exact ⟨padded_inj, congrArg (padded 4)⟩
  | month =>
    simp only [suffix?, opening?, Option.some.injEq, Prod.mk.injEq, Date.mk.injEq, and_true]
    constructor
    · exact month_of_text
    · rintro ⟨hyear, hmonth⟩
      rw [hyear, hmonth]
  | day =>
    simp only [suffix?, opening?, Option.some.injEq, Prod.mk.injEq, and_true]
    constructor
    · exact date_of_text
    · intro hdate
      rw [hdate]
  | hour =>
    simp only [suffix?, opening?, Option.some.injEq, Prod.mk.injEq]
    constructor
    · intro htext
      have ht := t.hour_lt
      have hu := u.hour_lt
      obtain ⟨hfront, hhour⟩ := paddedNat_two_inj (by omega) (by omega) htext
      exact ⟨date_of_text hfront, hhour⟩
    · rintro ⟨hdate, hhour⟩
      rw [hdate, hhour]

theorem suffix?_eq_none {level : Level} {t : Instant} :
    level.suffix? t = none ↔ level = .total := by
  cases level <;> simp [suffix?]

end Level

end Shardwise
