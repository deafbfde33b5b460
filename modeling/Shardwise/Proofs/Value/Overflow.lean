import Shardwise.Proofs.Value.Floats

/-!
# Sums of floats that overflow

The sum of two floats is rounded to the nearest float.  It is infinite if it lies at least
halfway between the greatest float and 2^1024, and finite otherwise.

* `units` counts a float in the least positive one, and `overflow` is the limit.
* `round_eq` is the float that a number is rounded to, up to its mantissa.  The exponent
  grows by one if rounding carries into a bit more (`Carries`).
* `isFinite_round` and `isFinite_add` say when the outcome is finite, and
  `isFinite_float_add` says it of the sum that the program computes.
* `toFloat_small` and `floatOfInt64_small` bound words, so a word added to a float never
  overflows (`add_lt_overflow`).
-/

namespace Shardwise.Floats

open Float.Model Float.Model.UnpackedFloat

/-- What a form stands for, counted in the least positive float 2^-1074. -/
def units : UnpackedFloat → Int
  | .finite sign mantissa exponent _ => sign.apply (mantissa * 2 ^ (exponent + 1074).toNat : Nat)
  | _ => 0

/-- Half of the distance between the greatest floats, in these units. -/
@[irreducible]
def halfStep : Nat := 2 ^ 2044

/-- The middle between the greatest float and 2^1024, in these units. -/
def overflow : Nat := (2 ^ 54 - 1) * halfStep

-- the exponent is worked with under a name, so that the power is never written out
theorem halfStep_eq {top : Nat} (h : top = 2044) : halfStep = 2 ^ top := by
  unfold halfStep
  exact congrArg (2 ^ ·) h.symm

theorem halfStep_pos : 0 < halfStep := by
  obtain ⟨top, htop⟩ : ∃ top, top = 2044 := ⟨_, rfl⟩
  rw [halfStep_eq htop]
  exact Nat.two_pow_pos _

/-! ## Mantissas -/

theorem roundBit_shiftRight (extended : ExtendedMantissa) (count : Nat) :
    (extended >>> (count + 1)).roundBit = (extended.mantissa / 2 ^ count % 2 != 0) := by
  show ((extended >>> count).mantissa % 2 != 0) = _
  rw [mantissa_shiftRight]

theorem roundedMantissa_bounds (extended : ExtendedMantissa) :
    extended.mantissa ≤ extended.roundedMantissa ∧
      extended.roundedMantissa ≤ extended.mantissa + 1 := by
  obtain ⟨mantissa, _ | _, _ | _⟩ := extended <;>
    simp only [ExtendedMantissa.roundedMantissa, ExtendedMantissa.accuracy,
      Accuracy.roundToNearestEven] <;> omega

/-- An odd mantissa is rounded up in the middle. -/
theorem roundedMantissa_odd {extended : ExtendedMantissa} (h : extended.mantissa % 2 = 1) :
    extended.roundedMantissa = extended.mantissa + 1 ↔ extended.roundBit = true := by
  obtain ⟨mantissa, _ | _, _ | _⟩ := extended <;>
    simp_all [ExtendedMantissa.roundedMantissa, ExtendedMantissa.accuracy,
      Accuracy.roundToNearestEven]

/-! ## The exponent after rounding -/

/-- The exponent that a number of 53 bits or fewer is written with. -/
def target (number : Nat) (start : Int) : Int := max (number.log2 + start - 52) (-1074)

theorem targetExponent_eq_target (number : Nat) (start : Int) :
    Format.binary64.targetExponent (totalExponent number start) = target number start := by
  rw [Format.targetExponent, totalExponent, mantissaBits_eq, target]
  show max _ (-1074) = max _ _
  push_cast
  congr 1
  omega

/-- A mantissa is shifted once more if it was rounded up to 2^53. -/
theorem shift_rounded {number : Nat} {start : Int} (hpos : 0 < number) (hhigh : number ≤ 2 ^ 53)
    (hleast : -1074 ≤ start) :
    shiftToTargetExponent .binary64 number start .exact =
      (⟨if number = 2 ^ 53 then 2 ^ 52 else number, false, false⟩,
        start + if number = 2 ^ 53 then 1 else 0) := by
  rw [shiftToTargetExponent, targetExponent_eq_target]
  rcases Nat.lt_or_eq_of_le hhigh with hlt | rfl
  · have hlog : number.log2 < 53 := (Nat.log2_lt hpos.ne').mpr hlt
    have hnone : (target number start - start).toNat = 0 := by
      rw [target]
      omega
    rw [shiftToExponent, hnone, if_neg hlt.ne, if_neg hlt.ne]
    rfl
  · have hlog : (2 ^ 53).log2 = 53 := Nat.log2_two_pow
    have hone : (target (2 ^ 53) start - start).toNat = 1 := by
      rw [target, hlog]
      omega
    rw [shiftToExponent, hone]
    rfl

theorem roundWithAccuracy_eq {number : Nat} {start exponent : Int} {extended : ExtendedMantissa}
    (sign : Sign) (h : shiftToTargetExponent .binary64 number start .exact = (extended, exponent))
    (hpos : 0 < extended.roundedMantissa) (hhigh : extended.roundedMantissa ≤ 2 ^ 53)
    (hleast : -1074 ≤ exponent) :
    ∃ mantissa positive, mantissa < 2 ^ 53 ∧
      (2 ^ 52 ≤ extended.roundedMantissa → 2 ^ 52 ≤ mantissa) ∧
      roundWithAccuracy .binary64 sign number start .exact = .finite sign mantissa
        (exponent + if extended.roundedMantissa = 2 ^ 53 then 1 else 0) positive := by
  have hne : (if extended.roundedMantissa = 2 ^ 53 then 2 ^ 52 else extended.roundedMantissa) ≠
      0 := by
    split <;> omega
  refine ⟨_, Nat.pos_of_ne_zero hne, by split <;> omega, by split <;> omega, ?_⟩
  rw [roundWithAccuracy, h]
  dsimp only
  simp only [shift_rounded hpos hhigh hleast]
  exact dif_neg hne

/-- Rounding carries into one bit more: 53 ones are followed by a one. -/
def Carries (number : Nat) (start : Int) : Prop :=
  start < target number start ∧
    number / 2 ^ ((target number start - start).toNat - 1) = 2 ^ 54 - 1

instance (number : Nat) (start : Int) : Decidable (Carries number start) :=
  inferInstanceAs (Decidable (_ ∧ _))

/-- The exponent that a number is rounded to, and how many bits it keeps. -/
theorem round_eq {number : Nat} {start : Int} (sign : Sign) (hpos : 0 < number)
    (hleast : -1074 ≤ start) :
    ∃ mantissa positive, mantissa < 2 ^ 53 ∧
      (target number start = -1074 ∨ 2 ^ 52 ≤ mantissa) ∧
      UnpackedFloat.round .binary64 sign number start = .finite sign mantissa
        (target number start + if Carries number start then 1 else 0) positive := by
  have htarget : target number start = max (number.log2 + start - 52) (-1074) := rfl
  rw [UnpackedFloat.round, targetExponent_eq_target, decreaseExponent]
  dsimp only
  rcases le_or_gt (target number start) start with hle | hlt
  · -- the number is widened, and nothing is lost
    have hkept : ¬ Carries number start := fun hcarries => absurd hcarries.1 (Int.not_lt.mpr hle)
    obtain ⟨count, hcount⟩ := Int.eq_ofNat_of_zero_le (Int.sub_nonneg_of_le hle)
    have hlog := log2_mul_two_pow hpos.ne' count
    have hwide : 0 < number * 2 ^ count := Nat.mul_pos hpos (Nat.two_pow_pos _)
    have hsame : target (number * 2 ^ count) (target number start) = target number start := by
      rw [target, hlog]
      omega
    have hhigh : number * 2 ^ count < 2 ^ 53 := (Nat.log2_lt hwide.ne').mp (by omega)
    have hshift : shiftToTargetExponent .binary64 (number * 2 ^ count) (target number start)
        .exact = (⟨number * 2 ^ count, false, false⟩, target number start) := by
      rw [shiftToTargetExponent, targetExponent_eq_target, hsame, shiftToExponent, Int.sub_self]
      simp [HShiftRight.hShiftRight, Nat.repeat, ExtendedMantissa.ofMantissaAndAccuracy]
    obtain ⟨mantissa, positive, hshort, hfull, hrounded⟩ :=
      roundWithAccuracy_eq sign hshift hwide hhigh.le (by omega)
    refine ⟨mantissa, positive, hshort, ?_, ?_⟩
    · refine or_iff_not_imp_left.mpr fun hnormal => hfull ?_
      exact (Nat.le_log2 hwide.ne').mp (by omega)
    rw [hcount, Int.toNat_natCast, Nat.shiftLeft_eq, if_neg hkept]
    have hexponent : start - (count : Int) = target number start := by omega
    rw [hexponent]
    have hexact : (ExtendedMantissa.mk (number * 2 ^ count) false false).roundedMantissa =
      number * 2 ^ count := rfl
    rwa [hexact, if_neg hhigh.ne] at hrounded
  · -- 53 bits stay, and the first of the others decides on the carry
    obtain ⟨count, hcount⟩ := Int.eq_ofNat_of_zero_le (Int.le_sub_one_of_lt (Int.sub_pos_of_lt hlt))
    have hlog : number.log2 = 53 + count := by omega
    have hnarrow : (start - target number start).toNat = 0 := by omega
    have hshifts : (target number start - start).toNat = count + 1 := by omega
    have hbits : 2 ^ 53 ≤ number / 2 ^ count ∧ number / 2 ^ count < 2 ^ 54 := by
      have hlow := Nat.log2_self_le hpos.ne'
      have hhigh : number < 2 ^ (number.log2 + 1) := Nat.lt_log2_self
      rw [hlog, Nat.pow_add] at hlow
      rw [hlog, Nat.add_right_comm, Nat.pow_add] at hhigh
      exact ⟨(Nat.le_div_iff_mul_le (Nat.two_pow_pos _)).mpr hlow,
        (Nat.div_lt_iff_lt_mul (Nat.two_pow_pos _)).mpr hhigh⟩
    have hshift : shiftToTargetExponent .binary64 number start .exact =
        (ExtendedMantissa.mk number false false >>> (count + 1), target number start) := by
      rw [shiftToTargetExponent, targetExponent_eq_target, shiftToExponent, hshifts]
      refine Prod.ext rfl ?_
      show start + (count + 1 : Nat) = _
      omega
    have hmantissa := mantissa_shiftRight ⟨number, false, false⟩ (count + 1)
    have hbit := roundBit_shiftRight ⟨number, false, false⟩ count
    generalize ExtendedMantissa.mk number false false >>> (count + 1) = extended at *
    have hhalf : extended.mantissa = number / 2 ^ count / 2 := by
      rw [hmantissa, Nat.div_div_eq_div_mul, Nat.pow_succ]
    have hbounds := roundedMantissa_bounds extended
    have hcarries : extended.roundedMantissa = 2 ^ 53 ↔ Carries number start := by
      have hodd := @roundedMantissa_odd extended
      rw [hbit, bne_iff_ne] at hodd
      rw [Carries, hshifts, Nat.add_sub_cancel, and_iff_right hlt]
      dsimp only at hodd
      omega
    obtain ⟨mantissa, positive, hshort, hfull, hrounded⟩ :=
      roundWithAccuracy_eq sign hshift (by omega) (by omega) (by omega)
    refine ⟨mantissa, positive, hshort, .inr (hfull (by omega)), ?_⟩
    rw [hnarrow, Nat.shiftLeft_zero, Int.natCast_zero, Int.sub_zero, hrounded]
    simp only [hcarries]

/-! ## Finite outcomes -/

theorem isFinite_unpack (bits : BitVec Format.binary64.numBits) :
    (UnpackedFloat.unpack .binary64 bits).isFinite = true ↔ unpackExponent bits ≠ -1#11 := by
  unfold UnpackedFloat.unpack
  dsimp only
  split
  · rename_i hones
    split <;> exact iff_of_false Bool.false_ne_true (not_not_intro hones)
  · rename_i hother
    split
    · split <;> exact iff_of_true rfl hother
    · exact iff_of_true rfl hother

/-- Packing overflows from exponent 972 on. -/
theorem isFinite_pack {sign : Sign} {mantissa : Nat} {exponent : Int} (positive : 0 < mantissa) :
    (Float.Model.pack (.finite sign mantissa exponent positive)).unpack.isFinite = true ↔
      exponent ≤ 971 := by
  show (UnpackedFloat.unpack .binary64 (UnpackedFloat.pack .binary64 _)).isFinite = true ↔ _
  rw [isFinite_unpack, UnpackedFloat.pack]
  dsimp only
  rw [exponentBias_eq, storedBits_eq]
  split
  · rename_i hlarge
    have hones : 2048 ≤ (exponent + 1023 + 52).toNat + 1 := hlarge
    rw [packedInfinity, unpackExponent_packComponents]
    simp only [ne_eq, not_true_eq_false, false_iff]
    omega
  · rename_i hsmall
    have hones : (exponent + 1023 + 52).toNat + 1 < 2048 := not_le.mp hsmall
    refine iff_of_true ?_ (by omega)
    split
    · rw [unpackExponent_packComponents, ne_eq, BitVec.toNat_eq, BitVec.toNat_ofNat]
      show ¬ _ % 2048 = 2047
      omega
    · rw [unpackExponent_packComponents]
      decide

theorem two_pow_le_overflow {n : Nat} (h : n ≤ 2097) : 2 ^ n ≤ overflow := by
  obtain ⟨top, htop⟩ : ∃ top, top = 2044 := ⟨_, rfl⟩
  rw [overflow, halfStep_eq htop]
  calc 2 ^ n ≤ 2 ^ (53 + top) := Nat.pow_le_pow_right (by decide) (by omega)
    _ = 2 ^ 53 * 2 ^ top := Nat.pow_add 2 53 top
    _ ≤ (2 ^ 54 - 1) * 2 ^ top := Nat.mul_le_mul_right _ (by decide)

theorem overflow_le_two_pow {n : Nat} (h : 2098 ≤ n) : overflow ≤ 2 ^ n := by
  obtain ⟨top, htop⟩ : ∃ top, top = 2044 := ⟨_, rfl⟩
  rw [overflow, halfStep_eq htop]
  calc (2 ^ 54 - 1) * 2 ^ top ≤ 2 ^ 54 * 2 ^ top := Nat.mul_le_mul_right _ (by decide)
    _ = 2 ^ (54 + top) := (Nat.pow_add 2 54 top).symm
    _ ≤ 2 ^ n := Nat.pow_le_pow_right (by decide) (by omega)

/-- At the greatest exponent a number overflows if rounding carries. -/
theorem carries_iff {number shift : Nat} (hbits : number.log2 + shift = 2097)
    (hmost : (shift : Int) - 1074 ≤ 971) :
    Carries number (shift - 1074) ↔ overflow ≤ number * 2 ^ shift := by
  obtain ⟨top, htop⟩ : ∃ top, top = 2044 := ⟨_, rfl⟩
  have hgreatest : target number (shift - 1074) = 971 := by
    rw [target]
    omega
  have hhigh : number < 2 ^ (number.log2 + 1) := Nat.lt_log2_self
  rw [overflow, halfStep_eq htop, Carries, hgreatest]
  rcases Nat.lt_or_ge top shift with hwide | hnarrow
  · have hlog : number.log2 = 52 := by omega
    have hshift : shift = 1 + top := by omega
    rw [hlog] at hhigh
    refine iff_of_false (fun hcarries => by omega) (not_le.mpr ?_)
    rw [hshift, Nat.pow_add, ← Nat.mul_assoc]
    exact Nat.mul_lt_mul_of_pos_right (by omega) (Nat.two_pow_pos _)
  · obtain ⟨count, rfl⟩ := Nat.exists_eq_add_of_le hnarrow
    have hlog : number.log2 + 1 = 54 + count := by omega
    have hcount : ((971 : Int) - (shift - 1074)).toNat - 1 = count := by omega
    rw [hlog, Nat.pow_add] at hhigh
    have hlt : number / 2 ^ count < 2 ^ 54 := (Nat.div_lt_iff_lt_mul (Nat.two_pow_pos _)).mpr hhigh
    rw [hcount, and_iff_right (by omega), Nat.pow_add, Nat.mul_comm (2 ^ shift), ← Nat.mul_assoc,
      Nat.mul_le_mul_right_iff (Nat.two_pow_pos _), ← Nat.le_div_iff_mul_le (Nat.two_pow_pos _)]
    omega

/-- A number overflows when it is rounded if it is large, whatever its bits are. -/
theorem isFinite_round {number : Nat} {start : Int} (sign : Sign) (hpos : 0 < number)
    (hleast : -1074 ≤ start) (hmost : start ≤ 971) :
    (Float.Model.pack (UnpackedFloat.round .binary64 sign number start)).unpack.isFinite = true ↔
      number * 2 ^ (start + 1074).toNat < overflow := by
  obtain ⟨mantissa, positive, -, -, hround⟩ := round_eq sign hpos hleast
  obtain ⟨shift, rfl⟩ : ∃ shift : Nat, start = shift - 1074 :=
    ⟨(start + 1074).toNat, by omega⟩
  have hshift : ((shift : Int) - 1074 + 1074).toNat = shift := by omega
  have htarget : target number (shift - 1074) =
    max ((number.log2 : Int) + (shift - 1074) - 52) (-1074) := rfl
  have hlow : 2 ^ (number.log2 + shift) ≤ number * 2 ^ shift := by
    rw [Nat.pow_add]
    exact Nat.mul_le_mul_right _ (Nat.log2_self_le hpos.ne')
  have hhigh : number * 2 ^ shift < 2 ^ (number.log2 + 1 + shift) := by
    rw [Nat.pow_add]
    exact Nat.mul_lt_mul_of_pos_right Nat.lt_log2_self (Nat.two_pow_pos _)
  rw [hround, isFinite_pack, hshift]
  rcases Nat.lt_trichotomy (number.log2 + shift) 2097 with hsmall | hmiddle | hlarge
  · refine iff_of_true ?_ (hhigh.trans_le (two_pow_le_overflow (by omega)))
    split <;> omega
  · rw [← not_le, ← carries_iff hmiddle hmost]
    split <;> rename_i hcarries
    · exact iff_of_false (by omega) (not_not_intro hcarries)
    · exact iff_of_true (by omega) hcarries
  · refine iff_of_false ?_ (not_lt.mpr ((overflow_le_two_pow (by omega)).trans hlow))
    split <;> omega

theorem isFinite_normalize {sum start : Int} (hleast : -1074 ≤ start) (hmost : start ≤ 971) :
    (Float.Model.pack
      (UnpackedFloat.normalize .binary64 sum start .positive)).unpack.isFinite = true ↔
        sum.natAbs * 2 ^ (start + 1074).toNat < overflow := by
  rcases Int.lt_trichotomy sum 0 with hneg | rfl | hpos
  · have hnumber : (-sum).toNat = sum.natAbs := by omega
    rw [UnpackedFloat.normalize, Int.compare_eq_lt.mpr hneg]
    dsimp only
    rw [hnumber]
    exact isFinite_round _ (by omega) hleast hmost
  · have hzero : UnpackedFloat.normalize .binary64 0 start .positive = .zero .positive := rfl
    rw [hzero, Int.natAbs_zero, Nat.zero_mul]
    exact iff_of_true rfl ((Nat.two_pow_pos 0).trans_le (two_pow_le_overflow (by decide)))
  · have hnumber : sum.toNat = sum.natAbs := by omega
    rw [UnpackedFloat.normalize, Int.compare_eq_gt.mpr hpos]
    dsimp only
    rw [hnumber]
    exact isFinite_round _ (by omega) hleast hmost

/-! ## Sums -/

theorem natAbs_apply (sign : Sign) (n : Int) : (sign.apply n).natAbs = n.natAbs := by
  cases sign
  · exact Int.natAbs_neg n
  · rfl

theorem apply_mul (sign : Sign) (m n : Int) : sign.apply (m * n) = sign.apply m * n := by
  cases sign
  · exact (Int.neg_mul m n).symm
  · rfl

/-- A mantissa may be widened. -/
theorem units_eq (sign : Sign) {mantissa : Nat} {exponent start : Int} (positive : 0 < mantissa)
    (hstart : start ≤ exponent) (hleast : -1074 ≤ start) :
    units (.finite sign mantissa exponent positive) =
      sign.apply (mantissa <<< (exponent - start).toNat : Nat) * 2 ^ (start + 1074).toNat := by
  have hexponent : (exponent + 1074).toNat = (exponent - start).toNat + (start + 1074).toNat := by
    omega
  rw [units, hexponent, Nat.shiftLeft_eq, Nat.pow_add, ← Nat.mul_assoc, Int.natCast_mul, apply_mul]
  push_cast
  rfl

/-- A float is at least half a step short of overflow. -/
theorem natAbs_units_le {form : UnpackedFloat} (h : Canonical form) :
    (units form).natAbs + halfStep ≤ overflow := by
  have hzero : 0 + halfStep ≤ overflow := by
    rw [Nat.zero_add]
    exact Nat.le_mul_of_pos_left _ (by decide)
  have hfinite : ∀ {mantissa : Nat} {exponent : Int}, mantissa < 2 ^ 53 → exponent ≤ 971 →
      mantissa * 2 ^ (exponent + 1074).toNat + halfStep ≤ overflow := by
    intro mantissa exponent hmantissa hmost
    have hpow : 2 ^ (exponent + 1074).toNat ≤ 2 * halfStep := by
      obtain ⟨top, htop⟩ : ∃ top, top = 2044 := ⟨_, rfl⟩
      rw [halfStep_eq htop, ← Nat.pow_succ']
      exact Nat.pow_le_pow_right (by decide) (by omega)
    calc mantissa * 2 ^ (exponent + 1074).toNat + halfStep
        ≤ (2 ^ 53 - 1) * (2 * halfStep) + halfStep :=
          Nat.add_le_add_right (Nat.mul_le_mul (by omega) hpow) _
      _ = overflow := by
          rw [overflow]
          omega
  cases h with
  | infinity sign | notANumber | zero sign => exact hzero
  | normal sign positive hlow hhigh hleast hmost =>
    rw [units, natAbs_apply, Int.natAbs_natCast]
    exact hfinite hhigh hmost
  | subnormal sign positive hhigh =>
    rw [units, natAbs_apply, Int.natAbs_natCast]
    exact hfinite (by omega) (by omega)

theorem canonical_exponent {sign : Sign} {mantissa : Nat} {exponent : Int} {positive : 0 < mantissa}
    (h : Canonical (.finite sign mantissa exponent positive)) :
    -1074 ≤ exponent ∧ exponent ≤ 971 := by
  cases h with
  | normal _ _ _ _ hleast hmost => exact ⟨hleast, hmost⟩
  | subnormal _ _ _ => decide

/-- A sum overflows if it is large. -/
theorem isFinite_add {a b : UnpackedFloat} (ha : Canonical a) (hb : Canonical b)
    (ha' : a.isFinite = true) (hb' : b.isFinite = true) :
    (Float.Model.pack (UnpackedFloat.add .binary64 a b)).unpack.isFinite = true ↔
      (units a + units b).natAbs < overflow := by
  have hkept : ∀ {form : UnpackedFloat}, Canonical form → form.isFinite = true →
      ((Float.Model.pack form).unpack.isFinite = true ↔ (units form).natAbs < overflow) := by
    intro form hform hfinite
    rw [unpack_pack hform]
    exact iff_of_true hfinite (Nat.lt_of_lt_of_le (Nat.lt_add_of_pos_right halfStep_pos)
      (natAbs_units_le hform))
  rcases a with sign | _ | sign | ⟨sign, mantissa, exponent, positive⟩
  · cases ha'
  · cases ha'
  · have hzero : units (.zero sign) = 0 := rfl
    rw [hzero, Int.zero_add]
    rcases b with other | _ | other | ⟨other, n, start, hn⟩
    · cases hb'
    · cases hb'
    · have hsum : UnpackedFloat.add .binary64 (.zero sign) (.zero other) =
          .zero (if sign == other then sign else .positive) := by
        rw [UnpackedFloat.add]
        split <;> rfl
      rw [hsum]
      exact hkept (.zero _) rfl
    · exact hkept hb hb'
  · rcases b with other | _ | other | ⟨other, n, start, hn⟩
    · cases hb'
    · cases hb'
    · have hzero : units (.zero other) = 0 := rfl
      rw [hzero, Int.add_zero]
      exact hkept ha ha'
    · obtain ⟨hleast, hmost⟩ := canonical_exponent ha
      obtain ⟨hleast', hmost'⟩ := canonical_exponent hb
      rw [units_eq sign positive (min_le_left exponent start) (by omega),
        units_eq other hn (min_le_right exponent start) (by omega), ← Int.add_mul,
        Int.natAbs_mul, UnpackedFloat.add]
      exact isFinite_normalize (by omega) (by omega)

theorem isFinite_float_add {x y : Float} (hx : x.isFinite = true) (hy : y.isFinite = true) :
    (x + y).isFinite = true ↔
      (units x.toModel.unpack + units y.toModel.unpack).natAbs < overflow :=
  isFinite_add (canonical_unpack _) (canonical_unpack _) hx hy

/-! ## Words -/

/-- A word is rounded to a float that is small. -/
theorem toFloat_small (word : UInt64) :
    word.toFloat.isFinite = true ∧ (units word.toFloat.toModel.unpack).natAbs < halfStep := by
  show word.toFloat.toModel.unpack.isFinite = true ∧ _
  have hform : word.toFloat.toModel.unpack =
    (Float.Model.pack (UnpackedFloat.ofNat .binary64 word.toNat)).unpack := rfl
  rw [hform]
  by_cases hzero : word.toNat = 0
  · rw [hzero]
    exact ⟨rfl, halfStep_pos⟩
  · have hpos : 0 < word.toNat := Nat.pos_of_ne_zero hzero
    have hlog : word.toNat.log2 < 64 := (Nat.log2_lt hzero).mpr word.toNat_lt
    have hpositive : compare (word.toNat : Int) 0 = .gt := Int.compare_eq_gt.mpr (by omega)
    have htarget : target word.toNat 0 = max ((word.toNat.log2 : Int) + 0 - 52) (-1074) := rfl
    obtain ⟨mantissa, positive, hshort, hfull, hround⟩ :=
      round_eq .positive hpos (by decide : -1074 ≤ (0 : Int))
    obtain ⟨exponent, hexponent⟩ : ∃ exponent,
      exponent = target word.toNat 0 + if Carries word.toNat 0 then 1 else 0 := ⟨_, rfl⟩
    have hleast : -1074 ≤ exponent := by split at hexponent <;> omega
    have hmost : exponent ≤ 12 := by split at hexponent <;> omega
    rw [UnpackedFloat.ofNat, UnpackedFloat.ofInt, UnpackedFloat.normalize, hpositive]
    dsimp only
    rw [Int.toNat_natCast, hround, ← hexponent, unpack_pack
      (.normal _ positive (hfull.resolve_left (by omega)) hshort hleast (by omega))]
    refine ⟨rfl, ?_⟩
    obtain ⟨top, htop⟩ : ∃ top, top = 2044 := ⟨_, rfl⟩
    rw [units, natAbs_apply, Int.natAbs_natCast, halfStep_eq htop]
    calc mantissa * 2 ^ (exponent + 1074).toNat
        < 2 ^ 53 * 2 ^ (exponent + 1074).toNat :=
          Nat.mul_lt_mul_of_pos_right hshort (Nat.two_pow_pos _)
      _ = 2 ^ (53 + (exponent + 1074).toNat) := (Nat.pow_add ..).symm
      _ ≤ 2 ^ top := Nat.pow_le_pow_right (by decide) (by omega)

theorem canonical_neg {form : UnpackedFloat} (h : Canonical form) : Canonical form.neg := by
  cases h with
  | infinity sign => exact .infinity _
  | notANumber => exact .notANumber
  | zero sign => exact .zero _
  | normal sign positive hlow hhigh hleast hmost => exact .normal _ positive hlow hhigh hleast hmost
  | subnormal sign positive hhigh => exact .subnormal _ positive hhigh

theorem unpack_neg (x : Float) : (-x).toModel.unpack = x.toModel.unpack.neg :=
  unpack_pack (canonical_neg (canonical_unpack _))

theorem isFinite_neg (x : Float) : (-x).isFinite = x.isFinite := by
  show (-x).toModel.unpack.isFinite = x.toModel.unpack.isFinite
  rw [unpack_neg]
  cases x.toModel.unpack <;> rfl

theorem natAbs_units_neg (x : Float) :
    (units (-x).toModel.unpack).natAbs = (units x.toModel.unpack).natAbs := by
  rw [unpack_neg]
  cases x.toModel.unpack with
  | finite sign mantissa exponent positive =>
    rw [UnpackedFloat.neg, units, units, natAbs_apply, natAbs_apply]
  | _ => rfl

theorem floatOfInt64_small (n : Int64) :
    (Value.floatOfInt64 n).isFinite = true ∧
      (units (Value.floatOfInt64 n).toModel.unpack).natAbs < halfStep := by
  unfold Value.floatOfInt64
  split
  · rw [isFinite_neg, natAbs_units_neg]
    exact toFloat_small _
  · exact toFloat_small _

/-- What is small does not lead from a float to overflow. -/
theorem add_lt_overflow (x : Float) {y : Float}
    (hy : (units y.toModel.unpack).natAbs < halfStep) :
    (units x.toModel.unpack + units y.toModel.unpack).natAbs < overflow := by
  have hx : (units x.toModel.unpack).natAbs + halfStep ≤ overflow :=
    natAbs_units_le (canonical_unpack _)
  omega

end Shardwise.Floats
