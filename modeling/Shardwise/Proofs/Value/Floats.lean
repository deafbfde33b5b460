import Mathlib
import Shardwise.Value.Number

/-!
# Whole numbers as floats

Up to 2^53 every whole number is a float, and adding one to a smaller one gives the next
one.  The sum of 2^53 and one lies halfway between two floats and is rounded back to
2^53.

A float is worked on in its unpacked form.  A number other than zero is a mantissa of 53
bits, or of fewer at the least exponent, with an exponent of two.

* `Canonical` are the forms that unpacking gives, and `unpack_pack` says that packing one
  of them loses nothing.
* `round_zeros` rounds a mantissa that is followed by zeros.
* `whole` is the form of a whole number up to 2^53.  `unpack_toFloat`, `toInt_whole` and
  `add_one_whole` are the conversions and the sum.
* `unpack_of_wholeOfFloat?` and `wholeOfFloat?_of_unpack` tie the forms to what a value is
  read as, and `wholeOfFloat?_succ` and `wholeOfFloat?_limit` are the results.
-/

namespace Shardwise.Floats

open Float.Model Float.Model.UnpackedFloat

/-! ## Packing -/

/-- The forms of floats. -/
inductive Canonical : UnpackedFloat → Prop
  | infinity (sign : Sign) : Canonical (.infinity sign)
  | notANumber : Canonical .notANumber
  | zero (sign : Sign) : Canonical (.zero sign)
  | normal (sign : Sign) {mantissa : Nat} {exponent : Int} (positive : 0 < mantissa)
      (hlow : 2 ^ 52 ≤ mantissa) (hhigh : mantissa < 2 ^ 53) (hleast : -1074 ≤ exponent)
      (hmost : exponent ≤ 971) : Canonical (.finite sign mantissa exponent positive)
  | subnormal (sign : Sign) {mantissa : Nat} (positive : 0 < mantissa)
      (hhigh : mantissa < 2 ^ 52) : Canonical (.finite sign mantissa (-1074) positive)

theorem ofBitVec_unpackSign (sign : Sign) (exponent : BitVec 11) (mantissa : BitVec 52) :
    Sign.ofBitVec (unpackSign (packComponents .binary64 sign exponent mantissa)) = sign := by
  simp only [unpackSign, packComponents, BitVec.extractLsb]
  rw [BitVec.extractLsb'_append_eq_of_le (by omega),
    BitVec.extractLsb'_append_eq_of_le (by omega)]
  cases sign <;> rfl

/-- The leading bit of a mantissa is not stored. -/
theorem toNat_append_one (mantissa : BitVec 52) :
    (1#1 ++ mantissa).toNat = 2 ^ 52 + mantissa.toNat := by
  rw [BitVec.toNat_append, ← Nat.shiftLeft_add_eq_or_of_lt mantissa.isLt, Nat.shiftLeft_eq]
  rfl

theorem exponentBias_eq : (Format.binary64.exponentBias : Int) = 1023 := rfl

theorem storedBits_eq : (Format.binary64.mantissaBitsWithoutImplicit : Int) = 52 := rfl

theorem mantissaBits_eq : Format.binary64.mantissaBits = 53 := rfl

theorem canonical_unpack (bits : BitVec Format.binary64.numBits) :
    Canonical (UnpackedFloat.unpack .binary64 bits) := by
  have hexponent : (unpackExponent bits).toNat < 2048 := (unpackExponent bits).isLt
  have hmantissa : (unpackMantissa bits).toNat < 2 ^ 52 := (unpackMantissa bits).isLt
  unfold UnpackedFloat.unpack
  dsimp only
  rw [exponentBias_eq, storedBits_eq]
  split
  · split
    · exact .infinity _
    · exact .notANumber
  · rename_i hones
    split
    · rename_i hzero
      split
      · exact .zero _
      · rw [hzero]
        exact .subnormal _ _ hmantissa
    · rename_i hzero
      simp only [BitVec.toNat_eq] at hones hzero
      have hones' : (unpackExponent bits).toNat ≠ 2047 := hones
      have hzero' : (unpackExponent bits).toNat ≠ 0 := hzero
      have happend := toNat_append_one (unpackMantissa bits)
      exact .normal _ _ (by omega) (by omega) (by omega) (by omega)

theorem log2_eq {mantissa : Nat} (hlow : 2 ^ 52 ≤ mantissa) (hhigh : mantissa < 2 ^ 53) :
    mantissa.log2 = 52 :=
  (Nat.log2_eq_iff (by omega)).mpr ⟨hlow, hhigh⟩

/-- Packing a form of a float loses nothing. -/
theorem unpack_pack {form : UnpackedFloat} (h : Canonical form) :
    (Float.Model.pack form).unpack = form := by
  show UnpackedFloat.unpack .binary64 (UnpackedFloat.pack .binary64 form) = form
  cases h with
  | infinity sign => cases sign <;> rfl
  | notANumber => rfl
  | zero sign => cases sign <;> rfl
  | @normal sign mantissa exponent positive hlow hhigh hleast hmost =>
    have hbiased : (exponent + Format.binary64.exponentBias +
        Format.binary64.mantissaBitsWithoutImplicit).toNat = (exponent + 1075).toNat := by
      rw [exponentBias_eq, storedBits_eq]
      omega
    have hstored : (BitVec.ofNat 11 (exponent + 1075).toNat).toNat = (exponent + 1075).toNat := by
      rw [BitVec.toNat_ofNat]
      omega
    have hones : BitVec.ofNat 11 (exponent + 1075).toNat ≠ -1#11 := by
      simp only [ne_eq, BitVec.toNat_eq, hstored]
      show ¬ _ = 2047
      omega
    have hzero : BitVec.ofNat 11 (exponent + 1075).toNat ≠ 0#11 := by
      simp only [ne_eq, BitVec.toNat_eq, hstored]
      show ¬ _ = 0
      omega
    have hmantissa : (1#1 ++ BitVec.ofNat 52 mantissa).toNat = mantissa := by
      rw [toNat_append_one, BitVec.toNat_ofNat]
      omega
    rw [UnpackedFloat.pack]
    simp only [log2_eq hlow hhigh, hbiased]
    rw [if_neg (by omega), if_pos mantissaBits_eq.symm, UnpackedFloat.unpack]
    simp only [unpackMantissa_packComponents, unpackExponent_packComponents, ofBitVec_unpackSign,
      if_neg hones, if_neg hzero, exponentBias_eq, hstored, hmantissa]
    congr 1
    omega
  | @subnormal sign mantissa positive hhigh =>
    have hlog : ¬ mantissa.log2 + 1 = Format.binary64.mantissaBits := by
      have hlt : mantissa.log2 < 52 := (Nat.log2_lt (by omega)).mpr hhigh
      show ¬ _ = 53
      omega
    have hmantissa : (BitVec.ofNat 52 mantissa).toNat = mantissa := by
      rw [BitVec.toNat_ofNat]
      omega
    have hzero : BitVec.ofNat 52 mantissa ≠ 0#52 := by
      simp only [ne_eq, BitVec.toNat_eq, hmantissa]
      show ¬ _ = 0
      omega
    rw [UnpackedFloat.pack]
    simp only [if_neg hlog]
    rw [if_neg (by decide), UnpackedFloat.unpack]
    simp only [unpackMantissa_packComponents, unpackExponent_packComponents, ofBitVec_unpackSign,
      dif_neg hzero, hmantissa]
    rfl

/-! ## Rounding -/

theorem log2_mul_two_pow {number : Nat} (h : number ≠ 0) (count : Nat) :
    (number * 2 ^ count).log2 = number.log2 + count := by
  induction count with
  | zero => rw [Nat.pow_zero, Nat.mul_one, Nat.add_zero]
  | succ count ih =>
    have hne : number * 2 ^ count ≠ 0 := Nat.mul_ne_zero h (Nat.two_pow_pos count).ne'
    rw [Nat.pow_succ', Nat.mul_left_comm, Nat.log2_two_mul hne, ih, Nat.add_assoc]

/-- Zeros behind a mantissa are shifted out without a trace. -/
theorem shiftRight_zeros (mantissa count : Nat) :
    ExtendedMantissa.mk (mantissa * 2 ^ count) false false >>> count =
      ExtendedMantissa.mk mantissa false false := by
  induction count generalizing mantissa with
  | zero =>
    rw [Nat.pow_zero, Nat.mul_one]
    rfl
  | succ count ih =>
    show ExtendedMantissa.shiftRightOne
      (ExtendedMantissa.mk (mantissa * 2 ^ (count + 1)) false false >>> count) = _
    rw [Nat.pow_succ', ← Nat.mul_assoc, ih, ExtendedMantissa.shiftRightOne]
    simp

section

variable {mantissa : Nat} {exponent : Int} (hlow : 2 ^ 52 ≤ mantissa) (hhigh : mantissa < 2 ^ 53)
  (hleast : -1074 ≤ exponent)

include hleast in
/-- The exponent of a number in 53 bits depends on its size only. -/
theorem targetExponent_eq {number : Nat} {start : Int} (h : number.log2 + start = 52 + exponent) :
    Format.binary64.targetExponent (totalExponent number start) = exponent := by
  rw [Format.targetExponent, totalExponent, mantissaBits_eq]
  show max _ (-1074) = exponent
  push_cast
  omega

include hlow hhigh hleast in
theorem shiftToTargetExponent_zeros (count : Nat) :
    shiftToTargetExponent .binary64 (mantissa * 2 ^ count) (exponent - count) .exact =
      (ExtendedMantissa.mk mantissa false false, exponent) := by
  have hne : mantissa ≠ 0 := by omega
  have hlog := log2_mul_two_pow hne count
  rw [log2_eq hlow hhigh] at hlog
  have hcount : (exponent - (exponent - count)).toNat = count := by omega
  rw [shiftToTargetExponent, targetExponent_eq hleast (by omega), shiftToExponent, hcount,
    ExtendedMantissa.ofMantissaAndAccuracy, shiftRight_zeros]
  simp

include hlow hhigh hleast in
/-- A number of 53 bits with zeros behind them is not rounded. -/
theorem roundWithAccuracy_zeros (sign : Sign) (count : Nat) :
    roundWithAccuracy .binary64 sign (mantissa * 2 ^ count) (exponent - count) .exact =
      .finite sign mantissa exponent (by omega) := by
  have hagain := shiftToTargetExponent_zeros hlow hhigh hleast 0
  rw [Nat.pow_zero, Nat.mul_one, Int.natCast_zero, Int.sub_zero] at hagain
  have hrounded : (ExtendedMantissa.mk mantissa false false).roundedMantissa = mantissa := rfl
  have hne : mantissa ≠ 0 := by omega
  rw [roundWithAccuracy, shiftToTargetExponent_zeros hlow hhigh hleast]
  dsimp only
  simp only [hrounded, hagain]
  exact dif_neg hne

include hlow hhigh hleast in
theorem round_zeros (sign : Sign) (count : Nat) :
    UnpackedFloat.round .binary64 sign (mantissa * 2 ^ count) (exponent - count) =
      .finite sign mantissa exponent (by omega) := by
  have hne : mantissa ≠ 0 := by omega
  have hlog := log2_mul_two_pow hne count
  rw [log2_eq hlow hhigh] at hlog
  have hcount : (exponent - count - exponent).toNat = 0 := by omega
  rw [UnpackedFloat.round, targetExponent_eq hleast (by omega), decreaseExponent, hcount]
  dsimp only
  rw [Nat.shiftLeft_zero, Int.natCast_zero, Int.sub_zero]
  exact roundWithAccuracy_zeros hlow hhigh hleast sign count

include hlow hhigh hleast in
/-- Neither is a number of fewer bits. -/
theorem round_widened (sign : Sign) {number count : Nat} (h : number * 2 ^ count = mantissa) :
    UnpackedFloat.round .binary64 sign number (exponent + count) =
      .finite sign mantissa exponent (by omega) := by
  have hne : number ≠ 0 := by
    rintro rfl
    omega
  have hlog := log2_mul_two_pow hne count
  rw [h, log2_eq hlow hhigh] at hlog
  have hcount : (exponent + count - exponent).toNat = count := by omega
  rw [UnpackedFloat.round, targetExponent_eq hleast (by omega), decreaseExponent, hcount]
  dsimp only
  rw [Nat.shiftLeft_eq, h, Int.add_sub_cancel]
  have hrounded := roundWithAccuracy_zeros hlow hhigh hleast sign 0
  rwa [Nat.pow_zero, Nat.mul_one, Int.natCast_zero, Int.sub_zero] at hrounded

end

/-! ## Whole numbers -/

/-- The mantissa of a whole number, in 53 bits. -/
def wholeMantissa (n : Nat) : Nat := n * 2 ^ 52 / 2 ^ n.log2

theorem wholeMantissa_pos {n : Nat} (h : n ≠ 0) : 0 < wholeMantissa n := by
  have hlog := Nat.log2_self_le h
  refine Nat.div_pos ?_ (Nat.two_pow_pos _)
  omega

/-- The form of a whole number that is a float. -/
def whole (n : Nat) : UnpackedFloat :=
  if h : n = 0 then .zero .positive
  else .finite .positive (wholeMantissa n) (n.log2 - 52) (wholeMantissa_pos h)

@[simp] theorem whole_zero : whole 0 = .zero .positive := rfl

theorem whole_of_ne {n : Nat} (h : n ≠ 0) :
    whole n = .finite .positive (wholeMantissa n) (n.log2 - 52) (wholeMantissa_pos h) :=
  dif_neg h

theorem whole_limit : whole (2 ^ 53) = .finite .positive (2 ^ 52) 1 (by decide) := rfl

section

variable {n : Nat} (hne : n ≠ 0) (h : n ≤ 2 ^ 53)

include hne h in
theorem log2_le : n.log2 ≤ 53 := by
  have hle := (Nat.log2_self_le hne).trans h
  exact (Nat.pow_le_pow_iff_right (by decide)).mp hle

include hne h in
theorem wholeMantissa_mul : wholeMantissa n * 2 ^ n.log2 = n * 2 ^ 52 := by
  refine Nat.div_mul_cancel ?_
  rcases Nat.lt_or_eq_of_le (log2_le hne h) with hlt | heq
  · exact Nat.dvd_mul_left_of_dvd (Nat.pow_dvd_pow 2 (by omega)) n
  · have hlow := Nat.log2_self_le hne
    have hn : n = 2 ^ 53 := by
      rw [heq] at hlow
      omega
    rw [heq, hn]
    exact Nat.dvd_mul_right ..

include hne h in
theorem wholeMantissa_bounds : 2 ^ 52 ≤ wholeMantissa n ∧ wholeMantissa n < 2 ^ 53 := by
  have hmul := wholeMantissa_mul hne h
  have hpos : 0 < 2 ^ n.log2 := Nat.two_pow_pos _
  have hlow := Nat.log2_self_le hne
  have hhigh : n < 2 ^ n.log2 * 2 := Nat.lt_log2_self
  constructor
  · refine Nat.le_of_mul_le_mul_right ?_ hpos
    omega
  · refine Nat.lt_of_mul_lt_mul_right (a := 2 ^ n.log2) ?_
    omega

end

variable {n : Nat}

theorem canonical_whole (h : n ≤ 2 ^ 53) : Canonical (whole n) := by
  by_cases hne : n = 0
  · rw [hne]
    exact .zero _
  · obtain ⟨hlow, hhigh⟩ := wholeMantissa_bounds hne h
    have hlog := log2_le hne h
    rw [whole_of_ne hne]
    exact .normal _ _ hlow hhigh (by omega) (by omega)

/-- Below 2^53 a number takes fewer bits than there are. -/
theorem wholeMantissa_eq (hne : n ≠ 0) (h : n < 2 ^ 53) :
    n * 2 ^ (52 - n.log2) = wholeMantissa n := by
  have hlog : n.log2 < 53 := (Nat.log2_lt hne).mpr h
  have hmul := wholeMantissa_mul hne h.le
  refine Nat.eq_of_mul_eq_mul_right (Nat.two_pow_pos n.log2) ?_
  rw [hmul, Nat.mul_assoc, ← Nat.pow_add, Nat.sub_add_cancel (by omega)]

/-- Whole numbers up to 2^53 are converted without loss. -/
theorem ofNat_eq_whole (h : n ≤ 2 ^ 53) : UnpackedFloat.ofNat .binary64 n = whole n := by
  rcases Nat.lt_or_eq_of_le h with hlt | rfl
  · by_cases hne : n = 0
    · rw [hne]
      rfl
    · obtain ⟨hlow, hhigh⟩ := wholeMantissa_bounds hne h
      have hlog : n.log2 < 53 := (Nat.log2_lt hne).mpr hlt
      have hpositive : compare (n : Int) 0 = .gt := by
        rw [Int.compare_eq_gt]
        omega
      have hrounded := round_widened hlow hhigh (by omega : -1074 ≤ (n.log2 : Int) - 52) .positive
        (wholeMantissa_eq hne hlt)
      have hzero : (n.log2 : Int) - 52 + (52 - n.log2 : Nat) = 0 := by omega
      rw [hzero] at hrounded
      rw [UnpackedFloat.ofNat, UnpackedFloat.ofInt, UnpackedFloat.normalize, hpositive,
        whole_of_ne hne]
      exact hrounded
  · rfl

/-- And back. -/
theorem toInt_whole (h : n ≤ 2 ^ 53) (least most : Int) : (whole n).toInt least most = n := by
  rcases Nat.lt_or_eq_of_le h with hlt | rfl
  · by_cases hne : n = 0
    · rw [hne]
      rfl
    · have hlog : n.log2 < 53 := (Nat.log2_lt hne).mpr hlt
      have hwide : ((n.log2 : Int) - 52 - 0).toNat = 0 := by omega
      have hnarrow : (0 - ((n.log2 : Int) - 52 - 0)).toNat = 52 - n.log2 := by omega
      rw [whole_of_ne hne, UnpackedFloat.toInt, roundToInt, decreaseExponent, hwide]
      dsimp only
      rw [shiftToExponent, Int.natCast_zero, hnarrow, Nat.shiftLeft_zero,
        ExtendedMantissa.ofMantissaAndAccuracy, ← wholeMantissa_eq hne hlt, shiftRight_zeros]
      rfl
  · rfl

/-- The number after a whole number below 2^53. -/
theorem add_one_whole (h : n < 2 ^ 53) :
    UnpackedFloat.add .binary64 (whole n) (whole 1) = whole (n + 1) := by
  by_cases hne : n = 0
  · rw [hne]
    rfl
  · have hone : whole 1 = .finite .positive (2 ^ 52) (-52) (by decide) := rfl
    have hnext : n + 1 ≠ 0 := by omega
    obtain ⟨hlow, hhigh⟩ := wholeMantissa_bounds hnext h
    have hleast : min ((n.log2 : Int) - 52) (-52) = -52 := by omega
    have hwide : ((n.log2 : Int) - 52 - -52).toNat = n.log2 := by omega
    -- both summands are multiples of 2^-52, and the sum is one of n + 1
    have hsum : Sign.positive.apply (wholeMantissa n <<< n.log2 : Nat) +
        Sign.positive.apply (2 ^ 52 <<< 0 : Nat) =
          (wholeMantissa (n + 1) * 2 ^ (n + 1).log2 : Nat) := by
      rw [wholeMantissa_mul hnext h, Nat.shiftLeft_eq, wholeMantissa_mul hne h.le]
      show ((n * 2 ^ 52 : Nat) : Int) + (2 ^ 52 : Nat) = ((n + 1) * 2 ^ 52 : Nat)
      omega
    have hpositive : compare ((wholeMantissa (n + 1) * 2 ^ (n + 1).log2 : Nat) : Int) 0 = .gt := by
      have hpos := Nat.mul_pos (wholeMantissa_pos hnext) (Nat.two_pow_pos (n + 1).log2)
      rw [Int.compare_eq_gt]
      omega
    have hrounded := round_zeros hlow hhigh (by omega : -1074 ≤ ((n + 1).log2 : Int) - 52) .positive
      (n + 1).log2
    have hexponent : ((n + 1).log2 : Int) - 52 - (n + 1).log2 = -52 := by omega
    rw [hexponent] at hrounded
    rw [hone, whole_of_ne hne, UnpackedFloat.add]
    simp only [hleast, decreaseExponent, hwide, Int.sub_self, Int.toNat_zero]
    rw [hsum, UnpackedFloat.normalize, hpositive, whole_of_ne hnext]
    exact hrounded

/-- The sum of 2^53 and one is rounded. -/
theorem add_one_limit :
    UnpackedFloat.add .binary64 (whole (2 ^ 53)) (whole 1) = whole (2 ^ 53) := rfl

/-! ## Floats that stand for whole numbers -/

theorem unpack_toFloat {word : UInt64} (h : word.toNat ≤ 2 ^ 53) :
    word.toFloat.toModel.unpack = whole word.toNat := by
  show (Float.Model.pack (UnpackedFloat.ofNat .binary64 word.toNat)).unpack = _
  rw [ofNat_eq_whole h, unpack_pack (canonical_whole h)]

theorem canonical_abs {form : UnpackedFloat} (h : Canonical form) : Canonical form.abs := by
  cases h with
  | infinity sign => exact .infinity _
  | notANumber => exact .notANumber
  | zero sign => exact .zero _
  | normal sign positive hlow hhigh hleast hmost => exact .normal _ positive hlow hhigh hleast hmost
  | subnormal sign positive hhigh => exact .subnormal _ positive hhigh

theorem unpack_abs (x : Float) : x.abs.toModel.unpack = x.toModel.unpack.abs :=
  unpack_pack (canonical_abs (canonical_unpack _))

theorem abs_whole (n : Nat) : (whole n).abs = whole n := by
  by_cases hne : n = 0
  · rw [hne]
    rfl
  · rw [whole_of_ne hne]
    rfl

/-- The order of the forms of whole numbers, as far as it is used. -/
theorem compare_whole_self (n : Nat) : (whole n).compare (whole n) = some .eq := by
  by_cases hne : n = 0
  · rw [hne]
    rfl
  · rw [whole_of_ne hne, UnpackedFloat.compare]
    simp

theorem le_limit_whole (h : n ≤ 2 ^ 53) : (whole n).le (whole (2 ^ 53)) = true := by
  rcases Nat.lt_or_eq_of_le h with hlt | rfl
  · by_cases hne : n = 0
    · rw [hne]
      rfl
    · have hlog : n.log2 < 53 := (Nat.log2_lt hne).mpr hlt
      have hless : compare ((n.log2 : Int) - 52) 1 = .lt := by
        rw [Int.compare_eq_lt]
        omega
      rw [whole_of_ne hne, whole_limit, UnpackedFloat.le, UnpackedFloat.compare, hless]
      rfl
  · rfl

theorem not_lt_zero_whole (n : Nat) : (whole n).lt (whole 0) = false := by
  by_cases hne : n = 0
  · rw [hne]
    rfl
  · rw [whole_of_ne hne]
    rfl

theorem le_iff {x y : Float} : x ≤ y ↔ x.toModel.unpack.le y.toModel.unpack = true :=
  decide_eq_true_iff

theorem lt_iff {x y : Float} : x < y ↔ x.toModel.unpack.lt y.toModel.unpack = true :=
  decide_eq_true_iff

theorem unpack_wholeLimit : Value.wholeLimit.toModel.unpack = whole (2 ^ 53) := rfl

theorem unpack_zero : (0 : Float).toModel.unpack = whole 0 := rfl

theorem unpack_one : (Value.floatOfInt64 1).toModel.unpack = whole 1 := rfl

theorem toNat_toUInt64 (x : Float) : x.toUInt64.toNat =
    min (x.toModel.unpack.toInt 0 (UInt64.size - 1)).toNat (UInt64.size - 1) := by
  show (UInt64.ofNatClamp _).toNat = _
  unfold UInt64.ofNatClamp
  split
  · rename_i hlt
    rw [UInt64.toNat_ofNatLT]
    exact (Nat.min_eq_left (by omega)).symm
  · rename_i hge
    rw [UInt64.toNat_ofNatLT]
    exact (Nat.min_eq_right (by omega)).symm

theorem toUInt64_of_unpack {x : Float} (h : n ≤ 2 ^ 53) (hx : x.toModel.unpack = whole n) :
    x.toUInt64.toNat = n := by
  have hsize : UInt64.size = 2 ^ 64 := rfl
  rw [toNat_toUInt64, hx, toInt_whole h, Int.toNat_natCast]
  omega

/-- A float of the form of a whole number stands for it. -/
theorem wholeOfFloat?_of_unpack {x : Float} (h : n ≤ 2 ^ 53) (hx : x.toModel.unpack = whole n) :
    Value.wholeOfFloat? x = some (n : Int) := by
  have habs : x.abs.toModel.unpack = whole n := by rw [unpack_abs, hx, abs_whole]
  have hsize : x.abs.toUInt64.toNat = n := toUInt64_of_unpack h habs
  have hback : x.abs.toUInt64.toFloat.toModel.unpack = whole n := by
    rw [unpack_toFloat (by omega), hsize]
  have hle : x.abs ≤ Value.wholeLimit := by
    rw [le_iff, habs, unpack_wholeLimit]
    exact le_limit_whole h
  have hbeq : Float.beq x.abs.toUInt64.toFloat x.abs = true := by
    show UnpackedFloat.beq (x.abs.toUInt64.toFloat.toModel.unpack) x.abs.toModel.unpack = true
    rw [hback, habs, UnpackedFloat.beq, compare_whole_self]
    rfl
  have hlt : ¬ x < 0 := by
    rw [lt_iff, hx, unpack_zero, not_lt_zero_whole]
    exact Bool.false_ne_true
  rw [Value.wholeOfFloat?]
  simp only [hle, hbeq, hlt, hsize, decide_true, Bool.and_self, if_true, if_false]

theorem mantissa_shiftRight (extended : ExtendedMantissa) (count : Nat) :
    (extended >>> count).mantissa = extended.mantissa / 2 ^ count := by
  induction count with
  | zero => simp [HShiftRight.hShiftRight, Nat.repeat]
  | succ count ih =>
    show (extended >>> count).mantissa / 2 = _
    rw [ih, Nat.div_div_eq_div_mul, Nat.pow_succ]

/-- Without a positive exponent a number is not larger than its mantissa. -/
theorem roundToInt_le (mantissa : Nat) {exponent : Int} (h : exponent ≤ 0) :
    roundToInt .positive mantissa exponent ≤ mantissa := by
  have hwide : (exponent - 0).toNat = 0 := by omega
  have hshift := mantissa_shiftRight (ExtendedMantissa.mk mantissa false false)
    (0 - (exponent - (0 : Nat))).toNat
  rw [roundToInt, decreaseExponent, hwide]
  dsimp only
  rw [Nat.shiftLeft_zero, shiftToExponent]
  exact Int.ofNat_le.mpr (hshift.trans_le (Nat.div_le_self ..))

/-- A float that is not larger than 2^53 is cut to a whole number that is not. -/
theorem toInt_le_limit {form : UnpackedFloat} (hcanonical : Canonical form)
    (h : form.abs.le (whole (2 ^ 53)) = true) (most : Int) : form.abs.toInt 0 most ≤ 2 ^ 53 := by
  rw [whole_limit] at h
  cases hcanonical with
  | infinity sign => cases h
  | notANumber => cases h
  | zero sign =>
    show (0 : Int) ≤ 2 ^ 53
    decide
  | @normal sign mantissa exponent positive hlow hhigh hleast hmost =>
    have horder : ((compare exponent 1).then (compare mantissa (2 ^ 52))).isLE = true := h
    rw [UnpackedFloat.abs, UnpackedFloat.toInt]
    by_cases hexponent : exponent ≤ 0
    · have hle := roundToInt_le mantissa hexponent
      omega
    · have hone : exponent = 1 := by
        rcases Int.lt_trichotomy exponent 1 with hlt | heq | hgt
        · omega
        · exact heq
        · rw [Int.compare_eq_gt.mpr hgt] at horder
          cases horder
      have hhalf : mantissa ≤ 2 ^ 52 := by
        rw [Int.compare_eq_eq.mpr hone, Ordering.eq_then, Nat.isLE_compare] at horder
        exact horder
      subst hone
      show ((mantissa <<< 1 : Nat) : Int) ≤ 2 ^ 53
      rw [Nat.shiftLeft_eq]
      omega
  | @subnormal sign mantissa positive hhigh =>
    have hle := roundToInt_le mantissa (by decide : (-1074 : Int) ≤ 0)
    rw [UnpackedFloat.abs, UnpackedFloat.toInt]
    omega

/-- Only zeros of both signs compare equal and differ. -/
theorem eq_whole_of_beq {form : UnpackedFloat} (h : (whole n).beq form = true) :
    form = whole n ∨ n = 0 ∧ form = .zero .negative := by
  by_cases hne : n = 0
  · rw [hne, whole_zero] at h ⊢
    rcases form with sign | _ | sign | ⟨sign, mantissa, exponent, positive⟩
    · cases sign <;> cases h
    · cases h
    · cases sign
      · exact .inr ⟨rfl, rfl⟩
      · exact .inl rfl
    · cases sign <;> cases h
  · rw [whole_of_ne hne] at h ⊢
    rcases form with sign | _ | sign | ⟨sign, mantissa, exponent, positive⟩
    · cases sign <;> cases h
    · cases h
    · cases h
    · cases sign
      · cases h
      · simp only [UnpackedFloat.beq, UnpackedFloat.compare, beq_iff_eq, Option.some.injEq,
          Ordering.then_eq_eq, Int.compare_eq_eq, Nat.compare_eq_eq] at h
        obtain ⟨hexponent, hmantissa⟩ := h
        subst hexponent hmantissa
        exact .inl rfl

/-- A number without its sign. -/
theorem form_of_abs {form : UnpackedFloat} (h : form.abs = whole n) : form.isFinite = true ∧
    (form = whole n ∨ n = 0 ∧ form = .zero .negative ∨ n ≠ 0 ∧ form.lt (whole 0) = true) := by
  by_cases hne : n = 0
  · rw [hne, whole_zero] at h ⊢
    rcases form with sign | _ | sign | _ <;> cases h
    cases sign
    · exact ⟨rfl, .inr (.inl ⟨rfl, rfl⟩)⟩
    · exact ⟨rfl, .inl rfl⟩
  · rw [whole_of_ne hne] at h ⊢
    rcases form with sign | _ | sign | ⟨sign, mantissa, exponent, positive⟩ <;> cases h
    cases sign
    · exact ⟨rfl, .inr (.inr ⟨hne, rfl⟩)⟩
    · exact ⟨rfl, .inl rfl⟩

/-- A float that stands for a whole number is finite, and the number is at most 2^53.  If it
is not negative, the form of the float is that of the number, or the other zero. -/
theorem unpack_of_wholeOfFloat? {x : Float} {number : Int}
    (h : Value.wholeOfFloat? x = some number) : x.isFinite = true ∧ number ≤ 2 ^ 53 ∧
      (0 ≤ number → x.toModel.unpack = whole number.toNat ∨
        number = 0 ∧ x.toModel.unpack = .zero .negative) := by
  rw [Value.wholeOfFloat?] at h
  split at h
  · rename_i hcond
    rw [Bool.and_eq_true, decide_eq_true_eq, le_iff, unpack_abs, unpack_wholeLimit] at hcond
    obtain ⟨hle, hsame⟩ := hcond
    have hsmall : x.abs.toUInt64.toNat ≤ 2 ^ 53 := by
      have hint : x.toModel.unpack.abs.toInt 0 (UInt64.size - 1) ≤ 2 ^ 53 :=
        toInt_le_limit (canonical_unpack _) hle _
      rw [toNat_toUInt64, unpack_abs]
      omega
    have hbeq : UnpackedFloat.beq x.abs.toUInt64.toFloat.toModel.unpack x.abs.toModel.unpack =
      true := hsame
    rw [unpack_toFloat hsmall, unpack_abs] at hbeq
    have hform : x.toModel.unpack.abs = whole x.abs.toUInt64.toNat := by
      rcases eq_whole_of_beq hbeq with heq | ⟨-, heq⟩
      · exact heq
      · cases hunpacked : x.toModel.unpack <;> rw [hunpacked] at heq <;> cases heq
    obtain ⟨hfinite, hcases⟩ := form_of_abs hform
    generalize x.abs.toUInt64.toNat = size at *
    cases h
    refine ⟨hfinite, by split <;> omega, fun hnonneg => ?_⟩
    rcases hcases with heq | ⟨hzero, heq⟩ | ⟨hne, hlt⟩
    · have hnot : ¬ x < 0 := by
        rw [lt_iff, heq, unpack_zero, not_lt_zero_whole]
        exact Bool.false_ne_true
      rw [if_neg hnot, Int.toNat_natCast]
      exact .inl heq
    · refine .inr ⟨?_, heq⟩
      rw [hzero]
      split <;> rfl
    · have hneg : x < 0 := by rwa [lt_iff, unpack_zero]
      rw [if_pos hneg] at hnonneg
      omega
  · cases h

/-! ## Adding one -/

/-- A float that stands for a whole number below 2^53, and one more. -/
theorem wholeOfFloat?_succ {x : Float} (hlt : n < 2 ^ 53)
    (h : Value.wholeOfFloat? x = some (n : Int)) :
    Value.wholeOfFloat? (x + Value.floatOfInt64 1) = some ((n + 1 : Nat) : Int) := by
  obtain ⟨-, -, hform⟩ := unpack_of_wholeOfFloat? h
  have hadd : UnpackedFloat.add .binary64 x.toModel.unpack (Value.floatOfInt64 1).toModel.unpack =
      whole (n + 1) := by
    rw [unpack_one]
    rcases hform (by omega) with heq | ⟨hzero, heq⟩
    · rw [heq, Int.toNat_natCast, add_one_whole hlt]
    · have hn : n = 0 := by omega
      rw [heq, hn]
      rfl
  refine wholeOfFloat?_of_unpack hlt ?_
  show (Float.Model.pack (UnpackedFloat.add _ _ _)).unpack = _
  rw [hadd, unpack_pack (canonical_whole hlt)]

/-- The float 2^53 and one more is 2^53 again. -/
theorem wholeOfFloat?_limit {x : Float} (h : Value.wholeOfFloat? x = some (2 ^ 53)) :
    Value.wholeOfFloat? (x + Value.floatOfInt64 1) = some (2 ^ 53) := by
  obtain ⟨-, -, hform⟩ := unpack_of_wholeOfFloat? h
  have hadd : UnpackedFloat.add .binary64 x.toModel.unpack (Value.floatOfInt64 1).toModel.unpack =
      whole (2 ^ 53) := by
    rw [unpack_one]
    rcases hform (by decide) with heq | ⟨hzero, -⟩
    · rw [heq]
      exact add_one_limit
    · cases hzero
  refine wholeOfFloat?_of_unpack (Nat.le_refl _) ?_
  show (Float.Model.pack (UnpackedFloat.add _ _ _)).unpack = _
  rw [hadd, unpack_pack (canonical_whole (Nat.le_refl _))]

end Shardwise.Floats
