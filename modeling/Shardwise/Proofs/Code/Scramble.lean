import Mathlib.Data.UInt
import Mathlib.NumberTheory.Multiplicity
import Mathlib.Tactic.Ring
import Shardwise.Code

/-!
# Multiplications that can be undone

A number is scrambled by a multiplication with an odd word, and `Scramble.inverse` finds the
word that undoes it.  The words are a commutative ring in which 2^64 is zero, and how much of
an inverse is right is a matter of divisibility there: `RightIn bits odd inv` says that 2^bits
divides the error `1 - odd * inv`.

* `error_newtonStep` is the reason that the iteration is fast: a step squares the error.  So
  `rightIn_iterate` has 3, 6, 12, … bits right after 0, 1, 2, … steps.
* `mul_inverse` says that five steps are enough for a word, whatever odd word it was.
* `mul_masked_cancel` undoes a multiplication within the low bits that a mask selects.
* `inverse_undoes` is the result for the three widths of codes, and `unscramble_scramble` what
  it is there for.
-/

namespace Shardwise

namespace Scramble

/-! ## Newton's iteration -/

section Newton

open scoped UInt64.CommRing

variable {odd inv : UInt64} {bits : Nat}

/-- The product of `odd` and `inv` has the `bits` low bits of one. -/
def RightIn (bits : Nat) (odd inv : UInt64) : Prop := (2 : UInt64) ^ bits ∣ 1 - odd * inv

/-- An odd word is its own inverse in three bits: the square of an odd number is one more than
a multiple of eight. -/
theorem rightIn_self (hodd : odd.toNat % 2 = 1) : RightIn 3 odd odd := by
  obtain ⟨eighth, height⟩ := Nat.eight_dvd_sq_sub_one_of_odd (Nat.odd_iff.mpr hodd)
  have hpos : 0 < odd.toNat ^ 2 := Nat.pow_pos (by omega)
  have hsquare : odd.toNat * odd.toNat = 8 * eighth + 1 := by
    rw [← Nat.pow_two]
    omega
  have hword : odd * odd = 8 * UInt64.ofNat eighth + 1 := by
    have hcast := congrArg UInt64.ofNat hsquare
    rw [UInt64.ofNat_mul, UInt64.ofNat_toNat, UInt64.ofNat_add, UInt64.ofNat_mul] at hcast
    exact hcast
  refine ⟨-UInt64.ofNat eighth, ?_⟩
  rw [hword]
  ring

/-- What a step leaves of the error is its square. -/
theorem error_newtonStep (odd inv : UInt64) :
    1 - odd * newtonStep odd inv = (1 - odd * inv) ^ 2 := by
  unfold newtonStep
  ring

theorem RightIn.step (h : RightIn bits odd inv) : RightIn (bits * 2) odd (newtonStep odd inv) := by
  unfold RightIn
  rw [error_newtonStep, pow_mul]
  exact pow_dvd_pow_of_dvd h 2

/-- Every step doubles the number of bits that are right. -/
theorem rightIn_iterate (hodd : odd.toNat % 2 = 1) (steps : Nat) :
    RightIn (3 * 2 ^ steps) odd (Nat.repeat (newtonStep odd) steps odd) := by
  induction steps with
  | zero => exact rightIn_self hodd
  | succ steps ih =>
    rw [Nat.pow_succ, ← Nat.mul_assoc]
    exact ih.step

/-- Five steps would be right in 96 bits, and a word has 64. -/
theorem mul_inverse (hodd : odd.toNat % 2 = 1) : odd * inverse odd = 1 := by
  have hright : RightIn (3 * 2 ^ 5) odd (inverse odd) := rightIn_iterate hodd 5
  have hzero : (2 : UInt64) ^ (3 * 2 ^ 5) = 0 := by decide +kernel
  rw [RightIn, hzero, zero_dvd_iff, sub_eq_zero] at hright
  exact hright.symm

end Newton

/-! ## Masks -/

section Masks

variable {k : Nat} {mask : UInt64}

/-- A mask of low bits is a remainder. -/
theorem toNat_and_mask (hmask : mask.toNat = 2 ^ k - 1) (word : UInt64) :
    (word &&& mask).toNat = word.toNat % 2 ^ k := by
  rw [UInt64.toNat_and, hmask, Nat.and_two_pow_sub_one_eq_mod]

/-- The low bits of a product hang on the low bits of the factors alone. -/
theorem mul_and_mask (hk : k ≤ 64) (hmask : mask.toNat = 2 ^ k - 1) (a b : UInt64) :
    (a &&& mask) * b &&& mask = a * b &&& mask := by
  apply UInt64.toNat.inj
  have hdvd : 2 ^ k ∣ 2 ^ 64 := Nat.pow_dvd_pow 2 hk
  rw [toNat_and_mask hmask, toNat_and_mask hmask, UInt64.toNat_mul, UInt64.toNat_mul,
    toNat_and_mask hmask, Nat.mod_mod_of_dvd _ hdvd, Nat.mod_mod_of_dvd _ hdvd,
    Nat.mod_mul_mod]

theorem le_mask_iff (hmask : mask.toNat = 2 ^ k - 1) (word : UInt64) :
    word ≤ mask ↔ word.toNat < 2 ^ k := by
  have hpos : 0 < 2 ^ k := Nat.two_pow_pos k
  rw [UInt64.le_iff_toNat_le, hmask]
  omega

theorem and_mask_of_le (hmask : mask.toNat = 2 ^ k - 1) {word : UInt64} (h : word ≤ mask) :
    word &&& mask = word := by
  apply UInt64.toNat.inj
  rw [toNat_and_mask hmask, Nat.mod_eq_of_lt ((le_mask_iff hmask word).mp h)]

/-- What undoes a multiplication of words undoes it within a mask too. -/
theorem mul_masked_cancel (hk : k ≤ 64) (hmask : mask.toNat = 2 ^ k - 1) {a b : UInt64}
    (hab : a * b = 1) {word : UInt64} (h : word ≤ mask) :
    (word * a &&& mask) * b &&& mask = word := by
  rw [mul_and_mask hk hmask, UInt64.mul_assoc, hab, UInt64.mul_one, and_mask_of_le hmask h]

end Masks

end Scramble

/-! ## Widths -/

namespace Code

theorem toNat_maxNumber (width : CodeWidth) :
    width.maxNumber.toNat = 2 ^ (8 * width.bytes) - 1 := by
  cases width <;> rfl

theorem bytes_le (width : CodeWidth) : width.bytes ≤ 8 := by cases width <;> decide

end Code

namespace Scramble

/-- The iteration inverts every odd word, so a multiplication with one can be undone within
every width, whether the words are masked or remainders are taken. -/
theorem inverse_undoes {odd : UInt64} (hodd : odd.toNat % 2 = 1) :
    inverse odd * odd = 1 ∧
      ∀ (width : CodeWidth) (word : UInt64), word.toNat < 2 ^ width.bits →
        (word * odd &&& width.maxNumber) * inverse odd &&& width.maxNumber = word ∧
          word.toNat * odd.toNat % 2 ^ width.bits * (inverse odd).toNat % 2 ^ width.bits =
            word.toNat := by
  refine ⟨(UInt64.mul_comm _ _).trans (mul_inverse hodd), ?_⟩
  intro width word hword
  have hmask : width.maxNumber.toNat = 2 ^ width.bits - 1 := Code.toNat_maxNumber width
  have hbits : width.bits ≤ 64 := Nat.mul_le_mul_left 8 (Code.bytes_le width)
  have hcancel : (word * odd &&& width.maxNumber) * inverse odd &&& width.maxNumber = word :=
    mul_masked_cancel hbits hmask (mul_inverse hodd) ((le_mask_iff hmask word).mpr hword)
  have hdvd : 2 ^ width.bits ∣ 2 ^ 64 := Nat.pow_dvd_pow 2 hbits
  refine ⟨hcancel, ?_⟩
  calc word.toNat * odd.toNat % 2 ^ width.bits * (inverse odd).toNat % 2 ^ width.bits
      = ((word * odd &&& width.maxNumber) * inverse odd &&& width.maxNumber).toNat := by
        rw [toNat_and_mask hmask, UInt64.toNat_mul, toNat_and_mask hmask, UInt64.toNat_mul,
          Nat.mod_mod_of_dvd _ hdvd, Nat.mod_mod_of_dvd _ hdvd]
    _ = word.toNat := by rw [hcancel]

/-- A product that does not fit its width is undone as well. -/
theorem inverse_undoes_wrapped :
    (12345 : UInt64).toNat % 2 = 1 ∧ (65535 : UInt64).toNat < 2 ^ CodeWidth.bits16.bits ∧
      inverse 12345 * 12345 = 1 ∧
      (65535 * 12345 &&& CodeWidth.bits16.maxNumber) * inverse 12345 &&&
        CodeWidth.bits16.maxNumber = 65535 := by
  have hodd : (12345 : UInt64).toNat % 2 = 1 := by decide
  have hfits : (65535 : UInt64).toNat < 2 ^ CodeWidth.bits16.bits := by decide
  obtain ⟨hinverse, hundone⟩ := inverse_undoes hodd
  exact ⟨hodd, hfits, hinverse, (hundone .bits16 65535 hfits).1⟩

/-! ## Scrambling -/

/-- The multiplier is odd. -/
theorem multiplier_mul_inverse : multiplier * inverse multiplier = 1 := mul_inverse (by decide)

/-- Scrambling the low bits can be undone. -/
theorem unscramble_scramble {k : Nat} (hk : k ≤ 64) {mask : UInt64}
    (hmask : mask.toNat = 2 ^ k - 1) {number : UInt64} (h : number ≤ mask) :
    unscramble mask (scramble mask number) = number := by
  unfold unscramble scramble
  rw [UInt64.xor_assoc, UInt64.xor_self, UInt64.xor_zero,
    mul_masked_cancel hk hmask multiplier_mul_inverse h]

end Scramble

end Shardwise
