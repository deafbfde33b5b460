import Shardwise.Text.Padded

/-!
# Padded numbers can be told apart

Zeros in front do not change what digits stand for, so a padded number is read
back from its digits (`paddedNat_inj`), and a minus sign is no digit
(`padded_inj`).
-/

namespace Shardwise.Text

theorem toList_paddedNat (width n : Nat) :
    (paddedNat width n).toList =
      List.replicate (width - (Nat.toDigits 10 n).length) '0' ++ Nat.toDigits 10 n := by
  simp [paddedNat]

theorem isDigit_of_mem_paddedNat {width n : Nat} {c : Char}
    (h : c ∈ (paddedNat width n).toList) : c.isDigit = true := by
  rw [toList_paddedNat] at h
  rcases List.mem_append.mp h with hzero | hdigit
  · rw [List.eq_of_mem_replicate hzero]
    rfl
  · exact Nat.isDigit_of_mem_toDigits (by decide) (by decide) hdigit

theorem minus_or_isDigit_of_mem_padded {width : Nat} {n : Int} {c : Char}
    (h : c ∈ (padded width n).toList) : c = '-' ∨ c.isDigit = true := by
  unfold padded at h
  split at h
  · rw [String.toList_append] at h
    rcases List.mem_append.mp h with hminus | hdigit
    · exact .inl (List.mem_singleton.mp hminus)
    · exact .inr (isDigit_of_mem_paddedNat hdigit)
  · exact .inr (isDigit_of_mem_paddedNat h)

theorem paddedNat_inj {width m n : Nat} (h : paddedNat width m = paddedNat width n) : m = n := by
  have hvalue := congrArg (fun text => Nat.ofDigitChars 10 text.toList 0) h
  simpa [toList_paddedNat, Nat.ofDigitChars_append] using hvalue

/-- Numbers of at most two digits are written with two. -/
theorem length_paddedNat_two {n : Nat} (h : n < 100) : (paddedNat 2 n).toList.length = 2 := by
  have hlength : (Nat.toDigits 10 n).length ≤ 2 :=
    (Nat.length_toDigits_le_iff (by decide) (by decide)).mpr h
  rw [toList_paddedNat, List.length_append, List.length_replicate]
  omega

/-- A sign is no digit. -/
theorem minus_ne_paddedNat (text : String) (width n : Nat) : "-" ++ text ≠ paddedNat width n := by
  intro h
  have hmem : '-' ∈ (paddedNat width n).toList := by
    rw [← h]
    simp
  exact absurd (isDigit_of_mem_paddedNat hmem) (by decide)

theorem padded_inj {width : Nat} {m n : Int} (h : padded width m = padded width n) : m = n := by
  unfold padded at h
  split at h <;> split at h
  · have habs := paddedNat_inj ((String.append_right_inj "-").mp h)
    omega
  · exact absurd h (minus_ne_paddedNat _ _ _)
  · exact absurd h.symm (minus_ne_paddedNat _ _ _)
  · have habs := paddedNat_inj h
    omega

end Shardwise.Text
