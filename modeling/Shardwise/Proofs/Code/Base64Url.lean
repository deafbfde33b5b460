import Mathlib.Tactic.IntervalCases
import Shardwise.Code.Base64Url

/-!
# Reading back what was written

`decode_encode` is the round trip of the URL-safe alphabet on byte lists of any
length.  Below it are the three layers of the format:

* `bits?_symbol` goes from six bits to a symbol and back;
* `eights_sixes` regroups bytes as groups of six bits and back;
* `toList_toUTF8_encode` looks at a text of symbols byte by byte.
-/

namespace Shardwise.Base64Url

/-! ## Symbols -/

/-- What holds of the 64 values of six bits can be tried. -/
theorem forall_six {P : UInt8 → Prop} (h : ∀ n < 64, P (UInt8.ofNat n)) {bits : UInt8}
    (hbits : bits < 64) : P bits := by
  have hlt : bits.toNat < 64 := hbits
  have hP := h bits.toNat hlt
  rwa [UInt8.ofNat_toNat] at hP

theorem bits?_symbol {bits : UInt8} (h : bits < 64) : bits? (symbol bits) = some bits :=
  forall_six (P := fun bits => bits? (symbol bits) = some bits) (by decide) h

theorem symbol_ne_padding {bits : UInt8} (h : bits < 64) : symbol bits ≠ padding :=
  forall_six (P := fun bits => symbol bits ≠ padding) (by decide) h

theorem symbol_lt {bits : UInt8} (h : bits < 64) : (symbol bits).toNat < 128 :=
  forall_six (P := fun bits => (symbol bits).toNat < 128) (by decide) h

/-! ## Six bits and eight bits -/

/-- Bytes with the same bits are equal. -/
theorem eq_of_getLsbD {a b : UInt8}
    (h : ∀ i < 8, a.toBitVec.getLsbD i = b.toBitVec.getLsbD i) : a = b :=
  UInt8.toBitVec_inj.mp (BitVec.eq_of_getLsbD_eq h)

theorem first_of_sixes (a b : UInt8) :
    (a >>> 2) <<< 2 ||| ((a &&& 3) <<< 4 ||| b >>> 4) >>> 4 = a := by
  apply eq_of_getLsbD
  intro i hi
  interval_cases i <;> simp

theorem second_of_sixes (a b c : UInt8) :
    ((a &&& 3) <<< 4 ||| b >>> 4) <<< 4 ||| ((b &&& 15) <<< 2 ||| c >>> 6) >>> 2 = b := by
  apply eq_of_getLsbD
  intro i hi
  interval_cases i <;> simp

theorem third_of_sixes (b c : UInt8) :
    ((b &&& 15) <<< 2 ||| c >>> 6) <<< 6 ||| (c &&& 63) = c := by
  apply eq_of_getLsbD
  intro i hi
  interval_cases i <;> simp

/-- Regrouping and back; the induction is on whole groups of three bytes. -/
theorem eights_sixes (bytes : List UInt8) : eights (sixes bytes) = bytes := by
  induction bytes using sixes.induct with
  | case1 => rfl
  | case2 a =>
    have ha := first_of_sixes a 0
    simp only [UInt8.zero_shiftRight, UInt8.or_zero] at ha
    simp only [sixes, eights, ha]
  | case3 a b =>
    have ha := first_of_sixes a b
    have hb := second_of_sixes a b 0
    simp only [UInt8.zero_shiftRight, UInt8.or_zero] at hb
    simp only [sixes, eights, ha, hb]
  | case4 a b c rest ih =>
    simp only [sixes, eights, first_of_sixes, second_of_sixes, third_of_sixes, ih]

/-- Six bits are those that nothing is left of after a shift by six. -/
theorem lt_of_shift {bits : UInt8} (h : bits >>> 6 = 0) : bits < 64 := by
  have hdiv : bits.toNat / 64 = 0 := by
    have hnat := congrArg UInt8.toNat h
    simpa [Nat.shiftRight_eq_div_pow] using hnat
  exact UInt8.lt_iff_toNat_lt.mpr (by simp; omega)

theorem high_lt (a : UInt8) : a >>> 2 < 64 := by
  apply lt_of_shift
  apply eq_of_getLsbD
  intro i hi
  interval_cases i <;> simp

theorem low_lt (a b : UInt8) : (a &&& 3) <<< 4 ||| b >>> 4 < 64 := by
  apply lt_of_shift
  apply eq_of_getLsbD
  intro i hi
  interval_cases i <;> simp

theorem middle_lt (b c : UInt8) : (b &&& 15) <<< 2 ||| c >>> 6 < 64 := by
  apply lt_of_shift
  apply eq_of_getLsbD
  intro i hi
  interval_cases i <;> simp

theorem last_lt (c : UInt8) : c &&& 63 < 64 := by
  apply lt_of_shift
  apply eq_of_getLsbD
  intro i hi
  interval_cases i <;> simp

/-- Groups of six bits are below 64. -/
theorem sixes_lt (bytes : List UInt8) : ∀ bits ∈ sixes bytes, bits < 64 := by
  induction bytes using sixes.induct with
  | case1 => simp [sixes]
  | case2 a =>
    have hlow := low_lt a 0
    simp only [UInt8.zero_shiftRight, UInt8.or_zero] at hlow
    simp [sixes, high_lt, hlow]
  | case3 a b =>
    have hmiddle := middle_lt b 0
    simp only [UInt8.zero_shiftRight, UInt8.or_zero] at hmiddle
    simp [sixes, high_lt, low_lt, hmiddle]
  | case4 a b c rest ih =>
    simp only [sixes, List.forall_mem_cons]
    exact ⟨high_lt a, low_lt a b, middle_lt b c, last_lt c, ih⟩

/-- Four symbols are as much as three bytes, and what is left over is two or three
symbols. -/
theorem length_sixes (bytes : List UInt8) :
    (sixes bytes).length = (4 * bytes.length + 2) / 3 := by
  induction bytes using sixes.induct with
  | case1 => rfl
  | case2 a => simp [sixes]
  | case3 a b => simp [sixes]
  | case4 a b c rest ih =>
    simp only [sixes, List.length_cons, ih]
    omega

/-- Four more groups leave the last one as it was. -/
theorem unusedBits_add_four (count : Nat) (last : UInt8) :
    unusedBits (count + 4) last = unusedBits count last := by
  simp [unusedBits]

/-- The last group fills whole bytes. -/
theorem unusedBits_sixes (bytes : List UInt8) {last : UInt8}
    (h : (sixes bytes).getLast? = some last) : unusedBits (sixes bytes).length last = 0 := by
  induction bytes using sixes.induct with
  | case1 => simp [sixes] at h
  | case2 a =>
    have hlast : ((a &&& 3) <<< 4) &&& 15 = 0 := by
      apply eq_of_getLsbD
      intro i hi
      interval_cases i <;> simp
    simp only [sixes, List.getLast?_cons_cons, List.getLast?_singleton, Option.some.injEq] at h
    rw [← h]
    simpa [unusedBits, sixes] using hlast
  | case3 a b =>
    have hlast : ((b &&& 15) <<< 2) &&& 3 = 0 := by
      apply eq_of_getLsbD
      intro i hi
      interval_cases i <;> simp
    simp only [sixes, List.getLast?_cons_cons, List.getLast?_singleton, Option.some.injEq] at h
    rw [← h]
    simpa [unusedBits, sixes] using hlast
  | case4 a b c rest ih =>
    simp only [sixes, List.length_cons]
    rw [show (sixes rest).length + 1 + 1 + 1 + 1 = (sixes rest).length + 4 from rfl,
      unusedBits_add_four]
    cases hrest : sixes rest with
    | nil => rfl
    | cons first more =>
      rw [← hrest]
      apply ih
      rw [← h]
      simp [sixes, hrest]

/-! ## Texts as bytes -/

theorem toList_loop (array : ByteArray) (i : Nat) (read : List UInt8) :
    ByteArray.toList.loop array i read = read.reverse ++ array.data.toList.drop i := by
  induction hleft : array.size - i generalizing i read with
  | zero =>
    rw [ByteArray.toList.loop, if_neg (by omega), List.drop_of_length_le, List.append_nil]
    show array.size ≤ i
    omega
  | succ left ih =>
    have hlt : i < array.data.toList.length := by
      show i < array.size
      omega
    have hget : array.get! i = array.data.toList[i] := by
      show array.data[i]! = _
      rw [getElem!_pos array.data i hlt]
      simp
    rw [ByteArray.toList.loop, if_pos (by omega), ih _ _ (by omega), hget,
      List.drop_eq_getElem_cons hlt]
    simp

theorem toList_toByteArray (bytes : List UInt8) : bytes.toByteArray.toList = bytes := by
  rw [ByteArray.toList, toList_loop, List.toList_data_toByteArray]
  rfl

theorem utf8EncodeChar_ofNat :
    ∀ n < 128, String.utf8EncodeChar (Char.ofNat n) = [UInt8.ofNat n] := by
  decide

/-- A text of characters below 128 has one byte for each. -/
theorem toList_toUTF8_ofList {bytes : List UInt8} (h : ∀ byte ∈ bytes, byte.toNat < 128) :
    (String.ofList (bytes.map fun byte => Char.ofNat byte.toNat)).toUTF8.toList = bytes := by
  rw [String.toUTF8_eq_toByteArray, String.toByteArray_ofList, List.utf8Encode,
    toList_toByteArray]
  induction bytes with
  | nil => rfl
  | cons byte bytes ih =>
    rw [List.forall_mem_cons] at h
    rw [List.map_cons, List.flatMap_cons, utf8EncodeChar_ofNat _ h.1, ih h.2]
    simp

/-- The bytes of a text that was written are its symbols. -/
theorem toList_toUTF8_encode (bytes : List UInt8) :
    (encode bytes).toUTF8.toList = (sixes bytes).map symbol := by
  have hmap : (sixes bytes).map (fun bits => Char.ofNat (symbol bits).toNat) =
      ((sixes bytes).map symbol).map fun byte => Char.ofNat byte.toNat := by
    simp
  rw [encode, hmap, toList_toUTF8_ofList]
  intro byte hbyte
  obtain ⟨bits, hbits, rfl⟩ := List.mem_map.mp hbyte
  exact symbol_lt (sixes_lt bytes bits hbits)

/-! ## The checks of a reader -/

theorem checkLength_symbols {bits : List UInt8} (hlength : bits.length % 4 ≠ 1) :
    checkLength (bits.map symbol) = .ok () := by
  unfold checkLength
  split
  · simp [hlength]
  · rfl

section Checks

variable {bits : List UInt8} (h : ∀ b ∈ bits, b < 64)

include h

theorem checkSymbols_symbols (offset : Nat) : checkSymbols offset (bits.map symbol) = .ok () := by
  induction bits generalizing offset with
  | nil => rfl
  | cons b bits ih =>
    rw [List.forall_mem_cons] at h
    simp [checkSymbols, bits?_symbol h.1, ih h.2]

theorem checkTail_symbols (start i : Nat) :
    checkTail start i none (bits.map symbol) = .ok false := by
  induction bits generalizing i with
  | nil => rfl
  | cons b bits ih =>
    rw [List.forall_mem_cons] at h
    simp [checkTail, symbol_ne_padding h.1, bits?_symbol h.1, ih h.2]

theorem filterMap_symbols : (bits.map symbol).filterMap bits? = bits := by
  induction bits with
  | nil => rfl
  | cons b bits ih =>
    rw [List.forall_mem_cons] at h
    simp [bits?_symbol h.1, ih h.2]

end Checks

/-- Reading gives back the bytes that were written. -/
theorem decode_encode (bytes : List UInt8) : decode (encode bytes) = .ok bytes := by
  have hlt := sixes_lt bytes
  have hlength : (sixes bytes).length % 4 ≠ 1 := by
    rw [length_sixes]
    omega
  have hunused : checkUnused ((sixes bytes).map symbol) (sixes bytes) = .ok () := by
    unfold checkUnused
    split
    · rename_i hlast
      simp [unusedBits_sixes bytes hlast]
    · rfl
  have hprefix : ∀ count, checkSymbols 0 (((sixes bytes).map symbol).take count) = .ok () := by
    intro count
    rw [← List.map_take]
    exact checkSymbols_symbols (fun b hb => hlt b (List.mem_of_mem_take hb)) 0
  have hrest : ∀ count, checkTail count 0 none (((sixes bytes).map symbol).drop count) =
      .ok false := by
    intro count
    rw [← List.map_drop]
    exact checkTail_symbols (fun b hb => hlt b (List.mem_of_mem_drop hb)) count 0
  unfold decode
  rw [toList_toUTF8_encode]
  simp only [checkLength_symbols hlength, hprefix, hrest, filterMap_symbols hlt, hunused,
    eights_sixes, bind, Except.bind, pure, Except.pure]
  rfl

end Shardwise.Base64Url
