import Mathlib.Data.Set.Function
import Shardwise.Proofs.Code.Canonical
import Shardwise.Proofs.Code.RoundTrip

/-!
# Numbers and codes are each other's

`Code.bijective` says that the numbers of a width and the codes of that width
are in bijection, and that reading is the inverse of writing: whatever is no code
is refused, and so is whatever number needs more bits.

`Code.decode_of_encode` is one direction.  The other one, `Code.encode_of_decode`,
goes down the same three layers: bytes have one text
(`Base64Url.encode_of_decode`), a word has one list of bytes
(`Code.bytesOfWord_wordOfBytes`), and scrambling undoes unscrambling
(`Scramble.scramble_unscramble`).
-/

namespace Shardwise

/-! ## Scrambling -/

namespace Scramble

/-- Unscrambling a word within the mask can be undone. -/
theorem scramble_unscramble {k : Nat} (hk : k ≤ 64) {mask : UInt64}
    (hmask : mask.toNat = 2 ^ k - 1) {word : UInt64} (h : word ≤ mask) :
    scramble mask (unscramble mask word) = word := by
  have hxor : word ^^^ (flipped &&& mask) ≤ mask := by
    rw [le_mask_iff hmask, UInt64.toNat_xor]
    apply Nat.xor_lt_two_pow
    · exact (le_mask_iff hmask word).mp h
    · exact (le_mask_iff hmask _).mp UInt64.and_le_right
  have hinverse : inverse multiplier * multiplier = 1 := by
    rw [UInt64.mul_comm, multiplier_mul_inverse]
  unfold scramble unscramble
  rw [mul_masked_cancel hk hmask hinverse hxor, UInt64.xor_assoc, UInt64.xor_self,
    UInt64.xor_zero]

theorem unscramble_le (mask word : UInt64) : unscramble mask word ≤ mask :=
  UInt64.and_le_right

end Scramble

/-! ## The bytes of a word -/

namespace Code

/-- Bytes that are pushed move what was there up by as many places. -/
theorem toNat_foldl_push (bytes : List UInt8) (start : UInt64) :
    ∃ low < 256 ^ bytes.length, (bytes.foldl push start).toNat =
      (start.toNat * 256 ^ bytes.length + low) % 2 ^ 64 := by
  induction bytes generalizing start with
  | nil =>
    refine ⟨0, by simp, ?_⟩
    rw [List.foldl_nil, List.length_nil, Nat.pow_zero, Nat.mul_one, Nat.add_zero,
      Nat.mod_eq_of_lt start.toNat_lt]
  | cons byte bytes ih =>
    obtain ⟨low, hlow, hfold⟩ := ih (push start byte)
    refine ⟨byte.toNat * 256 ^ bytes.length + low, ?_, ?_⟩
    · have hbyte : byte.toNat < 256 := byte.toNat_lt
      calc byte.toNat * 256 ^ bytes.length + low
          < byte.toNat * 256 ^ bytes.length + 256 ^ bytes.length := by omega
        _ = (byte.toNat + 1) * 256 ^ bytes.length := by ring
        _ ≤ 256 * 256 ^ bytes.length := Nat.mul_le_mul_right _ hbyte
        _ = 256 ^ (byte :: bytes).length := by rw [List.length_cons, Nat.pow_succ, Nat.mul_comm]
    · rw [List.foldl_cons, hfold, toNat_push, List.length_cons, Nat.pow_succ, Nat.add_mod,
        Nat.mod_mul_mod, ← Nat.add_mod]
      congr 1
      ring

/-- Some bytes make up a word of no more bytes. -/
theorem wordOfBytes_lt (bytes : List UInt8) : (wordOfBytes bytes).toNat < 256 ^ bytes.length := by
  obtain ⟨low, hlow, hfold⟩ := toNat_foldl_push bytes 0
  have hle : (wordOfBytes bytes).toNat ≤ low := by
    show (bytes.foldl push 0).toNat ≤ low
    rw [hfold]
    simpa using Nat.mod_le low _
  omega

/-- What was there before at most seven more bytes is found above them. -/
theorem byteAt_foldl_push (bytes : List UInt8) (hlength : bytes.length < 8) (start : UInt64) :
    (bytes.foldl push start >>> (8 * UInt64.ofNat bytes.length)).toUInt8.toNat =
      start.toNat % 256 := by
  obtain ⟨low, hlow, hfold⟩ := toNat_foldl_push bytes start
  have hsplit : 2 ^ 64 = 256 ^ bytes.length * 256 ^ (8 - bytes.length) := by
    rw [← Nat.pow_add, show bytes.length + (8 - bytes.length) = 8 by omega]
    rfl
  have hdvd : 256 ∣ 256 ^ (8 - bytes.length) := dvd_pow_self 256 (by omega)
  have hpos : 0 < 256 ^ bytes.length := Nat.pow_pos (by decide)
  rw [toNat_byteAt _ hlength, hfold, hsplit, Nat.mod_mul_right_div_self, Nat.mod_mod_of_dvd _ hdvd,
    Nat.add_comm, Nat.add_mul_div_right _ _ hpos, Nat.div_eq_of_lt hlow, Nat.zero_add]

/-- The bytes that were pushed last are the low ones; the induction is on them, over
all words that they can be pushed onto. -/
theorem bytesOfWord_foldl_push (bytes : List UInt8) (hlength : bytes.length ≤ 8) (start : UInt64) :
    bytesOfWord (bytes.foldl push start) bytes.length = bytes := by
  induction bytes generalizing start with
  | nil => rfl
  | cons byte bytes ih =>
    rw [List.length_cons] at hlength
    have hhead : (bytes.foldl push (push start byte) >>>
        (8 * UInt64.ofNat bytes.length)).toUInt8 = byte := by
      apply UInt8.toNat_inj.mp
      rw [byteAt_foldl_push bytes (by omega), toNat_push]
      have hbyte : byte.toNat < 256 := byte.toNat_lt
      omega
    rw [List.foldl_cons, List.length_cons, bytesOfWord, hhead, ih (by omega)]

/-- Bytes that fit a word are what the word is written as. -/
theorem bytesOfWord_wordOfBytes {bytes : List UInt8} (hlength : bytes.length ≤ 8) :
    bytesOfWord (wordOfBytes bytes) bytes.length = bytes :=
  bytesOfWord_foldl_push bytes hlength 0

/-! ## Codes -/

/-- A number fits its width, or it needs more bits. -/
theorem encode_eq_error_iff {number : UInt64} {width : CodeWidth} {error : Error} :
    encode number width = .error error ↔
      width.maxNumber < number ∧ error = .capacityExceeded width.bits number.toNat := by
  unfold encode
  split
  · rename_i hfits
    simp [UInt64.not_lt.mpr hfits]
  · rename_i hexceeds
    simp [UInt64.not_le.mp hexceeds, eq_comm]

theorem encode_eq_ok_iff {number : UInt64} {width : CodeWidth} {code : String} :
    encode number width = .ok code ↔ number ≤ width.maxNumber ∧
      Base64Url.encode (bytesOfWord (Scramble.scramble width.maxNumber number) width.bytes) =
        code := by
  unfold encode
  split
  · rename_i hfits
    simp [hfits]
  · rename_i hexceeds
    simp [hexceeds]

/-- A number that is read fits its width, and it is written as it was read. -/
theorem encode_of_decode {number : UInt64} {width : CodeWidth} {code : String}
    (h : decode code width = .ok number) :
    number ≤ width.maxNumber ∧ encode number width = .ok code := by
  unfold decode at h
  split at h
  · cases h
  rename_i bytes hbytes
  split at h
  · rename_i hlength
    cases h
    have hlength : bytes.length = width.bytes := by simpa using hlength
    have hwidth := bytes_le width
    have hword : wordOfBytes bytes ≤ width.maxNumber := by
      rw [Scramble.le_mask_iff (toNat_maxNumber width), ← hlength, Nat.pow_mul]
      exact wordOfBytes_lt bytes
    refine ⟨Scramble.unscramble_le _ _, encode_eq_ok_iff.mpr ⟨Scramble.unscramble_le _ _, ?_⟩⟩
    rw [Scramble.scramble_unscramble (by omega) (toNat_maxNumber width) hword, ← hlength,
      bytesOfWord_wordOfBytes (by omega)]
    exact Base64Url.encode_of_decode hbytes
  · cases h

/-- Whatever cannot be read is refused as an input. -/
theorem invalidInput_of_decode {code : String} {width : CodeWidth} {error : Error}
    (h : decode code width = .error error) : ∃ message, error = .invalidInput message := by
  unfold decode at h
  split at h
  · cases h
    exact ⟨_, rfl⟩
  · split at h
    · cases h
    · cases h
      exact ⟨_, rfl⟩

/-! ## What codes look like -/

/-- The texts that are codes of a width: so many characters of the URL-safe
alphabet, of six bits each, and the low bits of the last one that are not needed are
zero. -/
structure IsCode (width : CodeWidth) (code : String) : Prop where
  /-- All codes of a width are of one length. -/
  length : code.length = width.codeLength
  /-- There is nothing else than the alphabet. -/
  chars : ∀ c ∈ code.toList, c ∈ Base64Url.alphabet
  /-- No unused bit is set. -/
  spare : ∀ c, code.toList.getLast? = some c →
    2 ^ (6 * width.codeLength - width.bits) ∣ Base64Url.alphabet.idxOf c

instance (width : CodeWidth) (code : String) : Decidable (IsCode width code) :=
  decidable_of_iff
    (code.length = width.codeLength ∧
      code.toList.all (fun c => decide (c ∈ Base64Url.alphabet)) = true ∧
      code.toList.getLast?.all (fun c =>
        decide (2 ^ (6 * width.codeLength - width.bits) ∣ Base64Url.alphabet.idxOf c)) = true)
    (by
      rw [List.all_eq_true, Option.all_eq_true]
      simp only [decide_eq_true_eq]
      exact ⟨fun ⟨length, chars, spare⟩ => ⟨length, chars, spare⟩,
        fun ⟨length, chars, spare⟩ => ⟨length, chars, spare⟩⟩)

/-- The characters of a code have the bits of its width, and fewer than a byte more. -/
theorem isCode_iff {width : CodeWidth} {code : String} :
    IsCode width code ↔ Base64Url.IsText code ∧ code.length = width.codeLength := by
  have hspare : 6 * width.codeLength - width.bits = 6 * width.codeLength % 8 := by
    cases width <;> rfl
  have hwhole : width.codeLength % 4 ≠ 1 := by cases width <;> decide
  constructor
  · rintro ⟨hlength, hchars, hlast⟩
    refine ⟨⟨hchars, hlength ▸ hwhole, ?_⟩, hlength⟩
    rw [hlength, ← hspare]
    exact hlast
  · rintro ⟨⟨hchars, -, hlast⟩, hlength⟩
    refine ⟨hlength, hchars, ?_⟩
    rw [hspare, ← hlength]
    exact hlast

-- `B` is one more than `A`, in the lowest of two unused bits.
example : IsCode .bits16 "-_A" ∧ ¬ IsCode .bits16 "-_B" ∧ ¬ IsCode .bits16 "-_A=" := by decide

/-- Codes have the bytes of their width behind them. -/
theorem length_encode_iff {width : CodeWidth} (bytes : List UInt8) :
    (Base64Url.encode bytes).length = width.codeLength ↔ bytes.length = width.bytes := by
  rw [Base64Url.length_encode]
  cases width <;> simp only [CodeWidth.codeLength, CodeWidth.bytes] <;> omega

theorem isCode_of_encode {number : UInt64} {width : CodeWidth} {code : String}
    (h : encode number width = .ok code) : IsCode width code := by
  obtain ⟨-, rfl⟩ := encode_eq_ok_iff.mp h
  rw [isCode_iff, length_encode_iff, length_bytesOfWord]
  exact ⟨Base64Url.isText_encode _, rfl⟩

/-- A code can be read. -/
theorem IsCode.exists_decode {width : CodeWidth} {code : String} (h : IsCode width code) :
    ∃ number, decode code width = .ok number := by
  obtain ⟨htext, hlength⟩ := isCode_iff.mp h
  obtain ⟨bytes, rfl⟩ := htext.exists_encode
  rw [length_encode_iff] at hlength
  refine ⟨Scramble.unscramble width.maxNumber (wordOfBytes bytes), ?_⟩
  unfold decode
  rw [Base64Url.decode_encode]
  dsimp only
  rw [hlength, beq_self_eq_true, if_pos rfl]

/-! ## The bijection -/

/-- Numbers and codes of a width are each other's. -/
structure Bijective (width : CodeWidth) : Prop where
  /-- Writing is one-to-one from the numbers of the width onto its codes. -/
  bijOn : Set.BijOn (fun number => encode number width) {number | number ≤ width.maxNumber}
    (Except.ok '' {code | IsCode width code})
  /-- Reading is the inverse of writing. -/
  inverse : ∀ number code,
    decode code width = .ok number ↔ number ≤ width.maxNumber ∧ encode number width = .ok code
  /-- A text that is no code is refused as an input. -/
  refused : ∀ code, ¬ IsCode width code →
    ∃ message, decode code width = .error (.invalidInput message)
  /-- A number that needs more bits is refused for it, and there is no other
  failure. -/
  exceeded : ∀ number error, encode number width = .error error ↔
    width.maxNumber < number ∧ error = .capacityExceeded width.bits number.toNat

/-- Every width has its bijection. -/
theorem bijective (width : CodeWidth) : Bijective width where
  bijOn := by
    refine ⟨?_, ?_, ?_⟩
    · intro number hfits
      have hcode := encode_eq_ok_iff.mpr ⟨hfits, rfl⟩
      exact ⟨_, isCode_of_encode hcode, hcode.symm⟩
    · intro number hfits other _ hsame
      have hcode := encode_eq_ok_iff.mpr ⟨hfits, rfl⟩
      have hother := hsame.symm.trans hcode
      exact Except.ok.inj ((decode_of_encode hcode).symm.trans (decode_of_encode hother))
    · rintro _ ⟨code, hcode, rfl⟩
      obtain ⟨number, hnumber⟩ := IsCode.exists_decode hcode
      exact ⟨number, encode_of_decode hnumber⟩
  inverse := by
    intro number code
    constructor
    · exact encode_of_decode
    · rintro ⟨-, hcode⟩
      exact decode_of_encode hcode
  refused := by
    intro code hcode
    cases hdecode : decode code width with
    | ok number => exact absurd (isCode_of_encode (encode_of_decode hdecode).2) hcode
    | error error =>
      obtain ⟨message, rfl⟩ := invalidInput_of_decode hdecode
      exact ⟨message, rfl⟩
  exceeded := by
    intro number error
    exact encode_eq_error_iff

end Code

end Shardwise
