import Mathlib.Tactic.Ring
import Shardwise.Proofs.Code.Base64Url
import Shardwise.Proofs.Code.Scramble

/-!
# Codes can be read back

`Code.decode_of_encode` says that a code gives back the number that it was made
of, so different numbers have different codes of the same width.  Three layers
undo each other, each on its own: scrambling (`Scramble.unscramble_scramble`), the
bytes of a word (`Code.wordOfBytes_bytesOfWord`) and the URL-safe alphabet.
-/

namespace Shardwise

/-! ## The bytes of a word -/

namespace Code

/-- A word with one more byte at its low end. -/
def push (word : UInt64) (byte : UInt8) : UInt64 := word <<< 8 ||| byte.toUInt64

theorem toNat_push (word : UInt64) (byte : UInt8) :
    (push word byte).toNat = (word.toNat * 256 + byte.toNat) % 2 ^ 64 := by
  have hbyte : byte.toNat < 2 ^ 8 := byte.toNat_lt
  have hshift : (word <<< 8).toNat = (word.toNat % 2 ^ 56) <<< 8 := by
    have hmod : (8 : UInt64).toNat % 64 = 8 := by decide
    rw [UInt64.toNat_shiftLeft, hmod, Nat.shiftLeft_eq, Nat.shiftLeft_eq]
    omega
  rw [push, UInt64.toNat_or, hshift, UInt8.toNat_toUInt64,
    ← Nat.shiftLeft_add_eq_or_of_lt hbyte, Nat.shiftLeft_eq]
  omega

/-- The byte of a word at some place, counted from the low end. -/
theorem toNat_byteAt (word : UInt64) {place : Nat} (hplace : place < 8) :
    (word >>> (8 * UInt64.ofNat place)).toUInt8.toNat = word.toNat / 256 ^ place % 256 := by
  have hamount : (8 * UInt64.ofNat place).toNat % 64 = 8 * place := by
    have height : (8 : UInt64).toNat = 8 := by decide
    rw [UInt64.toNat_mul, UInt64.toNat_ofNat', height]
    omega
  rw [UInt64.toNat_toUInt8, UInt64.toNat_shiftRight, hamount, Nat.shiftRight_eq_div_pow,
    Nat.pow_mul]

/-- The bytes of a word are pushed one after the other. -/
theorem foldl_bytesOfWord (word start : UInt64) {count : Nat} (hcount : count ≤ 8) :
    ((bytesOfWord word count).foldl push start).toNat =
      (start.toNat * 256 ^ count + word.toNat % 256 ^ count) % 2 ^ 64 := by
  induction count generalizing start with
  | zero =>
    simp [bytesOfWord, Nat.mod_one]
  | succ count ih =>
    rw [bytesOfWord, List.foldl_cons, ih _ (by omega), toNat_push,
      toNat_byteAt word (by omega)]
    have hlow : word.toNat % 256 ^ (count + 1) =
        word.toNat / 256 ^ count % 256 * 256 ^ count + word.toNat % 256 ^ count := by
      rw [Nat.pow_succ, Nat.mod_mul, Nat.add_comm, Nat.mul_comm (256 ^ count)]
    rw [hlow, Nat.pow_succ, Nat.add_mod, Nat.mod_mul_mod, ← Nat.add_mod]
    congr 1
    ring

/-- A word that fits its bytes is what its bytes make up. -/
theorem wordOfBytes_bytesOfWord {word : UInt64} {count : Nat} (hcount : count ≤ 8)
    (h : word.toNat < 256 ^ count) : wordOfBytes (bytesOfWord word count) = word := by
  apply UInt64.toNat.inj
  show ((bytesOfWord word count).foldl push 0).toNat = word.toNat
  rw [foldl_bytesOfWord word 0 hcount, Nat.mod_eq_of_lt h]
  simp

theorem length_bytesOfWord (word : UInt64) (count : Nat) :
    (bytesOfWord word count).length = count := by
  induction count with
  | zero => rfl
  | succ count ih => rw [bytesOfWord, List.length_cons, ih]

/-! ## Codes -/

/-- A scrambled number has no more bits than its width. -/
theorem scramble_lt (width : CodeWidth) (number : UInt64) :
    (Scramble.scramble width.maxNumber number).toNat < 256 ^ width.bytes := by
  have hmask := toNat_maxNumber width
  have hpos : 0 < 2 ^ (8 * width.bytes) := Nat.two_pow_pos _
  have hpow : 256 ^ width.bytes = 2 ^ (8 * width.bytes) := by
    rw [Nat.pow_mul]
  unfold Scramble.scramble
  rw [hpow, UInt64.toNat_xor]
  apply Nat.xor_lt_two_pow
  · rw [Scramble.toNat_and_mask hmask]
    exact Nat.mod_lt _ hpos
  · rw [Scramble.toNat_and_mask hmask]
    exact Nat.mod_lt _ hpos

/-- A code gives back its number. -/
theorem decode_of_encode {number : UInt64} {width : CodeWidth} {code : String}
    (h : encode number width = .ok code) : decode code width = .ok number := by
  unfold encode at h
  split at h
  · rename_i hfits
    cases h
    have hwidth := bytes_le width
    unfold decode
    rw [Base64Url.decode_encode]
    dsimp only
    rw [length_bytesOfWord, beq_self_eq_true, if_pos rfl,
      wordOfBytes_bytesOfWord hwidth (scramble_lt width number),
      Scramble.unscramble_scramble (by omega) (toNat_maxNumber width) hfits]
  · cases h

end Code

end Shardwise
