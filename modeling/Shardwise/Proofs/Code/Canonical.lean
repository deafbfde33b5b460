import Shardwise.Proofs.Code.Base64Url

/-!
# One text for each list of bytes

`encode_of_decode` is the other half of the round trip: a text that can be read is
what its bytes are written as, so nothing else is read as the same bytes.
`IsText` says which texts are written at all, looking at their characters alone;
`isText_encode` and `IsText.exists_encode` are its two directions.

* `alphabet` has the characters in the order of the six bits that they stand for;
* `sixes_eights` regroups six bits as bytes and back, which takes what a reader
  checks: no group left over and no unused bit set;
* `groups_of_decode` collects what a reader has checked.
-/

namespace Shardwise.Base64Url

/-! ## The alphabet -/

/-- The URL-safe alphabet.  A character stands for the six bits that count its
place. -/
def alphabet : List Char :=
  "ABCDEFGHIJKLMNOPQRSTUVWXYZabcdefghijklmnopqrstuvwxyz0123456789-_".toList

/-- The character of six bits. -/
def character (bits : UInt8) : Char := Char.ofNat (symbol bits).toNat

/-- The alphabet has the characters of all six bits, in their order. -/
theorem alphabet_eq : alphabet = (List.range 64).map fun n => character (UInt8.ofNat n) := by
  decide

theorem idxOf_character {bits : UInt8} (h : bits < 64) :
    alphabet.idxOf (character bits) = bits.toNat :=
  forall_six (P := fun bits => alphabet.idxOf (character bits) = bits.toNat) (by decide) h

/-- A character is of the alphabet if it is that of some six bits. -/
theorem mem_alphabet_iff {c : Char} : c ∈ alphabet ↔ ∃ bits < 64, character bits = c := by
  rw [alphabet_eq, List.mem_map]
  constructor
  · rintro ⟨n, hn, rfl⟩
    have hlt : n < 64 := List.mem_range.mp hn
    refine ⟨UInt8.ofNat n, ?_, rfl⟩
    have hsize : n < UInt8.size := Nat.lt_trans hlt (by decide)
    rw [UInt8.lt_iff_toNat_lt, UInt8.toNat_ofNat_of_lt' hsize]
    exact hlt
  · rintro ⟨bits, hlt, rfl⟩
    exact ⟨bits.toNat, List.mem_range.mpr hlt, by rw [UInt8.ofNat_toNat]⟩

/-- The six bits of a character. -/
def place (c : Char) : UInt8 := UInt8.ofNat (alphabet.idxOf c)

theorem place_character {bits : UInt8} (h : bits < 64) : place (character bits) = bits := by
  rw [place, idxOf_character h, UInt8.ofNat_toNat]

/-- A symbol has six bits, and they have no other symbol. -/
theorem symbol_of_bits? {byte bits : UInt8} (h : bits? byte = some bits) :
    bits < 64 ∧ symbol bits = byte := by
  have hall : ∀ n < 256, ∀ bits ∈ bits? (UInt8.ofNat n),
      bits < 64 ∧ symbol bits = UInt8.ofNat n := by decide +kernel
  have hbyte := hall byte.toNat byte.toNat_lt
  rw [UInt8.ofNat_toNat] at hbyte
  exact hbyte bits h

/-! ## Six bits and eight bits -/

section Groups

variable {a b c d : UInt8}

/-- The two high bits of a byte are not among the six low ones. -/
theorem high_bits {bits : UInt8} (h : bits < 64) :
    bits.toBitVec[6] = false ∧ bits.toBitVec[7] = false :=
  forall_six (P := fun bits => bits.toBitVec[6] = false ∧ bits.toBitVec[7] = false)
    (by decide) h

theorem first_of_eights (ha : a < 64) (hb : b < 64) : (a <<< 2 ||| b >>> 4) >>> 2 = a := by
  obtain ⟨ha6, ha7⟩ := high_bits ha
  obtain ⟨hb6, hb7⟩ := high_bits hb
  apply eq_of_getLsbD
  intro i hi
  interval_cases i <;> simp [ha6, ha7, hb6, hb7]

theorem second_of_eights (hb : b < 64) (hc : c < 64) :
    ((a <<< 2 ||| b >>> 4) &&& 3) <<< 4 ||| (b <<< 4 ||| c >>> 2) >>> 4 = b := by
  obtain ⟨hb6, hb7⟩ := high_bits hb
  obtain ⟨hc6, hc7⟩ := high_bits hc
  apply eq_of_getLsbD
  intro i hi
  interval_cases i <;> simp [hb6, hb7, hc6, hc7]

theorem third_of_eights (hc : c < 64) (hd : d < 64) :
    ((b <<< 4 ||| c >>> 2) &&& 15) <<< 2 ||| (c <<< 6 ||| d) >>> 6 = c := by
  obtain ⟨hc6, hc7⟩ := high_bits hc
  obtain ⟨hd6, hd7⟩ := high_bits hd
  apply eq_of_getLsbD
  intro i hi
  interval_cases i <;> simp [hc6, hc7, hd6, hd7]

theorem fourth_of_eights (hd : d < 64) : (c <<< 6 ||| d) &&& 63 = d := by
  obtain ⟨hd6, hd7⟩ := high_bits hd
  apply eq_of_getLsbD
  intro i hi
  interval_cases i <;> simp [hd6, hd7]

/-- Of two groups, the last one has its four low bits unused. -/
theorem last_of_two (hb : b < 64) (hunused : b &&& 15 = 0) :
    ((a <<< 2 ||| b >>> 4) &&& 3) <<< 4 = b := by
  have hlow : (b <<< 4 ||| (0 : UInt8) >>> 2) >>> 4 = b &&& 15 := by
    apply eq_of_getLsbD
    intro i hi
    interval_cases i <;> simp
  have hgroup := second_of_eights (a := a) hb (c := 0) (by decide)
  rwa [hlow, hunused, UInt8.or_zero] at hgroup

/-- Of three groups, the last one has its two low bits unused. -/
theorem last_of_three (hc : c < 64) (hunused : c &&& 3 = 0) :
    ((b <<< 4 ||| c >>> 2) &&& 15) <<< 2 = c := by
  have hlow : (c <<< 6 ||| (0 : UInt8)) >>> 6 = c &&& 3 := by
    apply eq_of_getLsbD
    intro i hi
    interval_cases i <;> simp
  have hgroup := third_of_eights (b := b) hc (d := 0) (by decide)
  rwa [hlow, hunused, UInt8.or_zero] at hgroup

end Groups

/-- Groups that fill whole bytes come back from them.  One group left over would
fill no byte, and bits that fill no byte are dropped, so they must be zero. -/
theorem sixes_eights {groups : List UInt8} (hlt : ∀ bits ∈ groups, bits < 64)
    (hlength : groups.length % 4 ≠ 1)
    (hunused : ∀ last, groups.getLast? = some last → unusedBits groups.length last = 0) :
    sixes (eights groups) = groups := by
  induction groups using eights.induct with
  | case1 a b c d rest ih =>
    simp only [List.forall_mem_cons] at hlt
    obtain ⟨ha, hb, hc, hd, hrest⟩ := hlt
    simp only [List.length_cons] at hlength
    have hleft : ∀ last, rest.getLast? = some last → unusedBits rest.length last = 0 := by
      intro last hlast
      rw [← unusedBits_add_four]
      apply hunused
      cases rest with
      | nil => cases hlast
      | cons first more => simpa using hlast
    rw [eights, sixes, first_of_eights ha hb, second_of_eights hb hc, third_of_eights hc hd,
      fourth_of_eights hd, ih hrest (by omega) hleft]
  | case2 a b c =>
    simp only [List.forall_mem_cons] at hlt
    obtain ⟨ha, hb, hc, -⟩ := hlt
    have hlow : c &&& 3 = 0 := hunused c rfl
    rw [eights, sixes, first_of_eights ha hb, second_of_eights hb hc, last_of_three hc hlow]
  | case3 a b =>
    simp only [List.forall_mem_cons] at hlt
    obtain ⟨ha, hb, -⟩ := hlt
    have hlow : b &&& 15 = 0 := hunused b rfl
    rw [eights, sixes, first_of_eights ha hb, last_of_two hb hlow]
  | case4 groups hfour hthree htwo =>
    rcases groups with _ | ⟨a, _ | ⟨b, _ | ⟨c, _ | ⟨d, rest⟩⟩⟩⟩
    · rfl
    · exact absurd rfl hlength
    · exact (htwo a b rfl).elim
    · exact (hthree a b c rfl).elim
    · exact (hfour a b c d rest rfl).elim

/-! ## What a reader has checked -/

/-- A text of some length is not one symbol more than whole groups. -/
theorem checkLength_eq_ok {bytes : List UInt8} (h : checkLength bytes = .ok ()) :
    bytes.length % 4 ≠ 1 := by
  unfold checkLength at h
  split at h
  · split at h
    · rename_i hcount
      simpa using hcount
    · split at h <;> cases h
  · rename_i hnone
    rw [List.getLast?_eq_none_iff.mp hnone]
    decide

theorem checkSymbols_eq_ok {offset : Nat} {bytes : List UInt8}
    (h : checkSymbols offset bytes = .ok ()) : ∀ byte ∈ bytes, (bits? byte).isSome := by
  induction bytes generalizing offset with
  | nil => simp
  | cons byte bytes ih =>
    rw [checkSymbols] at h
    split at h
    · rename_i hbyte
      rw [List.forall_mem_cons]
      exact ⟨hbyte, ih h⟩
    · cases h

/-- A tail without padding is all symbols.  Padding that was seen is never
forgotten. -/
theorem checkTail_eq_ok {start i : Nat} {padded : Option Nat} {bytes : List UInt8}
    (h : checkTail start i padded bytes = .ok false) :
    padded = none ∧ ∀ byte ∈ bytes, (bits? byte).isSome := by
  induction bytes generalizing i padded with
  | nil =>
    rw [checkTail, Except.ok.injEq] at h
    simpa using h
  | cons byte bytes ih =>
    rw [checkTail.eq_def] at h
    dsimp only at h
    split at h
    · split at h
      · cases h
      · have hnone := (ih h).1
        cases padded <;> cases hnone
    · split at h
      · cases h
      · split at h
        · rename_i hbyte
          rw [List.forall_mem_cons]
          exact ⟨rfl, hbyte, (ih h).2⟩
        · cases h

theorem checkUnused_eq_ok {bytes groups : List UInt8} (hlength : bytes.length = groups.length)
    (h : checkUnused bytes groups = .ok ()) :
    ∀ last, groups.getLast? = some last → unusedBits groups.length last = 0 := by
  intro last hlast
  have hne : bytes ≠ [] := by
    intro hnil
    rw [hnil, List.length_nil, eq_comm, List.length_eq_zero_iff] at hlength
    rw [hlength] at hlast
    cases hlast
  unfold checkUnused at h
  rw [List.getLast?_eq_some_getLast hne, hlast] at h
  dsimp only at h
  split at h
  · rename_i hzero
    simpa using hzero
  · cases h

/-- Symbols are the symbols of their bits. -/
theorem map_symbol_filterMap {bytes : List UInt8} (h : ∀ byte ∈ bytes, (bits? byte).isSome) :
    (bytes.filterMap bits?).map symbol = bytes := by
  induction bytes with
  | nil => rfl
  | cons byte bytes ih =>
    rw [List.forall_mem_cons] at h
    obtain ⟨bits, hbits⟩ := Option.isSome_iff_exists.mp h.1
    rw [List.filterMap_cons_some hbits, List.map_cons, (symbol_of_bits? hbits).2, ih h.2]

/-! ## Whole texts -/

/-- Texts of the same bytes are the same. -/
theorem eq_of_toUTF8 {text other : String} (h : text.toUTF8.toList = other.toUTF8.toList) :
    text = other := by
  apply String.toByteArray_inj.mp
  apply ByteArray.ext
  apply Array.toList_inj.mp
  simpa [ByteArray.toList, toList_loop] using h

theorem toList_encode (bytes : List UInt8) :
    (encode bytes).toList = (sixes bytes).map character := String.toList_ofList

/-- A text that can be read is symbols alone, and their bits fill its bytes. -/
theorem groups_of_decode {text : String} {bytes : List UInt8} (h : decode text = .ok bytes) :
    ∃ groups, groups.map symbol = text.toUTF8.toList ∧ sixes (eights groups) = groups ∧
      bytes = eights groups := by
  unfold decode at h
  simp only [bind, Except.bind, pure, Except.pure] at h
  generalize text.toUTF8.toList = read at h ⊢
  split at h
  · cases h
  rename_i hcount
  split at h
  · cases h
  rename_i hstart
  split at h
  · cases h
  rename_i padded htail
  split at h
  · cases h
  rename_i hpadded
  split at h
  · cases h
  rename_i hfilled
  cases h
  have hnone : padded = false := by simpa using hpadded
  rw [hnone] at htail
  have hsymbols : ∀ byte ∈ read, (bits? byte).isSome := by
    intro byte hbyte
    rw [← List.take_append_drop ((read.length - 1) / 8 * 8) read] at hbyte
    rcases List.mem_append.mp hbyte with hfirst | hrest
    · exact checkSymbols_eq_ok hstart byte hfirst
    · exact (checkTail_eq_ok htail).2 byte hrest
  have hmap := map_symbol_filterMap hsymbols
  have hlength : read.length = (read.filterMap bits?).length := by
    have hmapped := congrArg List.length hmap
    rw [List.length_map] at hmapped
    exact hmapped.symm
  have hlt : ∀ bits ∈ read.filterMap bits?, bits < 64 := by
    intro bits hbits
    obtain ⟨byte, -, hbyte⟩ := List.mem_filterMap.mp hbits
    exact (symbol_of_bits? hbyte).1
  have hwhole : (read.filterMap bits?).length % 4 ≠ 1 := by
    rw [← hlength]
    exact checkLength_eq_ok hcount
  exact ⟨_, hmap, sixes_eights hlt hwhole (checkUnused_eq_ok hlength hfilled), rfl⟩

/-- A text that can be read is what its bytes are written as. -/
theorem encode_of_decode {text : String} {bytes : List UInt8} (h : decode text = .ok bytes) :
    encode bytes = text := by
  obtain ⟨groups, hmap, hgroups, rfl⟩ := groups_of_decode h
  apply eq_of_toUTF8
  rw [toList_toUTF8_encode, hgroups, hmap]

/-! ## The texts that are written -/

/-- What can stand for bytes: characters of the alphabet, not one more than whole
groups of four, and no bit of the last one that fills no byte. -/
structure IsText (text : String) : Prop where
  /-- There is nothing else than the alphabet. -/
  chars : ∀ c ∈ text.toList, c ∈ alphabet
  /-- Six bits are not a byte. -/
  whole : text.length % 4 ≠ 1
  /-- The bits left over are the low ones of the last character. -/
  spare : ∀ c, text.toList.getLast? = some c → 2 ^ (6 * text.length % 8) ∣ alphabet.idxOf c

theorem unusedBits_eq_zero_iff {count : Nat} (hcount : count % 4 ≠ 1) (last : UInt8) :
    unusedBits count last = 0 ↔ 2 ^ (6 * count % 8) ∣ last.toNat := by
  have hlow : ∀ k : Nat, ∀ mask : UInt8, mask.toNat = 2 ^ k - 1 →
      (last &&& mask = 0 ↔ 2 ^ k ∣ last.toNat) := by
    intro k mask hmask
    rw [← UInt8.toNat_inj, UInt8.toNat_and, hmask, Nat.and_two_pow_sub_one_eq_mod,
      Nat.dvd_iff_mod_eq_zero]
    rfl
  unfold unusedBits
  have hcases : count % 4 = 0 ∨ count % 4 = 2 ∨ count % 4 = 3 := by omega
  rcases hcases with hzero | htwo | hthree
  · simp [hzero, show 6 * count % 8 = 0 by omega]
  · rw [htwo, show 6 * count % 8 = 4 by omega]
    exact hlow 4 15 rfl
  · rw [hthree, show 6 * count % 8 = 2 by omega]
    exact hlow 2 3 rfl

theorem length_encode (bytes : List UInt8) :
    (encode bytes).length = (4 * bytes.length + 2) / 3 := by
  rw [← String.length_toList, toList_encode, List.length_map, length_sixes]

theorem isText_encode (bytes : List UInt8) : IsText (encode bytes) := by
  have hlength : (encode bytes).length = (sixes bytes).length := by
    rw [length_encode, length_sixes]
  have hwhole : (encode bytes).length % 4 ≠ 1 := by
    rw [length_encode]
    omega
  refine ⟨?_, hwhole, ?_⟩
  · intro c hc
    rw [toList_encode] at hc
    obtain ⟨bits, hbits, rfl⟩ := List.mem_map.mp hc
    exact mem_alphabet_iff.mpr ⟨bits, sixes_lt bytes bits hbits, rfl⟩
  · intro c hc
    rw [toList_encode, List.getLast?_map] at hc
    obtain ⟨last, hlast, rfl⟩ := Option.map_eq_some_iff.mp hc
    have hlt := sixes_lt bytes last (List.mem_of_getLast? hlast)
    rw [idxOf_character hlt, ← unusedBits_eq_zero_iff hwhole, hlength]
    exact unusedBits_sixes bytes hlast

/-- The places of the characters are the groups that a text was written from. -/
theorem IsText.exists_encode {text : String} (htext : IsText text) :
    ∃ bytes, encode bytes = text := by
  have hchars : ∀ c ∈ text.toList,
      place c < 64 ∧ (place c).toNat = alphabet.idxOf c ∧ character (place c) = c := by
    intro c hc
    obtain ⟨bits, hlt, rfl⟩ := mem_alphabet_iff.mp (htext.chars c hc)
    rw [place_character hlt, idxOf_character hlt]
    exact ⟨hlt, rfl, rfl⟩
  let groups := text.toList.map place
  have hmap : groups.map character = text.toList := by
    show (text.toList.map place).map character = text.toList
    rw [List.map_map, List.map_congr_left (g := id), List.map_id]
    intro c hc
    exact (hchars c hc).2.2
  have hlength : groups.length = text.length := by
    rw [List.length_map, String.length_toList]
  have hlt : ∀ bits ∈ groups, bits < 64 := by
    intro bits hbits
    obtain ⟨c, hc, rfl⟩ := List.mem_map.mp hbits
    exact (hchars c hc).1
  have hunused : ∀ last, groups.getLast? = some last → unusedBits groups.length last = 0 := by
    intro last hlast
    rw [List.getLast?_map] at hlast
    obtain ⟨c, hc, rfl⟩ := Option.map_eq_some_iff.mp hlast
    rw [hlength, unusedBits_eq_zero_iff htext.whole, (hchars c (List.mem_of_getLast? hc)).2.1]
    exact htext.spare c hc
  have hwhole : groups.length % 4 ≠ 1 := by
    rw [hlength]
    exact htext.whole
  refine ⟨eights groups, ?_⟩
  rw [← String.toList_inj, toList_encode, sixes_eights hlt hwhole hunused, hmap]

end Shardwise.Base64Url
