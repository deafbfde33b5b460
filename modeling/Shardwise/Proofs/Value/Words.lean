import Shardwise.Value.Number

/-!
# Words

A whole number is stored as a signed or an unsigned word.  `Word` is either of them
together with the number that it stands for, and `Word.sum?` says which sums of two
words are words again.  The unsigned words among themselves have a range of their own;
as soon as one of the two is signed, both words and their sum have to fit a signed one.

* `Word.add_toValue` says that this is what an increment stores, and that it stores a
  float otherwise.
* `Word.sum?_eq_some` says that such a sum is exact, and `Word.sum?_eq_none_iff` when
  there is none although a word of some kind could hold it.
-/

namespace Shardwise

/-- A stored whole number. -/
inductive Word where
  | signed (n : Int64)
  | unsigned (n : UInt64)
deriving DecidableEq

namespace Word

/-- The value that holds a word. -/
def toValue : Word → Value
  | .signed n => .int n
  | .unsigned n => .uint n

/-- The number that a word stands for. -/
def toInt : Word → Int
  | .signed n => n.toInt
  | .unsigned n => n.toNat

/-- The nearest float. -/
def toFloat : Word → Float
  | .signed n => Value.floatOfInt64 n
  | .unsigned n => n.toFloat

/-- The word is of the unsigned kind. -/
def isUnsigned : Word → Bool
  | .signed _ => false
  | .unsigned _ => true

/-- The word that a value holds. -/
def ofValue? : Value → Option Word
  | .int n => some (.signed n)
  | .uint n => some (.unsigned n)
  | _ => none

theorem eq_toValue {value : Value} {word : Word} (h : ofValue? value = some word) :
    value = word.toValue := by
  cases value <;> cases h <;> rfl

@[simp] theorem isNumeric_toValue (word : Word) : word.toValue.isNumeric = true := by
  cases word <;> rfl

theorem neg_le_toInt (word : Word) : -0x8000000000000000 ≤ word.toInt := by
  cases word with
  | signed n => exact n.le_toInt
  | unsigned n =>
    rw [toInt]
    omega

/-- The two kinds of word, for two of them. -/
theorem eq_unsigned {a b : Word} (h : (a.isUnsigned && b.isUnsigned) = true) :
    ∃ x y, a = .unsigned x ∧ b = .unsigned y := by
  cases a with
  | signed x => cases h
  | unsigned x =>
    cases b with
    | signed y => cases h
    | unsigned y => exact ⟨x, y, rfl, rfl⟩

/-! ## Sums -/

/-- The sum of two words, if it is one. -/
def sum? (a b : Word) : Option Word :=
  if a.isUnsigned && b.isUnsigned then
    (Value.uint64OfInt? (a.toInt + b.toInt)).map .unsigned
  else if a.toInt < 0x8000000000000000 ∧ b.toInt < 0x8000000000000000 then
    (Value.int64OfInt? (a.toInt + b.toInt)).map .signed
  else none

theorem toInt_int64OfInt? {n : Int} {word : Int64} (h : Value.int64OfInt? n = some word) :
    word.toInt = n := by
  unfold Value.int64OfInt? at h
  split at h <;> cases h
  rename_i hfits
  exact Int64.toInt_ofInt_of_le hfits.1 hfits.2

theorem toNat_uint64OfInt? {n : Int} {word : UInt64} (h : Value.uint64OfInt? n = some word) :
    (word.toNat : Int) = n := by
  unfold Value.uint64OfInt? at h
  split at h <;> cases h
  rename_i hfits
  have hsize : n.toNat < UInt64.size := by
    show _ < 0x10000000000000000
    omega
  rw [UInt64.toNat_ofNat_of_lt' hsize]
  omega

theorem int64OfInt?_of_le {n : Int} (h : -0x8000000000000000 ≤ n) :
    Value.int64OfInt? n = if n < 0x8000000000000000 then some (Int64.ofInt n) else none := by
  unfold Value.int64OfInt?
  simp only [h, true_and]

theorem word?_toValue (word : Word) :
    word.toValue.word? = Value.int64OfInt? word.toInt := by
  cases word with
  | signed n =>
    have hlt : n.toInt < 0x8000000000000000 := n.toInt_lt
    rw [toInt, int64OfInt?_of_le n.le_toInt, if_pos hlt, Int64.ofInt_toInt]
    rfl
  | unsigned n => rfl

/-- Two words that are not both unsigned add up as signed ones. -/
theorem wordSum?_signed {a b : Word} (h : (a.isUnsigned && b.isUnsigned) = false) :
    Value.wordSum? a.toValue b.toValue = (do
      let x ← a.toValue.word?
      let y ← b.toValue.word?
      return .int (← Value.int64OfInt? (x.toInt + y.toInt))) := by
  cases a with
  | signed x => simp only [toValue, Value.wordSum?]
  | unsigned x =>
    cases b with
    | signed y => simp only [toValue, Value.wordSum?]
    | unsigned y => cases h

theorem wordSum?_toValue (a b : Word) :
    Value.wordSum? a.toValue b.toValue = (a.sum? b).map toValue := by
  cases hkind : a.isUnsigned && b.isUnsigned with
  | true =>
    obtain ⟨x, y, rfl, rfl⟩ := eq_unsigned hkind
    rw [sum?, hkind, if_pos rfl, toInt, toInt, ← Int.natCast_add, Option.map_map]
    rfl
  | false =>
    rw [wordSum?_signed hkind, word?_toValue, word?_toValue, sum?, hkind,
      if_neg Bool.false_ne_true, int64OfInt?_of_le a.neg_le_toInt, int64OfInt?_of_le b.neg_le_toInt]
    by_cases ha : a.toInt < 0x8000000000000000
    · by_cases hb : b.toInt < 0x8000000000000000
      · have hx : (Int64.ofInt a.toInt).toInt = a.toInt :=
          Int64.toInt_ofInt_of_le a.neg_le_toInt ha
        have hy : (Int64.ofInt b.toInt).toInt = b.toInt :=
          Int64.toInt_ofInt_of_le b.neg_le_toInt hb
        rw [if_pos ha, if_pos hb, if_pos ⟨ha, hb⟩]
        simp only [Option.bind_eq_bind, Option.bind_some, hx, hy]
        cases Value.int64OfInt? (a.toInt + b.toInt) <;> rfl
      · rw [if_pos ha, if_neg hb, if_neg fun h => hb h.2]
        rfl
    · have hnot : ¬ (a.toInt < 0x8000000000000000 ∧ b.toInt < 0x8000000000000000) :=
        fun h => ha h.1
      rw [if_neg ha, if_neg hnot]
      rfl

/-- A sum that is not widened is a word. -/
theorem eq_toValue_of_wordSum? {value delta sum : Value}
    (h : Value.wordSum? value delta = some sum) : ∃ word : Word, sum = word.toValue := by
  unfold Value.wordSum? at h
  split at h
  · obtain ⟨n, -, rfl⟩ := Option.map_eq_some_iff.mp h
    exact ⟨.unsigned n, rfl⟩
  · simp only [Option.bind_eq_bind, Option.bind_eq_some_iff] at h
    obtain ⟨x, -, y, -, n, -, heq⟩ := h
    cases heq
    exact ⟨.signed n, rfl⟩

/-- The value after an increment of a word by a word. -/
theorem add_toValue (a b : Word) (field : String) :
    a.toValue.add b.toValue field =
      .ok (((a.sum? b).map toValue).getD (.float (a.toFloat + b.toFloat))) := by
  rw [Value.add, wordSum?_toValue]
  cases a.sum? b with
  | some sum => rfl
  | none => cases a <;> cases b <;> rfl

/-- A sum that is a word is exact.  It is unsigned if both words are. -/
theorem sum?_eq_some {a b sum : Word} (h : a.sum? b = some sum) :
    sum.toInt = a.toInt + b.toInt ∧ sum.isUnsigned = (a.isUnsigned && b.isUnsigned) := by
  unfold sum? at h
  cases hkind : a.isUnsigned && b.isUnsigned with
  | true =>
    rw [hkind, if_pos rfl, Option.map_eq_some_iff] at h
    obtain ⟨word, hword, rfl⟩ := h
    exact ⟨toNat_uint64OfInt? hword, rfl⟩
  | false =>
    rw [hkind, if_neg Bool.false_ne_true] at h
    split at h
    · obtain ⟨word, hword, rfl⟩ := Option.map_eq_some_iff.mp h
      exact ⟨toInt_int64OfInt? hword, rfl⟩
    · cases h

/-- Where a word of one kind or the other could hold the sum, it is lost if one of the
words is signed, and one of them or the sum does not fit a signed word. -/
theorem sum?_eq_none_iff {a b : Word} (hlow : -0x8000000000000000 ≤ a.toInt + b.toInt)
    (hhigh : a.toInt + b.toInt < 0x10000000000000000) :
    a.sum? b = none ↔ (a.isUnsigned && b.isUnsigned) = false ∧
      (0x8000000000000000 ≤ a.toInt ∨ 0x8000000000000000 ≤ b.toInt ∨
        0x8000000000000000 ≤ a.toInt + b.toInt) := by
  unfold sum?
  cases hkind : a.isUnsigned && b.isUnsigned with
  | true =>
    obtain ⟨x, y, rfl, rfl⟩ := eq_unsigned hkind
    have hnonneg : 0 ≤ toInt (.unsigned x) + toInt (.unsigned y) := by
      simp only [toInt]
      omega
    rw [if_pos rfl, Value.uint64OfInt?, if_pos ⟨hnonneg, hhigh⟩]
    simp
  | false =>
    rw [if_neg Bool.false_ne_true, int64OfInt?_of_le hlow]
    split
    · split <;> simp <;> omega
    · simp
      omega

end Word

/-- A sum is a number. -/
theorem Value.isNumeric_of_add {value delta sum : Value} {field : String}
    (h : value.add delta field = .ok sum) : sum.isNumeric = true := by
  unfold add at h
  split at h
  · rename_i hsum
    cases h
    obtain ⟨word, rfl⟩ := Word.eq_toValue_of_wordSum? hsum
    exact word.isNumeric_toValue
  · cases hx : value.toFloat field with
    | error error =>
      rw [hx] at h
      cases h
    | ok x =>
      cases hy : delta.toFloat field with
      | error error =>
        rw [hx, hy] at h
        cases h
      | ok y =>
        rw [hx, hy] at h
        cases h
        rfl

end Shardwise
