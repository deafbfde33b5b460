import Std.Data.String.ToNat
import Shardwise.Proofs.Level
import Shardwise.Shards.Group

/-!
# Different shards have different keys

The index of a shard stands behind the last underscore of its key, so it can be
read back, and so can the level and the period in front of it.
`ShardGroup.plainKey_inj` and `counterShardKey_eq_iff` say so for the keys of one
owner in one collection, and `counterShardKey_eq_iff_start` that keys and sums go by
the same periods.  Totals come last in their order (`counterShardKey_lt_total`).

Owners are not told apart like this: where the name of one ends in the level and
the period of another, the two have a key in common.  `append_levelMark_inj` says
that keys of dated levels never are.
-/

namespace Shardwise

theorem ShardGroup.plainKey_inj {group : ShardGroup} {index other : Nat}
    (h : group.plainKey index = group.plainKey other) : index = other := by
  have hname := congrArg DocKey.name h
  simp only [ShardGroup.plainKey, shardKey, String.append_right_inj] at hname
  exact Nat.repr_injective hname

/-! ## Upper-case letters -/

/-- A text without upper-case letters. -/
def Lower (text : String) : Prop := ∀ c ∈ text.toList, ¬ c.isUpper = true

theorem Lower.append {a b : String} (ha : Lower a) (hb : Lower b) : Lower (a ++ b) := by
  intro c hc
  rw [String.toList_append] at hc
  rcases List.mem_append.mp hc with hfront | hback
  · exact ha c hfront
  · exact hb c hback

theorem isUpper_iff {c : Char} : c.isUpper = true ↔ 'A'.val ≤ c.val ∧ c.val ≤ 'Z'.val :=
  decide_eq_true_iff

/-- A digit is no upper-case letter. -/
theorem not_isUpper_of_isDigit {c : Char} (h : c.isDigit = true) : ¬ c.isUpper = true := by
  simp only [Char.isDigit, Bool.and_eq_true, decide_eq_true_eq] at h
  rw [isUpper_iff]
  simp only [ge_iff_le, UInt32.le_iff_toNat_le] at h ⊢
  rintro ⟨hlow, -⟩
  exact absurd (Nat.le_trans hlow h.2) (by decide)

theorem lower_paddedNat (width n : Nat) : Lower (Text.paddedNat width n) :=
  fun _ hc => not_isUpper_of_isDigit (Text.isDigit_of_mem_paddedNat hc)

theorem lower_padded (width : Nat) (n : Int) : Lower (Text.padded width n) := by
  intro c hc
  rcases Text.minus_or_isDigit_of_mem_padded hc with rfl | hdigit
  · decide
  · exact not_isUpper_of_isDigit hdigit

/-- Periods are written without upper-case letters. -/
theorem Level.lower_suffix {level : Level} {t : Instant} {text : String}
    (h : level.suffix? t = some text) : Lower text := by
  have hyear := lower_padded 4 t.date.year
  have hmonth := hyear.append (lower_paddedNat 2 t.date.month)
  have hday := hmonth.append (lower_paddedNat 2 t.date.day)
  cases level with
  | total => cases h
  | year => exact Option.some.inj h ▸ hyear
  | month => exact Option.some.inj h ▸ hmonth
  | day => exact Option.some.inj h ▸ hday
  | hour => exact Option.some.inj h ▸ hday.append (lower_paddedNat 2 t.hour)

/-- The name of a level starts with its only upper-case letter. -/
theorem Level.exists_name (level : Level) :
    ∃ letter rest, level.name.toList = letter :: rest ∧ letter.isUpper = true ∧
      ∀ c ∈ rest, ¬ c.isUpper = true := by
  cases level with
  | total => exact ⟨'T', "otal".toList, by decide, by decide, by simp⟩
  | year => exact ⟨'Y', "ear".toList, by decide, by decide, by simp⟩
  | month => exact ⟨'M', "onth".toList, by decide, by decide, by simp⟩
  | day => exact ⟨'D', "ay".toList, by decide, by decide, by simp⟩
  | hour => exact ⟨'H', "our".toList, by decide, by decide, by simp⟩

/-! ## Marks -/

/-- What stands between the owner and the index in the key of a counter shard. -/
def levelMark (level : Level) (t : Instant) : String :=
  ((level.suffix? t).map (level.name ++ ·)).getD ""

@[simp] theorem levelMark_total (t : Instant) : levelMark .total t = "" := rfl

theorem counterShardKey_eq (collection owner : String) (level : Level) (t : Instant)
    (index : Nat) :
    counterShardKey collection owner level t index =
      ⟨collection, owner ++ (levelMark level t ++ ("_" ++ Nat.repr index))⟩ := by
  unfold counterShardKey levelMark shardKey
  cases level.suffix? t <;> simp [String.append_assoc]

/-- Lists are cut in the same place by the last element of some kind. -/
theorem eq_of_append_cons {α : Type} {p : α → Prop} {x y : α} {front front' rest rest' : List α}
    (h : front ++ x :: rest = front' ++ y :: rest') (hx : p x) (hy : p y)
    (hrest : ∀ z ∈ rest, ¬ p z) (hrest' : ∀ z ∈ rest', ¬ p z) :
    front = front' ∧ x = y ∧ rest = rest' := by
  rcases List.append_eq_append_iff.mp h with ⟨more, hfront, hback⟩ | ⟨more, hfront, hback⟩
  · cases more with
    | nil =>
      cases hback
      exact ⟨by simp [hfront], rfl, rfl⟩
    | cons z more =>
      cases hback
      exact absurd hy (hrest y (by simp))
  · cases more with
    | nil =>
      cases hback
      exact ⟨by simp [hfront], rfl, rfl⟩
    | cons z more =>
      cases hback
      exact absurd hx (hrest' x (by simp))

/-- Behind the last underscore there are digits only. -/
theorem append_index_inj {a b : String} {index other : Nat}
    (h : a ++ ("_" ++ Nat.repr index) = b ++ ("_" ++ Nat.repr other)) :
    a = b ∧ index = other := by
  have hlist : a.toList ++ '_' :: Nat.toDigits 10 index =
      b.toList ++ '_' :: Nat.toDigits 10 other := by
    simpa using congrArg String.toList h
  have hdigits : ∀ n, ∀ c ∈ Nat.toDigits 10 n, ¬ c = '_' := by
    rintro n _ hc rfl
    exact Nat.underscore_not_in_toDigits hc
  obtain ⟨hfront, -, hback⟩ := eq_of_append_cons (p := (· = '_')) hlist rfl rfl
    (hdigits index) (hdigits other)
  refine ⟨String.toList_injective hfront, Nat.repr_injective ?_⟩
  rw [Nat.repr_eq_ofList_toDigits, hback, ← Nat.repr_eq_ofList_toDigits]

/-- The first letter of a mark is that of its level; the total has no mark. -/
theorem head?_levelMark (level : Level) (t : Instant) :
    (levelMark level t).toList.head? =
      match level with
      | .total => none
      | .year => some 'Y'
      | .month => some 'M'
      | .day => some 'D'
      | .hour => some 'H' := by
  cases level <;> simp [levelMark, Level.suffix?, Level.name]

/-- A mark starts with its only upper-case letter. -/
theorem exists_levelMark {level : Level} (h : level ≠ .total) (t : Instant) :
    ∃ letter rest, (levelMark level t).toList = letter :: rest ∧ letter.isUpper = true ∧
      ∀ c ∈ rest, ¬ c.isUpper = true := by
  cases hsuffix : level.suffix? t with
  | none => exact absurd (Level.suffix?_eq_none.mp hsuffix) h
  | some text =>
    obtain ⟨letter, rest, hname, hletter, hrest⟩ := level.exists_name
    refine ⟨letter, rest ++ text.toList, by simp [levelMark, hsuffix, hname], hletter, ?_⟩
    intro c hc
    rcases List.mem_append.mp hc with hlower | hlower
    · exact hrest c hlower
    · exact Level.lower_suffix hsuffix c hlower

/-- Behind marks of dated levels the owner can be read back. -/
theorem append_levelMark_inj {owner other : String} {level level' : Level} {t u : Instant}
    (h : owner ++ levelMark level t = other ++ levelMark level' u) (hlevel : level ≠ .total)
    (hlevel' : level' ≠ .total) : owner = other := by
  obtain ⟨letter, rest, hmark, hletter, hrest⟩ := exists_levelMark hlevel t
  obtain ⟨letter', rest', hmark', hletter', hrest'⟩ := exists_levelMark hlevel' u
  have hlist : owner.toList ++ letter :: rest = other.toList ++ letter' :: rest' := by
    rw [← hmark, ← hmark', ← String.toList_append, ← String.toList_append, h]
  exact String.toList_injective
    (eq_of_append_cons (p := (Char.isUpper · = true)) hlist hletter hletter' hrest hrest').1

theorem levelMark_inj {level other : Level} {t u : Instant}
    (h : levelMark level t = levelMark other u) : level = other ∧ level.SamePeriod t u := by
  have hlevel : level = other := by
    have hhead := congrArg (fun mark => mark.toList.head?) h
    simp only [head?_levelMark] at hhead
    cases level <;> cases other <;> first | rfl | exact absurd hhead (by decide)
  subst hlevel
  refine ⟨rfl, Level.suffix?_eq_iff.mp ?_⟩
  unfold levelMark at h
  cases ht : level.suffix? t with
  | none =>
    rw [Level.suffix?_eq_none] at ht
    exact (Level.suffix?_eq_none.mpr ht).symm
  | some text =>
    cases hu : level.suffix? u with
    | none =>
      rw [Level.suffix?_eq_none] at hu
      rw [Level.suffix?_eq_none.mpr hu] at ht
      cases ht
    | some other =>
      rw [ht, hu] at h
      exact congrArg some ((String.append_right_inj level.name).mp h)

/-- The shards of an owner have one key for each level, period and index. -/
theorem counterShardKey_eq_iff {collection owner : String} {level other : Level} {t u : Instant}
    {index i : Nat} :
    counterShardKey collection owner level t index = counterShardKey collection owner other u i ↔
      level = other ∧ level.SamePeriod t u ∧ index = i := by
  rw [counterShardKey_eq, counterShardKey_eq]
  constructor
  · intro h
    simp only [DocKey.mk.injEq, true_and, String.append_right_inj] at h
    obtain ⟨hmark, hindex⟩ := append_index_inj h
    obtain ⟨hlevel, hperiod⟩ := levelMark_inj hmark
    exact ⟨hlevel, hperiod, hindex⟩
  · rintro ⟨rfl, hperiod, rfl⟩
    rw [levelMark, levelMark, Level.suffix?_eq_iff.mpr hperiod]

/-- Keys and queries tell the same periods apart.  Two increments write to one document
of their owner exactly if level and index are the same and, below the total, their
periods begin at the same instant.  A key writes calendar fields one after the other,
of any number of digits and with a sign for some years; a query cuts an instant back to
the start of its period. -/
theorem counterShardKey_eq_iff_start {collection owner : String} {level other : Level}
    {t u : Instant} {index i : Nat} :
    counterShardKey collection owner level t index = counterShardKey collection owner other u i ↔
      level = other ∧ index = i ∧
        (level = .total ∨ ∃ begun, level.start t = .ok begun ∧ level.start u = .ok begun) := by
  rw [counterShardKey_eq_iff]
  constructor
  · rintro ⟨hlevel, hperiod, hindex⟩
    refine ⟨hlevel, hindex, ?_⟩
    by_cases htotal : level = .total
    · exact .inl htotal
    · obtain ⟨begun, hbegun, -⟩ := Level.start_eq_ok htotal t
      exact .inr ⟨begun, hbegun, hperiod.symm.trans hbegun⟩
  · rintro ⟨hlevel, hindex, rfl | ⟨begun, ht, hu⟩⟩
    · exact ⟨hlevel, rfl, hindex⟩
    · exact ⟨hlevel, ht.trans hu.symm, hindex⟩

/-- The shards of a dated level come before the totals. -/
theorem counterShardKey_lt_total (collection owner : String) {level : Level}
    (hlevel : level ≠ .total) (t u : Instant) (index other : Nat) :
    compare (counterShardKey collection owner level t index)
      (counterShardKey collection owner .total u other) = .lt := by
  obtain ⟨first, rest, hmark, hupper, -⟩ := exists_levelMark hlevel t
  have hfirst : first < '_' := UInt32.lt_of_le_of_lt (isUpper_iff.mp hupper).2 (by decide)
  have hname : owner ++ (levelMark level t ++ ("_" ++ Nat.repr index)) <
      owner ++ (levelMark .total u ++ ("_" ++ Nat.repr other)) := by
    rw [String.lt_iff]
    simp only [String.toList_append, hmark]
    refine List.append_left_lt ?_
    exact List.cons_lt_cons_iff.mpr (.inl hfirst)
  rw [counterShardKey_eq, counterShardKey_eq]
  show (compare collection collection).then (compare _ _) = .lt
  have hself : compare collection collection = .eq := Std.ReflCmp.compare_self
  rw [hself]
  exact compareOfLessAndEq_eq_lt.mpr hname

end Shardwise
