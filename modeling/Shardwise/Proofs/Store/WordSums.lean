import Mathlib
import Shardwise.Proofs.Store.Tallies
import Shardwise.Proofs.Value.Words

/-!
# Sums of words

Increments that add words to one field, in one attempt or in several, add up there for
as long as each sum is stored as a word.  The first sum that is not leaves a float, and
from then on the field holds floats.

* `Word.Fit` says that a word of some kind could hold every sum on the way, and
  `Word.Spills` that one of them is lost nevertheless.
* `Word.Sums` says what words leave in a field, and `Word.Sums.tally` carries it along the
  increments of `Value.tally`.
* `Write.adds?` and `Event.adds?` say which words are added to a field, if nothing else
  is done to it, and `gather` puts those of a list together.
* `Store.Runs.holds_total_iff` is the result.
-/

namespace Shardwise

/-- A place in a list with one more item is a place before it, or the last one. -/
theorem exists_split_concat {α : Type} {items : List α} {item : α} {P : List α → α → Prop} :
    (∃ front chosen back, items ++ [item] = front ++ chosen :: back ∧ P front chosen) ↔
      (∃ front chosen back, items = front ++ chosen :: back ∧ P front chosen) ∨ P items item := by
  constructor
  · rintro ⟨front, chosen, back, heq, hchosen⟩
    rcases List.eq_nil_or_concat back with rfl | ⟨between, last, rfl⟩
    · obtain ⟨rfl, rfl⟩ := List.append_singleton_inj.mp heq
      exact .inr hchosen
    · rw [List.concat_eq_append, ← List.cons_append, ← List.append_assoc] at heq
      obtain ⟨rfl, -⟩ := List.append_singleton_inj.mp heq
      exact .inl ⟨front, chosen, between, rfl, hchosen⟩
  · rintro (⟨front, chosen, back, rfl, hchosen⟩ | hitem)
    · exact ⟨front, chosen, back ++ [item], by simp, hchosen⟩
    · exact ⟨items, item, [], rfl, hitem⟩

/-! ## Words one after the other -/

namespace Word

/-- The sum of words. -/
def total (words : List Word) : Int := (words.map toInt).sum

@[simp] theorem total_append (words more : List Word) :
    total (words ++ more) = total words + total more := by
  simp [total]

@[simp] theorem total_singleton (word : Word) : total [word] = word.toInt := by
  simp [total]

/-- Each sum on the way could be held by a word, a signed or an unsigned one. -/
def Fit (words : List Word) : Prop :=
  ∀ part, part <+: words → -0x8000000000000000 ≤ total part ∧ total part < 0x10000000000000000

instance (words : List Word) : Decidable (Fit words) :=
  decidable_of_iff (∀ part ∈ words.inits,
      -0x8000000000000000 ≤ total part ∧ total part < 0x10000000000000000) <| by
    simp only [List.mem_inits, Fit]

theorem Fit.left {words more : List Word} (h : Fit (words ++ more)) : Fit words :=
  fun part hpart => h part (hpart.trans (List.prefix_append words more))

/-- One more word meets words before it, some of them all are signed, and the sum before,
the word or the sum after is too large for a signed word. -/
structure Spill (words : List Word) (word : Word) : Prop where
  later : words ≠ []
  signed : ∃ other ∈ words ++ [word], other.isUnsigned = false
  large : 0x8000000000000000 ≤ total words ∨ 0x8000000000000000 ≤ word.toInt ∨
    0x8000000000000000 ≤ total words + word.toInt

/-- One of the words does so. -/
def Spills (words : List Word) : Prop :=
  ∃ earlier word later, words = earlier ++ word :: later ∧ Spill earlier word

theorem not_spills_singleton (word : Word) : ¬ Spills [word] := by
  rintro ⟨earlier, other, later, heq, hspill⟩
  rcases List.append_eq_singleton_iff.mp heq.symm with ⟨rfl, -⟩ | ⟨-, hnil⟩
  · exact hspill.later rfl
  · cases hnil

/-- Words spill at the last of them or before. -/
theorem spills_concat {words : List Word} {word : Word} :
    Spills (words ++ [word]) ↔ Spills words ∨ Spill words word :=
  exists_split_concat

/-- Words do not spill if all of them and all sums on the way fit signed words. -/
theorem not_spills_of_lt {words : List Word}
    (hwords : ∀ word ∈ words, word.toInt < 0x8000000000000000)
    (hsums : ∀ part, part <+: words → total part < 0x8000000000000000) : ¬ Spills words := by
  rintro ⟨earlier, word, later, rfl, hspill⟩
  have hword := hwords word (by simp)
  have hearlier := hsums earlier (List.prefix_append ..)
  have hnext := hsums (earlier ++ [word]) ⟨later, by simp⟩
  rw [total_append, total_singleton] at hnext
  rcases hspill.large with hlarge | hlarge | hlarge <;> omega

/-- What a field holds after words were added to it, the first one to nothing. -/
inductive Sums : List Word → Option Value → Prop
  | nothing : Sums [] none
  /-- The sum is exact, and it is signed if one of the words is. -/
  | word {words : List Word} (sum : Word) (hsome : words ≠ []) (hkept : ¬ Spills words)
      (hsum : sum.toInt = total words)
      (hkind : sum.isUnsigned = words.all isUnsigned) : Sums words (some sum.toValue)
  | float {words : List Word} (x : Float) (hspills : Spills words) : Sums words (some (.float x))

theorem Sums.singleton (word : Word) : Sums [word] (some word.toValue) :=
  .word word (by simp) (not_spills_singleton word) (by simp) (by simp)

theorem Sums.isNumeric {words : List Word} {value : Value} (h : Sums words (some value)) :
    value.isNumeric = true := by
  cases h with
  | word sum => exact sum.isNumeric_toValue
  | float x => rfl

/-- One more word.  The sum of two words is a word unless they spill, and a float stays a
float. -/
theorem Sums.add {words : List Word} {word : Word} {value made : Value} {field : String}
    (h : Sums words (some value)) (hfit : Fit (words ++ [word]))
    (hadd : value.add word.toValue field = .ok made) : Sums (words ++ [word]) (some made) := by
  cases h with
  | word sum hsome hkept hsum hkind =>
    rw [add_toValue] at hadd
    have hbounds := hfit _ List.prefix_rfl
    rw [total_append, total_singleton, ← hsum] at hbounds
    have hsigned : (∃ other ∈ words ++ [word], other.isUnsigned = false) ↔
        (sum.isUnsigned && word.isUnsigned) = false := by
      simp only [hkind, Bool.and_eq_false_iff, List.all_eq_false, List.mem_append,
        List.mem_singleton, or_and_right, exists_or, exists_eq_left, Bool.not_eq_true]
    cases hnext : sum.sum? word with
    | some next =>
      rw [hnext] at hadd
      cases hadd
      obtain ⟨htotal, hnextkind⟩ := sum?_eq_some hnext
      refine .word next (by simp) ?_ ?_ ?_
      · rw [spills_concat, not_or]
        refine ⟨hkept, fun hspill => ?_⟩
        have hlost : sum.sum? word = none := (sum?_eq_none_iff hbounds.1 hbounds.2).mpr
          ⟨hsigned.mp hspill.signed, by rw [hsum]; exact hspill.large⟩
        rw [hlost] at hnext
        cases hnext
      · rw [htotal, hsum, total_append, total_singleton]
      · rw [hnextkind, hkind, List.all_append]
        simp
    | none =>
      rw [hnext] at hadd
      cases hadd
      obtain ⟨hmixed, hlarge⟩ := (sum?_eq_none_iff hbounds.1 hbounds.2).mp hnext
      rw [hsum] at hlarge
      exact .float _ (spills_concat.mpr (.inr ⟨hsome, hsigned.mpr hmixed, hlarge⟩))
  | float x hspills =>
    have hnone : Value.wordSum? (.float x) word.toValue = none := by cases word <;> rfl
    rw [Value.add, hnone] at hadd
    obtain ⟨a, -, hrest⟩ := parts_of_bind hadd
    obtain ⟨b, -, hmade⟩ := parts_of_bind hrest
    cases hmade
    exact .float _ (spills_concat.mpr (.inl hspills))

/-- One word after the other.  The induction is on the added ones. -/
theorem Sums.tally {words added : List Word} {held made : Option Value} {name : String}
    (h : Sums words held) (hfit : Fit (words ++ added))
    (hmade : Value.tally name held (added.map toValue) = .ok made) :
    Sums (words ++ added) made := by
  induction added generalizing words held with
  | nil =>
    cases hmade
    rwa [List.append_nil]
  | cons word added ih =>
    obtain ⟨_, hfirst, hrest⟩ := parts_of_bind hmade
    obtain ⟨value, hvalue, rfl⟩ := parts_of_map hfirst
    rw [List.append_cons] at hfit ⊢
    refine ih ?_ hfit hrest
    cases held with
    | none =>
      cases h
      cases hvalue
      exact .singleton word
    | some number =>
      rw [Value.incremented, Option.filter, if_pos h.isNumeric] at hvalue
      exact h.add hfit.left hvalue

end Word

/-! ## Words added to a field -/

/-- The words that a write on the document adds to the field, if it does nothing else to
it. -/
def Write.adds? (name : String) : Write → Option (List Word)
  | .increment other delta => if other = name then (Word.ofValue? delta).map ([·]) else some []
  | .set fields true => if fields[name]?.isSome then none else some []
  | .set _ false | .delete => none

/-- All words that some items add. -/
def gather {α : Type} (adds? : α → Option (List Word)) : List α → Option (List Word)
  | [] => some []
  | item :: items => do return (← adds? item) ++ (← gather adds? items)

theorem gather_cons {α : Type} {adds? : α → Option (List Word)} {item : α} {items : List α}
    {added : List Word} (h : gather adds? (item :: items) = some added) :
    ∃ first rest, adds? item = some first ∧ gather adds? items = some rest ∧
      added = first ++ rest := by
  simp only [gather, Option.pure_def, Option.bind_eq_bind, Option.bind_eq_some_iff,
    Option.some.injEq] at h
  obtain ⟨first, hfirst, rest, hrest, rfl⟩ := h
  exact ⟨first, rest, hfirst, hrest, rfl⟩

/-- The words that an event adds to a field, if it does nothing else to it. -/
def Event.adds? (key : DocKey) (name : String) : Event → Option (List Word)
  | .began _ => some []
  | .inserted other _ | .removed other => if other = key then none else some []
  | .committed writes =>
    gather (fun entry => if entry.1 = key then entry.2.adds? name else some []) writes

/-- Words are numbers, item by item. -/
theorem mapM_of_gather {α : Type} {adds? : α → Option (List Word)}
    {deltas? : α → Option (List Value)} {items : List α} {added : List Word}
    (h : gather adds? items = some added)
    (hone : ∀ item words, adds? item = some words → deltas? item = some (words.map Word.toValue)) :
    ∃ parts, items.mapM deltas? = some parts ∧ parts.flatten = added.map Word.toValue := by
  induction items generalizing added with
  | nil =>
    cases h
    exact ⟨[], rfl, rfl⟩
  | cons item items ih =>
    obtain ⟨first, rest, hfirst, hrest, rfl⟩ := gather_cons h
    obtain ⟨parts, hparts, hflatten⟩ := ih hrest
    refine ⟨first.map Word.toValue :: parts, ?_, by simp [hflatten]⟩
    simp [List.mapM_cons, hone item first hfirst, hparts]

theorem Write.deltas?_of_adds {write : Write} {name : String} {added : List Word}
    (h : write.adds? name = some added) :
    write.deltas? name = some (added.map Word.toValue) := by
  cases write with
  | set fields merge =>
    cases merge with
    | false => cases h
    | true =>
      rw [adds?] at h
      rw [deltas?]
      split at h <;> cases h
      exact if_neg ‹_›
  | increment other delta =>
    rw [adds?] at h
    rw [deltas?]
    split at h
    · obtain ⟨word, hword, rfl⟩ := Option.map_eq_some_iff.mp h
      rw [Word.eq_toValue hword, if_pos ‹_›, if_pos word.isNumeric_toValue]
      rfl
    · cases h
      exact if_neg ‹_›
  | delete => cases h

theorem Event.deltas?_of_adds {event : Event} {key : DocKey} {name : String} {added : List Word}
    (h : event.adds? key name = some added) :
    event.deltas? key name = some (added.map Word.toValue) := by
  cases event with
  | began id =>
    cases h
    rfl
  | inserted other document | removed other =>
    rw [adds?] at h
    rw [deltas?]
    split at h <;> cases h
    exact if_neg ‹_›
  | committed writes =>
    rw [deltas?, deltasOn?, Option.map_eq_some_iff]
    refine mapM_of_gather h fun entry words hwords => ?_
    split at hwords
    · exact (if_pos ‹_›).trans (Write.deltas?_of_adds hwords)
    · cases hwords
      exact if_neg ‹_›

/-! ## Runs -/

namespace Store

variable {store left : Store} {events : List Event} {key : DocKey} {name : String}

/-- Words added to a field that is missing or holds a word, in any run in which nothing
else happens to it, such that every sum on the way could be held by some word.  The field
holds a word with their sum exactly if no sum on the way spills, and a float otherwise. -/
theorem Runs.holds_total_iff {held : Option Word} {added : List Word} (h : Runs store events left)
    (hheld : store.documents.field key name = held.map Word.toValue)
    (hadded : gather (Event.adds? key name) events = some added)
    (hsome : held.toList ++ added ≠ []) (hfit : Word.Fit (held.toList ++ added)) :
    ((∃ sum : Word, left.documents.field key name = some sum.toValue ∧
        sum.toInt = Word.total (held.toList ++ added)) ↔
      ¬ Word.Spills (held.toList ++ added)) ∧
      (Word.Spills (held.toList ++ added) →
        ∃ x, left.documents.field key name = some (.float x)) := by
  have hstart : Word.Sums held.toList (store.documents.field key name) := by
    rw [hheld]
    cases held with
    | none => exact .nothing
    | some word => exact .singleton word
  obtain ⟨parts, hparts, hflatten⟩ := mapM_of_gather hadded fun _ _ => Event.deltas?_of_adds
  have htallies := Documents.tallies_mapM h.happens hparts
    fun _ _ _ _ => Documents.tallies_happen
  rw [hflatten] at htallies
  have hsums := hstart.tally hfit htallies.tally
  revert hsums hsome
  generalize left.documents.field key name = value
  generalize held.toList ++ added = words
  rintro hsome (_ | ⟨sum, -, hkept, hsum, -⟩ | ⟨x, hspills⟩)
  · exact absurd rfl hsome
  · exact ⟨⟨fun _ => hkept, fun _ => ⟨sum, rfl, hsum⟩⟩, fun hspills => absurd hspills hkept⟩
  · refine ⟨⟨fun ⟨sum, hvalue, _⟩ => ?_, fun hkept => absurd hspills hkept⟩, fun _ => ⟨x, rfl⟩⟩
    cases sum <;> cases hvalue

/-- An attempt that adds 3 and takes 5 away. -/
def borrow : Attempt where
  id := 1
  writes := [(crate, .increment "Value" (.uint 3)), (crate, .increment "Value" (.int (-5)))]

/-- An attempt that adds 1. -/
def another : Attempt := { id := 2, writes := [(crate, .increment "Value" (.int 1))] }

/-- Two attempts leave the word -1 in a field that was missing. -/
theorem holds_borrowed :
    ∃ left, Runs {} ([.committed borrow.writes] ++ [.committed another.writes]) left ∧
      ¬ Word.Spills [.unsigned 3, .signed (-5), .signed 1] ∧
      ∃ sum : Word, left.documents.field crate "Value" = some sum.toValue ∧ sum.toInt = -1 := by
  obtain ⟨version, committed, midway, hborrow⟩ : ∃ version committed midway,
      commit {} borrow = (.ok version, committed, midway) := ⟨_, _, _, rfl⟩
  obtain ⟨next, done, left, hanother⟩ : ∃ next done left,
      midway.commit another = (.ok next, done, left) := by
    cases hborrow
    exact ⟨_, _, _, rfl⟩
  have hruns : Runs {} ([.committed borrow.writes] ++ [.committed another.writes]) left :=
    (Step.commit hborrow).runs.step (.commit hanother)
  have hkept : ¬ Word.Spills [.unsigned 3, .signed (-5), .signed 1] := by
    refine Word.not_spills_of_lt (by decide) fun part hpart => ?_
    have hsums : ∀ part ∈ List.inits [Word.unsigned 3, .signed (-5), .signed 1],
      Word.total part < 0x8000000000000000 := by decide
    exact hsums part ((List.mem_inits ..).mpr hpart)
  have hmissing : ({} : Store).documents.field crate "Value" =
      (none : Option Word).map Word.toValue := rfl
  have hadded : gather (Event.adds? crate "Value")
      ([.committed borrow.writes] ++ [.committed another.writes]) =
      some [.unsigned 3, .signed (-5), .signed 1] := by decide
  obtain ⟨hholds, -⟩ := Runs.holds_total_iff hruns hmissing hadded (by decide) (by decide)
  exact ⟨left, hruns, hkept, hholds.mpr hkept⟩

/-- A document with the number 2^63. -/
def heap : Document := ⟨Std.ExtTreeMap.ofList [("Value", Value.uint 0x8000000000000000)]⟩

/-- The number 2^63 and 1 more could be held by an unsigned word.  The field holds no word
afterwards. -/
theorem not_holds_heap : ∃ store left, Runs {} [.inserted crate heap] store ∧
    Runs store [.committed another.writes] left ∧
    store.documents.field crate "Value" = some (Word.unsigned 0x8000000000000000).toValue ∧
    gather (Event.adds? crate "Value") [.committed another.writes] = some [.signed 1] ∧
    Word.Fit [.unsigned 0x8000000000000000, .signed 1] ∧
    ¬ ∃ sum : Word, left.documents.field crate "Value" = some sum.toValue := by
  obtain ⟨store, hstore⟩ : ∃ store, insert {} crate heap = .ok store := ⟨_, rfl⟩
  obtain ⟨version, committed, left, hcommit⟩ : ∃ version committed left,
      store.commit another = (.ok version, committed, left) := by
    cases hstore
    exact ⟨_, _, _, rfl⟩
  refine ⟨store, left, (Step.insert hstore).runs, (Step.commit hcommit).runs, ?_, by decide,
    by decide, ?_⟩
  · cases hstore
    rfl
  · rintro ⟨sum, hsum⟩
    have hfloat : ∃ x, left.documents.field crate "Value" = some (.float x) := by
      cases hstore
      cases hcommit
      exact ⟨_, rfl⟩
    obtain ⟨x, hx⟩ := hfloat
    rw [hx] at hsum
    cases sum <;> cases hsum

end Store

end Shardwise
