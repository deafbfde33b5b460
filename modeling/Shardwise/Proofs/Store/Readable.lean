import Shardwise.Proofs.Store.Outcome
import Shardwise.Proofs.Store.WordSums
import Shardwise.Proofs.Value.Overflow

/-!
# Fields that can be read after increments

An increment takes every number, also a float that is not finite.  A sum is only made of
numbers that can be read as finite floats, and a count is only read from such.  So the three
agree until an increment leaves something else behind.

* `Value.float?` is what a number is read as, and `Value.Overflows` says that a sum of two
  such numbers is infinite.
* `Value.Spoils` says that an increment leaves what can't be read.  It puts
  a float that is not finite where there was nothing, or its sum overflows.
* `Value.readable_tally_iff` and `Value.blocks_tally_iff` say what increments one after the
  other leave and what fails next.
* `Store.Runs.readable_iff` is the result.
-/

namespace Shardwise

namespace Value

/-! ## Numbers that can be read -/

/-- The float that a number is read as.  A float is read only if it is finite. -/
def float? : Value → Option Float
  | .int n => some (floatOfInt64 n)
  | .uint n => some n.toFloat
  | .float x => if x.isFinite then some x else none
  | _ => none

variable {a b value sum : Value} {x y : Float}

theorem toFloat_eq (value : Value) (field : String) : value.toFloat field =
    match value.float? with
    | some x => .ok x
    | none => .error (value.mismatch field "number") := by
  cases value with
  | float x =>
    rw [toFloat, float?]
    split <;> rfl
  | _ => rfl

theorem toFloat_eq_ok_iff {field : String} :
    value.toFloat field = .ok x ↔ value.float? = some x := by
  rw [toFloat_eq]
  cases value.float? <;> simp

theorem isNumeric_of_float? (h : value.float? = some x) : value.isNumeric = true := by
  cases value with
  | int n | uint n | float x => rfl
  | null | bool b | text s | time t => cases h

theorem isFinite_of_float? (h : value.float? = some x) : x.isFinite = true := by
  cases value with
  | int n =>
    cases h
    exact (Floats.floatOfInt64_small n).1
  | uint n =>
    cases h
    exact (Floats.toFloat_small n).1
  | float z =>
    rw [float?] at h
    split at h <;> cases h
    assumption
  | null | bool b | text s | time t => cases h

/-- A number that can't be read is a float that is not finite. -/
theorem eq_float_of_float?_eq_none (hnumeric : value.isNumeric = true) (h : value.float? = none) :
    ∃ x, value = .float x ∧ x.isFinite = false := by
  cases value with
  | int n | uint n => cases h
  | float x =>
    rw [float?] at h
    split at h
    · cases h
    · exact ⟨x, rfl, eq_false_of_ne_true ‹_›⟩
  | null | bool b | text s | time t => cases hnumeric

/-- The sum of both numbers as floats is rounded to infinity. -/
def Overflows (a b : Value) : Prop :=
  ∃ x y, a.float? = some x ∧ b.float? = some y ∧
    Floats.overflow ≤
      (Floats.units x.toModel.unpack + Floats.units y.toModel.unpack).natAbs

theorem wordSum?_float_left (x : Float) (b : Value) : wordSum? (.float x) b = none := by
  cases b <;> rfl

theorem wordSum?_float_right (a : Value) (x : Float) : wordSum? a (.float x) = none := by
  cases a with
  | uint n =>
    rw [wordSum?]
    · cases (Value.uint n).word? <;> rfl
    · intro _ _ _ h
      cases h
  | int n => rfl
  | _ => rfl

/-- What words are read as does not overflow. -/
theorem not_overflows_of_word (h : ∀ x, b ≠ .float x) : ¬ Overflows a b := by
  rintro ⟨x, y, -, hy, hlarge⟩
  have hsmall : (Floats.units y.toModel.unpack).natAbs < Floats.halfStep := by
    cases b with
    | int n =>
      cases hy
      exact (Floats.floatOfInt64_small n).2
    | uint n =>
      cases hy
      exact (Floats.toFloat_small n).2
    | float z => exact absurd rfl (h z)
    | null | bool b | text s | time t => cases hy
  exact absurd (Floats.add_lt_overflow x hsmall) (not_lt.mpr hlarge)

/-- A sum of words is a word. -/
theorem float?_of_wordSum? (h : wordSum? a b = some sum) :
    sum.isNumeric = true ∧ sum.float?.isSome = true := by
  obtain ⟨word, rfl⟩ := Word.eq_toValue_of_wordSum? h
  cases word <;> exact ⟨rfl, rfl⟩

/-- Two numbers that can be read have a sum.  It can be read unless it overflows. -/
theorem add_of_float? (ha : a.float? = some x) (hb : b.float? = some y) (field : String) :
    ∃ sum, a.add b field = .ok sum ∧ sum.isNumeric = true ∧
      (sum.float?.isSome = true ↔ ¬ Overflows a b) := by
  unfold add
  cases hsum : wordSum? a b with
  | some sum =>
    have hb' : ∀ z, b ≠ .float z := by
      rintro z rfl
      rw [wordSum?_float_right] at hsum
      cases hsum
    obtain ⟨hnumeric, hreads⟩ := float?_of_wordSum? hsum
    exact ⟨sum, rfl, hnumeric, iff_of_true hreads (not_overflows_of_word hb')⟩
  | none =>
    have hoverflows : Overflows a b ↔ Floats.overflow ≤
        (Floats.units x.toModel.unpack + Floats.units y.toModel.unpack).natAbs := by
      simp [Overflows, ha, hb]
    refine ⟨.float (x + y), ?_, rfl, ?_⟩
    · rw [toFloat_eq_ok_iff.mpr ha, toFloat_eq_ok_iff.mpr hb]
      rfl
    · rw [hoverflows, not_le, ← Floats.isFinite_float_add (isFinite_of_float? ha)
        (isFinite_of_float? hb), float?]
      split <;> simp_all

/-- Numbers one of which can't be read have none. -/
theorem add_eq_error (ha : a.isNumeric = true) (hb : b.isNumeric = true)
    (h : a.float? = none ∨ b.float? = none) (field : String) :
    a.add b field = .error (.typeMismatch field "number" "Float") := by
  unfold add
  cases hx : a.float? with
  | none =>
    obtain ⟨x, rfl, -⟩ := eq_float_of_float?_eq_none ha hx
    rw [wordSum?_float_left, toFloat_eq, hx]
    rfl
  | some x =>
    have hy := h.resolve_left (by simp [hx])
    obtain ⟨y, rfl, -⟩ := eq_float_of_float?_eq_none hb hy
    rw [wordSum?_float_right, toFloat_eq_ok_iff.mpr hx, toFloat_eq, hy]
    rfl

/-- The increment leaves what can't be read: a float that is not finite, where there was nothing,
or a sum that overflows. -/
def Spoils (held : Option Value) (delta : Value) : Prop :=
  match held with
  | none => delta.float? = none
  | some number => number.Overflows delta

/-- One of the increments does so. -/
def Spoil (name : String) (held : Option Value) (deltas : List Value) : Prop :=
  ∃ front delta back made, deltas = front ++ delta :: back ∧ tally name held front = .ok made ∧
    Spoils made delta

variable {name : String} {held made : Option Value} {deltas : List Value} {delta : Value}

/-- Increments spoil a field at the last of them or before. -/
theorem spoil_concat (h : tally name held deltas = .ok made) :
    Spoil name held (deltas ++ [delta]) ↔ Spoil name held deltas ∨ Spoils made delta := by
  have hlast : (∃ made, tally name held deltas = .ok made ∧ Spoils made delta) ↔
      Spoils made delta := by
    simp [h]
  simp only [Spoil, exists_and_left]
  rw [exists_split_concat, hlast]

/-- The field is missing, or holds a number. -/
def Numeric (held : Option Value) : Prop := ∀ number, held = some number → number.isNumeric = true

/-- The field is missing, or can be read as a float. -/
def Readable (name : String) (held : Option Value) : Prop :=
  ∀ number, held = some number → ∃ x, number.toFloat name = .ok x

theorem readable_none : Readable name none := fun _ h => nomatch h

theorem readable_some {number : Value} :
    Readable name (some number) ↔ number.float?.isSome = true := by
  simp [Readable, toFloat_eq_ok_iff, Option.isSome_iff_exists]

theorem Readable.numeric (h : Readable name held) : Numeric held := by
  intro number hnumber
  obtain ⟨x, hx⟩ := h number hnumber
  exact isNumeric_of_float? (toFloat_eq_ok_iff.mp hx)

/-- An increment meets what can't be read: the number in the field, or its own one where it is
to be added to another. -/
def Blocks (name : String) (held : Option Value) (delta : Value) : Prop :=
  ¬ Readable name held ∨ held ≠ none ∧ delta.float? = none

theorem incremented_of_blocks (hheld : Numeric held) (hdelta : delta.isNumeric = true)
    (h : Blocks name held delta) :
    incremented name held delta = .error (.typeMismatch name "number" "Float") := by
  cases held with
  | none => exact absurd readable_none (h.resolve_right fun h => h.1 rfl)
  | some number =>
    have hnumber := hheld number rfl
    rw [incremented, Option.filter, if_pos hnumber]
    refine add_eq_error hnumber hdelta ?_ name
    rcases h with hnumber | ⟨-, hdelta⟩
    · rw [readable_some, Option.not_isSome_iff_eq_none] at hnumber
      exact .inl hnumber
    · exact .inr hdelta

theorem incremented_of_not_blocks (hdelta : delta.isNumeric = true) (h : ¬ Blocks name held delta) :
    ∃ value, incremented name held delta = .ok value ∧ value.isNumeric = true ∧
      (Readable name (some value) ↔ ¬ Spoils held delta) := by
  cases held with
  | none =>
    refine ⟨delta, rfl, hdelta, ?_⟩
    rw [readable_some, Spoils, Option.isSome_iff_ne_none]
  | some number =>
    rw [Blocks, not_or, not_not, readable_some, Option.isSome_iff_exists] at h
    obtain ⟨⟨x, hx⟩, hsecond⟩ := h
    obtain ⟨y, hy⟩ := Option.ne_none_iff_exists'.mp fun hnone => hsecond ⟨by simp, hnone⟩
    rw [incremented, Option.filter, if_pos (isNumeric_of_float? hx)]
    obtain ⟨sum, hsum, hnumeric, hreads⟩ := add_of_float? hx hy name
    exact ⟨sum, hsum, hnumeric, readable_some.trans hreads⟩

/-- What increments leave is a number, and it can be read unless one of them spoiled it.  The
induction is on the increments, from the last one. -/
theorem readable_tally_iff (hheld : Readable name held)
    (hdeltas : ∀ delta ∈ deltas, delta.isNumeric = true) (h : tally name held deltas = .ok made) :
    Numeric made ∧ (made = none ↔ held = none ∧ deltas = []) ∧
      (Readable name made ↔ ¬ Spoil name held deltas) := by
  induction deltas using List.reverseRecOn generalizing made with
  | nil =>
    cases h
    refine ⟨hheld.numeric, by simp, iff_of_true hheld ?_⟩
    rintro ⟨front, delta, back, _, heq, -⟩
    cases front <;> cases heq
  | append_singleton deltas delta ih =>
    rw [tally_append] at h
    obtain ⟨midway, hmidway, hlast⟩ := parts_of_bind h
    rw [tally_singleton] at hlast
    obtain ⟨hnumeric, -, hreads⟩ := ih (fun delta hmem => hdeltas delta (by simp [hmem])) hmidway
    have hdelta : delta.isNumeric = true := hdeltas delta (by simp)
    by_cases hblocks : Blocks name midway delta
    · rw [incremented_of_blocks hnumeric hdelta hblocks] at hlast
      cases hlast
    · obtain ⟨value, hvalue, hvaluenumeric, hspoils⟩ := incremented_of_not_blocks hdelta hblocks
      rw [hvalue] at hlast
      cases hlast
      have hreadable : Readable name midway := not_not.mp fun h => hblocks (.inl h)
      refine ⟨fun _ h => Option.some.inj h ▸ hvaluenumeric, by simp, ?_⟩
      rw [spoil_concat hmidway, not_or, ← hreads, ← hspoils, and_iff_right hreadable]

/-- After some increments, a further one meets what can't be read. -/
def Stuck (name : String) (held : Option Value) (deltas : List Value) (delta : Value) : Prop :=
  Spoil name held deltas ∨ (held ≠ none ∨ deltas ≠ []) ∧ delta.float? = none

theorem blocks_tally_iff (hheld : Readable name held)
    (hdeltas : ∀ delta ∈ deltas, delta.isNumeric = true) (h : tally name held deltas = .ok made) :
    Blocks name made delta ↔ Stuck name held deltas delta := by
  obtain ⟨-, hmissing, hreads⟩ := readable_tally_iff hheld hdeltas h
  rw [Blocks, Stuck, hreads, not_not, Ne, hmissing, not_and_or]

/-- Words don't spoil a field. -/
theorem not_spoil_of_word (hdeltas : ∀ delta ∈ deltas, ∃ word : Word, delta = word.toValue) :
    ¬ Spoil name held deltas := by
  rintro ⟨front, delta, back, made, rfl, -, hspoils⟩
  obtain ⟨word, rfl⟩ := hdeltas delta (by simp)
  cases made with
  | none => cases word <;> cases hspoils
  | some number =>
    refine not_overflows_of_word (fun x h => ?_) hspoils
    cases word <;> cases h

end Value

/-! ## Runs -/

namespace Store

variable {store left : Store} {events : List Event} {key : DocKey} {name : String}

/-- A commit of the attempt comes to an increment of the field: there are no conflicts, and the
writes before it apply and do nothing to the field but increment it. -/
structure Reaches (store : Store) (attempt : Attempt) (key : DocKey) (name : String)
    (before : List Value) (delta : Value) (midway : Documents) : Prop where
  active : attempt.status = .active
  isOpen : store.isOpen = true
  fresh : ∀ conflict, ¬ store.database.Stale attempt conflict
  writes : ∃ earlier later, attempt.writes = earlier ++ (key, .increment name delta) :: later ∧
    deltasOn? key name earlier = some before ∧ store.documents.writeAll earlier = .ok midway
  numeric : delta.isNumeric = true

/-- A commit fails with the error of an increment that it comes to. -/
theorem Reaches.commit_eq {attempt : Attempt} {before : List Value} {delta : Value}
    {midway : Documents} {error : Error}
    (h : store.Reaches attempt key name before delta midway)
    (herror : midway.write key (.increment name delta) = .error error) :
    (store.commit attempt).1 = .error (CommitError.apply error).toError := by
  obtain ⟨earlier, later, hwrites, -, hmidway⟩ := h.writes
  have hvalid : Database.conflicts store.table attempt = [] :=
    List.eq_nil_iff_forall_not_mem.mpr fun conflict hmem =>
      h.fresh conflict (Database.mem_conflicts_iff.mp hmem)
  have hstops : store.documents.StopsAt attempt.writes error :=
    ⟨earlier, key, _, later, midway, hwrites, hmidway, herror⟩
  have hstage := (Database.stage_document? store.table attempt.writes).trans
    (Documents.writeAll_eq_error_iff.mpr hstops)
  cases hstaged : Database.stage store.table attempt.writes with
  | ok staged =>
    rw [hstaged] at hstage
    cases hstage
  | error other =>
    rw [hstaged] at hstage
    cases hstage
    rw [commit_failed h.isOpen (by simp) (Database.commit_unstaged h.active hvalid hstaged)]

/-- Increments of a field that is missing or can be read, in any run in which nothing else
happens to it.  It can be read afterwards exactly if none of them spoiled it.  A further
increment fails, and with it the commit that comes to it, exactly if an earlier one spoiled the
field, or if its own number can't be read and is to be added to another. -/
theorem Runs.readable_iff {held : Option Value} {parts : List (List Value)}
    (h : Runs store events left) (hheld : store.documents.field key name = held)
    (hreads : Value.Readable name held)
    (hparts : events.mapM (Event.deltas? key name) = some parts) :
    (left.documents.field key name = none ↔ held = none ∧ parts.flatten = []) ∧
    (Value.Readable name (left.documents.field key name) ↔
      ¬ Value.Spoil name held parts.flatten) ∧
    ∀ attempt before delta midway, left.Reaches attempt key name before delta midway →
      (Value.Stuck name held (parts.flatten ++ before) delta → (left.commit attempt).1 =
        .error (CommitError.apply (.typeMismatch name "number" "Float")).toError) ∧
      (¬ Value.Stuck name held (parts.flatten ++ before) delta →
        ∃ made, midway.write key (.increment name delta) = .ok made) := by
  have hrun : Documents.Tallies store.documents key name parts.flatten left.documents :=
    Documents.tallies_mapM h.happens hparts fun _ _ _ _ => Documents.tallies_happen
  have htally := hheld ▸ hrun.tally
  obtain ⟨-, hmissing, hafter⟩ := Value.readable_tally_iff hreads hrun.numeric htally
  refine ⟨hmissing, hafter, fun attempt before delta midway hreaches => ?_⟩
  obtain ⟨earlier, later, -, hbefore, hmidway⟩ := hreaches.writes
  have hboth := hrun.trans (Documents.tallies_writeAll hmidway hbefore)
  have htallyBoth := hheld ▸ hboth.tally
  obtain ⟨hnumeric, -⟩ := Value.readable_tally_iff hreads hboth.numeric htallyBoth
  rw [← Value.blocks_tally_iff hreads hboth.numeric htallyBoth]
  constructor
  · intro hblocks
    refine hreaches.commit_eq ?_
    rw [Documents.write_increment, Value.incremented_of_blocks hnumeric hreaches.numeric hblocks]
    rfl
  · intro hblocks
    obtain ⟨value, hvalue, -⟩ := Value.incremented_of_not_blocks hreaches.numeric hblocks
    rw [Documents.write_increment, hvalue]
    exact ⟨_, rfl⟩

/-- An attempt that adds a float that is not finite. -/
def blot : Attempt := { id := 2, writes := [(crate, .increment "Value" (.float (0 / 0)))] }

/-- Two words leave a field that can be read.  The float can't be added to it. -/
theorem readable_borrowed : ∃ left, Runs {} [.committed borrow.writes] left ∧
    Value.Readable "Value" (left.documents.field crate "Value") ∧
    left.Reaches blot crate "Value" [] (.float (0 / 0)) left.documents ∧
    (left.commit blot).1 =
      .error (CommitError.apply (.typeMismatch "Value" "number" "Float")).toError := by
  obtain ⟨version, committed, left, hborrow⟩ : ∃ version committed left,
      commit {} borrow = (.ok version, committed, left) := ⟨_, _, _, rfl⟩
  have hruns : Runs {} [.committed borrow.writes] left := (Step.commit hborrow).runs
  have hmissing : ({} : Store).documents.field crate "Value" = none := rfl
  have hparts : [Event.committed borrow.writes].mapM (Event.deltas? crate "Value") =
      some [[.uint 3, .int (-5)]] := rfl
  have hreaches : left.Reaches blot crate "Value" [] (.float (0 / 0)) left.documents := by
    cases hborrow
    refine ⟨rfl, rfl, ?_, ⟨[], [], rfl, rfl, rfl⟩, rfl⟩
    rintro conflict ⟨hread, -⟩
    simp [blot] at hread
  have hwords : ¬ Value.Spoil "Value" none [[Value.uint 3, .int (-5)]].flatten := by
    refine Value.not_spoil_of_word fun delta hmem => ?_
    have hdelta : delta = .uint 3 ∨ delta = .int (-5) := by simpa using hmem
    rcases hdelta with rfl | rfl
    · exact ⟨.unsigned 3, rfl⟩
    · exact ⟨.signed (-5), rfl⟩
  obtain ⟨-, hreads, hcommits⟩ := Runs.readable_iff hruns hmissing Value.readable_none hparts
  exact ⟨left, hruns, hreads.mpr hwords, hreaches,
    (hcommits blot [] _ _ hreaches).1 (.inr ⟨.inr (by simp), rfl⟩)⟩

/-- Where there is nothing, the increment by the float is taken, and the float is stored.  The
field can't be read afterwards, and the number 1 can't be added to it. -/
theorem not_readable_blotted : ∃ left other,
    ({} : Store).documents.field crate "Value" = none ∧
    Attempt.increment { id := 2 } crate "Value" (.float (0 / 0)) = .ok blot ∧
    Runs {} [.committed blot.writes] left ∧
    ¬ Value.Readable "Value" (left.documents.field crate "Value") ∧
    Attempt.increment { id := 3 } crate "Value" (.int 1) = .ok other ∧
    (left.commit other).1 =
      .error (CommitError.apply (.typeMismatch "Value" "number" "Float")).toError := by
  obtain ⟨version, committed, left, hblot⟩ : ∃ version committed left,
      commit {} blot = (.ok version, committed, left) := ⟨_, _, _, rfl⟩
  refine ⟨left, _, rfl, rfl, (Step.commit hblot).runs, ?_, rfl, ?_⟩
  · have hheld : left.documents.field crate "Value" = some (.float (0 / 0)) := by
      cases hblot
      rfl
    rw [hheld, Value.readable_some]
    decide
  · cases hblot
    rfl

end Store

end Shardwise
