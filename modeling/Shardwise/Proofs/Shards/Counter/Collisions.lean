import Mathlib.Algebra.Order.BigOperators.Group.Finset
import Mathlib.Algebra.Order.Ring.Int
import Shardwise.Proofs.Shards.Counter.Additions

/-!
# Increments that meet in a shard

Of the write phases of one attempt that meet in the total of a shard, those count
that the last one which makes the document leaves there, and those after it.  So
all count if the document exists and names the owner, or if the first of them makes
it and the others add to it.  A read phase that finds no document lets its write
phase make it; where nothing exists yet, two write phases must therefore not meet.

* `Counter.Increments.totals_eq` says by how much the totals grow.
* `Counter.Increments.totals_iff` says when they grow by all increments, and
  `Counter.lands_iff` what this comes to where no document is out of order.
-/

namespace Shardwise

namespace Counter

/-! ## The number that some parts leave -/

namespace Part

theorem after_of_present {parts : List Part} (h : ∀ part ∈ parts, part.present = true)
    (number : Option Int) : after number parts = number.map (· + total parts) := by
  induction parts generalizing number with
  | nil => cases number <;> simp [after]
  | cons part parts ih =>
    rw [List.forall_mem_cons] at h
    have hrest := ih h.2 (afterWrite number (part.present, part.value.toInt))
    rw [total_cons]
    show after (afterWrite number (part.present, part.value.toInt)) parts = _
    rw [hrest, afterWrite, h.1]
    cases number <;> simp [Int.add_assoc]

/-- No more is left than what was there and what is added. -/
theorem after_le {parts : List Part} (hpositive : ∀ part ∈ parts, 0 < part.value.toInt)
    {number : Option Int} (hnumber : 0 ≤ number.getD 0) :
    (after number parts).getD 0 ≤ number.getD 0 + total parts := by
  induction parts generalizing number with
  | nil => simp [after]
  | cons part parts ih =>
    rw [List.forall_mem_cons] at hpositive
    obtain ⟨hvalue, hpositive⟩ := hpositive
    have hnext : 0 ≤ (afterWrite number (part.present, part.value.toInt)).getD 0 ∧
        (afterWrite number (part.present, part.value.toInt)).getD 0 ≤
          number.getD 0 + part.value.toInt := by
      unfold afterWrite
      cases part.present <;> cases number <;> simp at hnumber ⊢ <;> omega
    have hrest := ih hpositive hnext.1
    rw [total_cons]
    show (after (afterWrite number (part.present, part.value.toInt)) parts).getD 0 ≤ _
    omega

/-- To a number that is seen everything is added, unless the document is made
again. -/
theorem after_some_eq {parts : List Part} (hpositive : ∀ part ∈ parts, 0 < part.value.toInt)
    {n : Int} (hn : 0 < n) :
    (after (some n) parts).getD 0 = n + total parts ↔ ∀ part ∈ parts, part.present = true := by
  constructor
  · intro h
    induction parts generalizing n with
    | nil => simp
    | cons part parts ih =>
      rw [List.forall_mem_cons] at hpositive ⊢
      obtain ⟨hvalue, hpositive⟩ := hpositive
      rw [total_cons] at h
      change (after (afterWrite (some n) (part.present, part.value.toInt)) parts).getD 0 = _ at h
      cases hpresent : part.present with
      | true =>
        rw [hpresent] at h
        have hmore : (after (some (n + part.value.toInt)) parts).getD 0 =
            n + part.value.toInt + total parts := h.trans (Int.add_assoc _ _ _).symm
        exact ⟨rfl, ih hpositive (by omega) hmore⟩
      | false =>
        rw [hpresent] at h
        change (after (some part.value.toInt) parts).getD 0 = _ at h
        have hbound := after_le hpositive
          (show 0 ≤ (some part.value.toInt).getD 0 from Int.le_of_lt hvalue)
        rw [Option.getD_some] at hbound
        omega
  · intro h
    rw [after_of_present h]
    rfl

/-- Where no number is seen, everything is left if the first part makes the document
and the others add to it. -/
theorem after_none_eq {parts : List Part} (hpositive : ∀ part ∈ parts, 0 < part.value.toInt) :
    (after none parts).getD 0 = total parts ↔ parts = [] ∨
      ∃ more, parts.map Part.present = false :: List.replicate more true := by
  cases parts with
  | nil => simp [after]
  | cons part parts =>
    rw [List.forall_mem_cons] at hpositive
    obtain ⟨hvalue, hpositive⟩ := hpositive
    rw [total_cons]
    change (after (afterWrite none (part.present, part.value.toInt)) parts).getD 0 = _ ↔ _
    cases hpresent : part.present with
    | true =>
      change (after none parts).getD 0 = _ ↔ _
      have hbound := after_le hpositive (show 0 ≤ (none : Option Int).getD 0 from Int.le_refl 0)
      rw [Option.getD_none] at hbound
      constructor
      · intro h
        omega
      · rintro (h | ⟨more, h⟩)
        · cases h
        · rw [List.map_cons, hpresent] at h
          cases h
    | false =>
      change (after (some part.value.toInt) parts).getD 0 = _ ↔ _
      rw [after_some_eq hpositive hvalue]
      constructor
      · intro h
        refine .inr ⟨parts.length, ?_⟩
        rw [List.map_cons, hpresent, List.cons_inj_right, List.eq_replicate_iff]
        simpa using h
      · rintro (h | ⟨more, h⟩)
        · cases h
        · rw [List.map_cons, hpresent, List.cons_inj_right, List.eq_replicate_iff] at h
          simpa using h.2

end Part

/-! ## The totals after several increments -/

/-- The parts of some write phases in the total of a shard. -/
def partsAt (additions : List Addition) (index : Nat) : List Part :=
  (additions.filter (·.token.index = index)).map (Addition.part .total)

theorem partsOf_total (additions : List Addition) (t : Instant) (index : Nat) :
    partsOf additions .total t index = partsAt additions index := by
  simp only [partsOf, partsAt, covers_total]
  rfl

/-- The shards that some write phases write to. -/
def indices (additions : List Addition) : Finset Nat :=
  (additions.map (·.token.index)).toFinset

theorem mem_indices {additions : List Addition} {index : Nat} :
    index ∈ indices additions ↔ ∃ addition ∈ additions, addition.token.index = index := by
  simp [indices]

theorem partsAt_ne_nil {additions : List Addition} {index : Nat} :
    partsAt additions index ≠ [] ↔ index ∈ indices additions := by
  simp [partsAt, mem_indices, List.filter_eq_nil_iff]

/-- What queries see of the total of a shard. -/
def shown (counter : Counter) (table : Table) (index : Nat) : Option Int :=
  visible counter.group.owner (table.document? (counter.group.plainKey index))

/-- By how much some write phases change the total of a shard, as far as queries see
it. -/
def gain (counter : Counter) (table : Table) (additions : List Addition) (index : Nat) : Int :=
  (Part.after (counter.shown table index) (partsAt additions index)).getD 0 -
    (counter.shown table index).getD 0

/-- All write phases on a shard count: its total exists and names the owner, or else
the first of them makes it and the others add to it. -/
def Lands (counter : Counter) (table : Table) (additions : List Addition) (index : Nat) : Prop :=
  match table.document? (counter.group.plainKey index) with
  | some document => document.names counter.group.owner = true
  | none => ∃ more, (partsAt additions index).map Part.present = false :: List.replicate more true

/-- The totals of all shards take in all that is added. -/
theorem sum_total_partsAt (additions : List Addition) :
    ∑ index ∈ indices additions, Part.total (partsAt additions index) =
      Increment.total (additions.map Addition.increment) := by
  have hall : ∀ addition ∈ additions,
      addition.token.index ∈ (additions.map (·.token.index)).dedup :=
    fun addition haddition => List.mem_dedup.mpr (List.mem_map_of_mem haddition)
  have hpartition := sum_partition (List.nodup_dedup _) (fun addition : Addition =>
    addition.token.index) (·.value.toInt) hall
  have hindices : indices additions = (additions.map (·.token.index)).dedup.toFinset := by
    ext index
    simp [indices]
  rw [hindices, List.sum_toFinset _ (List.nodup_dedup _), Increment.total, List.map_map]
  simp only [partsAt, Part.total, List.map_map]
  exact hpartition

namespace Increments

variable {counter : Counter} {table left : Table} {handles : List Counter}
  {tokens : List PendingIncrement} {additions : List Addition}

/-- The totals grow by what each shard gains. -/
theorem totals_eq (h : counter.Increments table handles tokens additions left)
    (htidy : counter.Tidy table) (hspace : counter.HasSpace table additions) :
    counter.totals left =
      counter.totals table + ∑ index ∈ indices additions, counter.gain table additions index := by
  have hchanged : ∀ level t index, (level == Level.total) = true →
      partsOf additions level t index ≠ [] → counter.levelKey level t index ∈
        (indices additions).image counter.group.plainKey := by
    intro level t index hlevel hparts
    obtain rfl := beq_iff_eq.mp hlevel
    rw [partsOf_total, partsAt_ne_nil] at hparts
    exact Finset.mem_image_of_mem counter.group.plainKey hparts
  rw [Counter.totals_eq, Counter.totals_eq,
    h.sumOf_eq htidy hspace (takes_total counter.group.owner) _ hchanged,
    Finset.sum_image fun _ _ _ _ heq => ShardGroup.plainKey_inj heq]
  congr 1
  refine Finset.sum_congr rfl fun index _ => ?_
  obtain ⟨hregular, hvisible⟩ := h.shard htidy hspace .total default index
  rw [partsOf_total] at hvisible
  rw [counter.plainKey_eq default index, weightAt_levelKey (takes_total _) hregular,
    weightAt_levelKey (takes_total _) fun document => htidy .total default index document,
    hvisible]
  rfl

theorem partsAt_pos (h : counter.Increments table handles tokens additions left) (index : Nat) :
    ∀ part ∈ partsAt additions index, 0 < part.value.toInt := by
  intro part hpart
  obtain ⟨addition, haddition, rfl⟩ := List.mem_map.mp hpart
  exact (h.addition addition (List.mem_filter.mp haddition).1).2

/-- A total that is there is taken to exist. -/
theorem present_of_isSome (h : counter.Increments table handles tokens additions left)
    {index : Nat} (hsome : (table.document? (counter.group.plainKey index)).isSome = true) :
    ∀ part ∈ partsAt additions index, part.present = true := by
  intro part hpart
  obtain ⟨addition, haddition, rfl⟩ := List.mem_map.mp hpart
  rw [List.mem_filter, decide_eq_true_eq] at haddition
  refine (h.addition addition haddition.1).1.finds_total.mpr (.inr ?_)
  rw [haddition.2]
  exact hsome

/-- A shard gains at most what is added to it. -/
theorem gain_le (h : counter.Increments table handles tokens additions left)
    (htidy : counter.Tidy table) (index : Nat) :
    counter.gain table additions index ≤ Part.total (partsAt additions index) := by
  have hshown : 0 ≤ (counter.shown table index).getD 0 := by
    unfold shown
    cases hdocument : table.document? (counter.group.plainKey index) with
    | none => simp
    | some document =>
      have hpos := (htidy .total default index document hdocument).word_pos
      rw [visible_some]
      split
      · exact Int.le_of_lt hpos
      · exact Int.le_refl 0
  have hbound := Part.after_le (h.partsAt_pos index) hshown
  unfold gain
  omega

/-- A shard gains all that is added to it exactly if all of it lands. -/
theorem gain_eq_iff (h : counter.Increments table handles tokens additions left) {index : Nat}
    (hindex : index ∈ indices additions) :
    counter.gain table additions index = Part.total (partsAt additions index) ↔
      counter.Lands table additions index := by
  have hpositive := h.partsAt_pos index
  have hparts : partsAt additions index ≠ [] := partsAt_ne_nil.mpr hindex
  unfold gain shown Lands
  cases hdocument : table.document? (counter.group.plainKey index) with
  | none =>
    have hnone := Part.after_none_eq hpositive
    simp only [hparts, false_or] at hnone
    rw [visible_none, Option.getD_none, Int.sub_zero, hnone]
  | some document =>
    have hsome : (table.document? (counter.group.plainKey index)).isSome = true := by
      rw [hdocument]
      rfl
    have hpresent := h.present_of_isSome hsome
    rw [visible_some, Part.after_of_present hpresent]
    dsimp only
    cases document.names counter.group.owner with
    | true =>
      simp only [if_true, Option.map_some, Option.getD_some, iff_true]
      omega
    | false =>
      have htotal : 0 < Part.total (partsAt additions index) := by
        obtain ⟨part, parts, heq⟩ := List.exists_cons_of_ne_nil hparts
        rw [heq, List.forall_mem_cons] at hpositive
        have hrest := Part.total_nonneg hpositive.2
        rw [heq, Part.total_cons]
        omega
      simp only [Bool.false_eq_true, if_false, Option.map_none, Option.getD_none, iff_false]
      omega

/-- The totals grow by at most all increments, and by all of them exactly if all
land. -/
theorem totals_iff (h : counter.Increments table handles tokens additions left)
    (htidy : counter.Tidy table) (hspace : counter.HasSpace table additions) :
    counter.totals left =
        counter.totals table + Increment.total (additions.map Addition.increment) ↔
      ∀ index ∈ indices additions, counter.Lands table additions index := by
  rw [h.totals_eq htidy hspace, Int.add_right_inj, ← sum_total_partsAt,
    Finset.sum_eq_sum_iff_of_le fun index _ => h.gain_le htidy index]
  exact forall₂_congr fun index hindex => h.gain_eq_iff hindex

end Increments

/-- Where documents of hours come with their totals, and all totals name the owner,
the increments of an attempt all count exactly if no two of them meet in a shard
that has no total yet. -/
theorem lands_iff {counter : Counter} {table : Table} {additions : List Addition}
    (hobserved : ∀ addition ∈ additions, counter.Observed table addition.token)
    (hhours : ∀ t index, (table.document? (counter.levelKey .hour t index)).isSome = true →
      (table.document? (counter.group.plainKey index)).isSome = true)
    (hnamed : ∀ index document, table.document? (counter.group.plainKey index) = some document →
      document.names counter.group.owner = true) :
    (∀ index ∈ indices additions, counter.Lands table additions index) ↔
      ∀ index, table.document? (counter.group.plainKey index) = none →
        (additions.map (·.token.index)).count index ≤ 1 := by
  have hcount : ∀ index, (additions.map (·.token.index)).count index =
      (partsAt additions index).length := by
    intro index
    rw [List.count, List.countP_map, partsAt, List.length_map, List.countP_eq_length_filter]
    rfl
  -- Nobody takes a total to exist that does not.
  have habsent : ∀ index, table.document? (counter.group.plainKey index) = none →
      (partsAt additions index).map Part.present =
        List.replicate (partsAt additions index).length false := by
    intro index hnone
    rw [List.eq_replicate_iff]
    refine ⟨List.length_map _, fun present hpresent => ?_⟩
    obtain ⟨part, hpart, rfl⟩ := List.mem_map.mp hpresent
    obtain ⟨addition, haddition, rfl⟩ := List.mem_map.mp hpart
    rw [List.mem_filter, decide_eq_true_eq] at haddition
    obtain ⟨hmem, rfl⟩ := haddition
    rw [Addition.part, Bool.eq_false_iff, ne_eq, (hobserved addition hmem).finds_total, hnone]
    rintro (⟨-, hhour⟩ | hsome)
    · have htotal := hhours _ _ hhour
      rw [hnone] at htotal
      cases htotal
    · cases hsome
  constructor
  · intro h index hnone
    rw [hcount]
    by_cases hindex : index ∈ indices additions
    · have hlands := h index hindex
      rw [Lands, hnone] at hlands
      obtain ⟨more, hmore⟩ := hlands
      rw [habsent index hnone] at hmore
      cases hlength : (partsAt additions index).length with
      | zero => exact Nat.zero_le 1
      | succ length =>
        rw [hlength, List.replicate_succ, List.cons_inj_right] at hmore
        cases length with
        | zero => exact Nat.le_refl 1
        | succ length =>
          cases more with
          | zero => cases hmore
          | succ more => cases hmore
    · rw [← partsAt_ne_nil, ne_eq, not_not] at hindex
      rw [hindex]
      exact Nat.zero_le 1
  · intro h index hindex
    rw [Lands]
    cases hdocument : table.document? (counter.group.plainKey index) with
    | some document => exact hnamed index document hdocument
    | none =>
      have hone := h index hdocument
      rw [hcount] at hone
      have hpos := List.length_pos_iff.mpr (partsAt_ne_nil.mpr hindex)
      refine ⟨0, ?_⟩
      rw [habsent index hdocument, Nat.le_antisymm hone hpos]
      rfl

/-! ## After a run -/

namespace Course

variable {counter : Counter} {s : Session PendingIncrement Increment}

/-- Where nothing was removed, every document is one that the counter wrote, and names
the owner. -/
theorem regular (h : counter.Course s) {level : Level} {t : Instant} {index : Nat}
    {document : Document}
    (hdocument : s.table.document? (counter.levelKey level t index) = some document) :
    Regular counter.group.owner level t document ∧
      document.names counter.group.owner = true := by
  let key := counter.levelKey level t index
  rw [h.stored key ⟨level, t, index, rfl⟩] at hdocument
  obtain ⟨first, hfirst, rfl⟩ := Posting.tally_eq_some hdocument
  have hpositive : ∀ posting ∈ counter.posted key s.committed, 0 < posting.amount.toInt :=
    posted_pos h.positive
  have hfits : Posting.total (counter.posted key s.committed) < 2 ^ 63 := h.fits key
  have htotal : 0 < Posting.total (counter.posted key s.committed) := by
    obtain ⟨before, after, heq⟩ := List.append_of_mem hfirst
    rw [heq] at hpositive ⊢
    have hbefore := Posting.total_nonneg fun posting hposting =>
      hpositive posting (List.mem_append_left _ hposting)
    have hafter := Posting.total_nonneg fun posting hposting =>
      hpositive posting (List.mem_append_right _ (List.mem_cons_of_mem _ hposting))
    have hone := hpositive first (by simp)
    rw [Posting.total_append, Posting.total_cons]
    omega
  rw [posted_levelKey] at hfirst
  obtain ⟨increment, hincrement, rfl⟩ := List.mem_map.mp hfirst
  have hcovers := of_decide_eq_true (List.mem_filter.mp hincrement).2
  refine ⟨⟨⟨_, ShardRecord.get?_value _, ?_⟩, fun _ => ⟨ShardRecord.get?_level _, increment.time,
    ShardRecord.get?_time _, hcovers.2.2⟩⟩, ShardRecord.names_document _⟩
  rw [Int64.toInt_ofInt_of_le (by omega) hfits]
  exact htotal

theorem tidy (h : counter.Course s) : counter.Tidy s.table :=
  fun _ _ _ _ hdocument => (h.regular hdocument).1

/-- After a run without removals the increments of an attempt all count exactly if no
two of them meet in a shard that has no total yet. -/
theorem totals_iff (h : counter.Course s) {left : Table} {handles : List Counter}
    {tokens : List PendingIncrement} {additions : List Addition}
    (hadded : counter.Increments s.table handles tokens additions left)
    (hspace : counter.HasSpace s.table additions) :
    counter.totals left =
        counter.totals s.table + Increment.total (additions.map Addition.increment) ↔
      ∀ index, s.table.document? (counter.group.plainKey index) = none →
        (additions.map (·.token.index)).count index ≤ 1 := by
  rw [hadded.totals_iff h.tidy hspace]
  refine lands_iff (fun addition haddition => (hadded.addition addition haddition).1) ?_ ?_
  · intro t index hhour
    obtain ⟨increment, hincrement, hcovers⟩ := (h.isSome_iff .hour t index).mp hhour
    rw [counter.plainKey_eq t]
    exact (h.isSome_iff .total t index).mpr ⟨increment, hincrement, hcovers.coarser (by decide)⟩
  · intro index document hdocument
    rw [counter.plainKey_eq default] at hdocument
    exact (h.regular hdocument).2

end Course

end Counter

end Shardwise
