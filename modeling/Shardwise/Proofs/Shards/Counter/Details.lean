import Shardwise.Proofs.Shards.Counter.Additions
import Shardwise.Proofs.Shards.Schema

/-!
# The sums of periods

`Counter.detailPeriod` goes through the documents of a level and adds each to the
period that its time lies in.

* `Counter.addToPeriod_eq_ok_iff` says what one document does.
* `Counter.foldlM_addToPeriod` says of which documents the sum of a period is made.
-/

namespace Shardwise

namespace Instant

/-- The instant is in the range from `since` on and before `before`. -/
def InRange (since before t : Instant) : Prop := since ≤ t ∧ t < before

theorem inRange_iff {since before t : Instant} :
    InRange since before t ↔ ((compare t since).isGE && (compare t before).isLT) = true := by
  rw [Bool.and_eq_true, Std.OrientedCmp.isGE_iff_isLE, Ordering.isLT_iff_eq_lt]
  exact Iff.rfl

end Instant

namespace Counter

open Instant (InRange)

variable {level : Level} {since before begun : Instant} {document : Document}
  {documents : List Document} {sums next last : PeriodSums}

/-! ## One document -/

/-- The document is a shard with a time, whose period begins at `begun`. -/
def Begins (level : Level) (document : Document) (begun : Instant) : Prop :=
  ∃ record time, ShardRecord.ofDocument document = .ok record ∧ record.time = some time ∧
    level.start time = .ok begun

/-- The document holds a time whose period begins at `begun`. -/
def beginsAt (level : Level) (begun : Instant) (document : Document) : Bool :=
  match document.get? timeField with
  | some (.time t) => decide (level.start t = .ok begun)
  | _ => false

theorem beginsAt_eq_true : beginsAt level begun document = true ↔
    ∃ t, document.get? timeField = some (.time t) ∧ level.start t = .ok begun := by
  unfold beginsAt
  split
  · rename_i t htime
    simp [htime]
  · rename_i hother
    simp only [Bool.false_eq_true, false_iff]
    rintro ⟨t, htime, -⟩
    exact hother t htime

/-- A document has one period only. -/
theorem Begins.beginsAt_iff (h : Begins level document begun) (other : Instant) :
    beginsAt level other document = true ↔ other = begun := by
  obtain ⟨record, time, hrecord, htime, hstart⟩ := h
  rw [beginsAt, (ShardRecord.ofDocument_eq_ok hrecord).2 time htime, decide_eq_true_eq, hstart,
    Except.ok.injEq, eq_comm]

theorem Begins.beginsAt_self (h : Begins level document begun) :
    beginsAt level begun document = true :=
  (h.beginsAt_iff begun).mpr rfl

/-- What a document counts for. -/
def amount (document : Document) : Except Error Float := do
  (← document.field valueField).toFloat valueField

/-- A document needs a period, and the number that it counts for is read and added if that
begins in the range. -/
theorem addToPeriod_eq_ok_iff :
    addToPeriod level since before sums document = .ok next ↔
      ∃ begun, Begins level document begun ∧
        ((InRange since before begun ∧ ∃ x, amount document = .ok x ∧
            next = sums.insert begun (sums[begun]?.getD 0.0 + x)) ∨
          ¬ InRange since before begun ∧ next = sums) := by
  unfold addToPeriod Begins
  cases hrecord : ShardRecord.ofDocument document with
  | error error => simp [bind, Except.bind]
  | ok record =>
    cases htime : record.time with
    | none => simp [htime, bind, Except.bind, throw, throwThe, MonadExceptOf.throw]
    | some time =>
      cases hstart : level.start time with
      | error error => simp [htime, hstart, bind, Except.bind]
      | ok begun =>
        have hamount : amount document = record.value.toFloat valueField := by
          rw [amount, (ShardRecord.ofDocument_eq_ok hrecord).1]
          rfl
        have honly : ∀ other, (∃ read time, (.ok record : Except Error ShardRecord) = .ok read ∧
            read.time = some time ∧ level.start time = .ok other) ↔ begun = other := by
          simp [htime, hstart]
        simp only [honly, exists_eq_left', hamount, Instant.inRange_iff, htime, hstart, bind,
          Except.bind]
        by_cases hin : ((compare begun since).isGE && (compare begun before).isLT) = true
        · rw [if_pos hin]
          cases hfloat : record.value.toFloat valueField with
          | error error => simp only [hin, reduceCtorEq, false_and, exists_false, and_false,
              not_true, or_self]
          | ok x => simp only [hin, pure, Except.pure, Except.ok.injEq, exists_eq_left',
              true_and, not_true, false_and, or_false, eq_comm]
        · rw [if_neg hin]
          simp only [hin, pure, Except.pure, Except.ok.injEq, false_and, false_or,
            Bool.false_eq_true, not_false_eq_true, true_and, eq_comm]

/-- A sum is made of what the documents count for. -/
theorem sumValues_eq (documents : List Document) :
    sumValues documents = documents.foldlM (fun sum document => do
      return sum + (← amount document)) 0.0 := by
  simp only [sumValues, amount, bind_assoc]

/-- One more document: it counts for its own period only. -/
theorem addToPeriod_eq_ok (hin : InRange since before begun)
    (h : addToPeriod level since before sums document = .ok next) :
    (if beginsAt level begun document then do
        return sums[begun]?.getD 0.0 + (← amount document)
      else .ok (sums[begun]?.getD 0.0)) = .ok (next[begun]?.getD 0.0) := by
  obtain ⟨other, hother, hnext⟩ := addToPeriod_eq_ok_iff.mp h
  by_cases heq : begun = other
  · subst heq
    rw [if_pos hother.beginsAt_self]
    obtain ⟨-, x, hx, rfl⟩ | ⟨hout, -⟩ := hnext
    · rw [hx, Std.ExtTreeMap.getElem?_insert_self]
      rfl
    · exact absurd hin hout
  · rw [if_neg (mt (hother.beginsAt_iff begun).mp heq)]
    obtain ⟨-, x, -, rfl⟩ | ⟨-, rfl⟩ := hnext
    · rw [Std.ExtTreeMap.getElem?_insert, if_neg]
      simpa using Ne.symm heq
    · rfl

/-! ## All documents -/

/-- The sum of a period in the range is made of the documents whose times lie in it. -/
theorem foldlM_addToPeriod (hin : InRange since before begun)
    (h : documents.foldlM (addToPeriod level since before) sums = .ok last) :
    (documents.filter (beginsAt level begun)).foldlM (fun sum document => do
        return sum + (← amount document)) (sums[begun]?.getD 0.0) =
      .ok (last[begun]?.getD 0.0) := by
  induction documents generalizing sums with
  | nil =>
    cases h
    rfl
  | cons document documents ih =>
    rw [List.foldlM_cons] at h
    cases hnext : addToPeriod level since before sums document with
    | error error =>
      rw [hnext] at h
      cases h
    | ok next =>
      rw [hnext] at h
      have hone := addToPeriod_eq_ok hin hnext
      have hmore := ih h
      rw [List.filter_cons]
      cases hbegins : beginsAt level begun document with
      | false =>
        rw [hbegins] at hone
        rw [if_neg (by simp), Except.ok.inj hone]
        exact hmore
      | true =>
        rw [hbegins, if_pos rfl] at hone
        rw [if_pos rfl, List.foldlM_cons, hone]
        exact hmore

end Counter

end Shardwise
