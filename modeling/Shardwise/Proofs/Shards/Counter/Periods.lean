import Shardwise.Proofs.Shards.Counter.Sums

/-!
# The periods of a counter

With the date hierarchy an increment counts in the total and in four periods, one
inside the other.  The documents of the periods follow: where one exists, those of
the coarser levels around it do, and a coarse one holds the sum of the finer ones
inside.

* `Increment.covers_iff` says which increments count for a period.
* `Counter.Course.coarser` is what a read phase relies on when it stops at the
  first document that it finds.
* `Counter.Course.sum_finer` adds up the finer documents of a period.
* `Counter.periods_exact` puts them together.
-/

namespace Shardwise

/-- An increment with the date hierarchy counts for the periods that it is in. -/
theorem Increment.covers_iff {increment : Increment} {level : Level} (h : level ≠ .total)
    {t : Instant} {index : Nat} :
    increment.Covers level t index ↔ increment.dated = true ∧ increment.index = index ∧
      level.SamePeriod increment.time t := by
  constructor
  · rintro ⟨hindex, hdated | htotal, hperiod⟩
    · exact ⟨hdated, hindex, hperiod⟩
    · exact absurd htotal h
  · rintro ⟨hdated, hindex, hperiod⟩
    exact ⟨hindex, .inl hdated, hperiod⟩

/-- What counts for a period counts for all instants in it. -/
theorem Increment.Covers.of_samePeriod {increment : Increment} {level : Level} {t u : Instant}
    {index : Nat} (h : increment.Covers level t index) (hperiod : level.SamePeriod t u) :
    increment.Covers level u index :=
  ⟨h.1, h.2.1, h.2.2.trans hperiod⟩

namespace Counter

open Session (fresh)

/-- Where a document exists, those of the coarser levels do. -/
theorem Course.coarser {counter : Counter} {s : Session PendingIncrement Increment}
    (h : counter.Course s) {level coarse : Level} (hdepth : coarse.depth ≤ level.depth)
    {t : Instant} {index : Nat}
    (hsome : (s.table.document? (counter.levelKey level t index)).isSome = true) :
    (s.table.document? (counter.levelKey coarse t index)).isSome = true := by
  obtain ⟨increment, hincrement, hcovers⟩ := (h.isSome_iff level t index).mp hsome
  exact (h.isSome_iff coarse t index).mpr ⟨increment, hincrement, hcovers.coarser hdepth⟩

/-- The documents of a finer level inside of a period are those of the increments
that count for the period. -/
theorem Course.mem_finer {counter : Counter} {s : Session PendingIncrement Increment}
    (h : counter.Course s) {level fine : Level} (hlevel : level ≠ .total)
    (hdepth : level.depth ≤ fine.depth) {t : Instant} {index : Nat} {key : DocKey} :
    key ∈ counter.keysAt fine (s.committed.filter (·.Covers level t index)) ↔
      (∃ u, level.SamePeriod u t ∧ key = counter.levelKey fine u index) ∧
        (s.table.document? key).isSome = true := by
  rw [mem_keysAt]
  constructor
  · rintro ⟨increment, hincrement, rfl⟩
    rw [List.mem_filter, decide_eq_true_eq, Increment.covers_iff hlevel] at hincrement
    obtain ⟨hcommitted, hdated, rfl, hperiod⟩ := hincrement
    refine ⟨⟨increment.time, hperiod, rfl⟩, ?_⟩
    exact (h.isSome_iff _ _ _).mpr ⟨increment, hcommitted, rfl, .inl hdated, rfl⟩
  · rintro ⟨⟨u, hperiod, rfl⟩, hsome⟩
    obtain ⟨increment, hcommitted, hcovers⟩ := (h.isSome_iff _ _ _).mp hsome
    have hcoarse := (hcovers.coarser hdepth).of_samePeriod hperiod
    refine ⟨increment, List.mem_filter.mpr ⟨hcommitted, decide_eq_true hcoarse⟩, ?_⟩
    exact levelKey_eq_iff.mpr ⟨rfl, hcovers.2.2.symm, hcovers.1.symm⟩

/-- A period holds what the finer documents inside of it hold together. -/
theorem Course.sum_finer {counter : Counter} {s : Session PendingIncrement Increment}
    (h : counter.Course s) {level fine : Level} (hlevel : level ≠ .total)
    (hdepth : level.depth ≤ fine.depth) (t : Instant) (index : Nat) :
    ((counter.keysAt fine (s.committed.filter (·.Covers level t index))).map
      (amountAt s.table)).sum = amountAt s.table (counter.levelKey level t index) := by
  rw [h.amountAt_eq level t index]
  apply h.sum_amountAt
  · intro increment _ hcovers
    rw [decide_eq_true_eq, Increment.covers_iff hlevel] at hcovers
    exact .inl hcovers.1
  · intro increment _ other _ hcovers hother
    rw [decide_eq_true_eq] at hcovers ⊢
    rw [hcovers.1] at hother
    exact (hother.coarser hdepth).of_samePeriod hcovers.2.2

/-- In every state of a run, where the document of a period exists, those of the
coarser levels around it do.  It exists exactly if an increment with the date
hierarchy was committed in the period, and it names the owner, the level and a
time in the period, and holds the exact sum of these increments.  The documents of
a finer level inside of the period add up to it. -/
theorem periods_exact {counter : Counter} {start s : Session PendingIncrement Increment}
    (hstart : counter.protocol.Starts start) (h : counter.protocol.Reaches start s) :
    (∀ level coarse t index, coarse.depth ≤ level.depth →
        (s.table.document? (counter.levelKey level t index)).isSome = true →
          (s.table.document? (counter.levelKey coarse t index)).isSome = true) ∧
      (∀ level t index, level ≠ .total →
        ((s.table.document? (counter.levelKey level t index)).isSome = true ↔
          ∃ increment ∈ s.committed, increment.dated = true ∧ increment.index = index ∧
            level.SamePeriod increment.time t) ∧
        ∀ document, s.table.document? (counter.levelKey level t index) = some document →
          ∃ n time begun, document.get? ownerField = some (.text counter.group.owner) ∧
            document.get? levelField = some (.text level.name) ∧
            document.get? timeField = some (.time time) ∧
            document.get? valueField = some (.int n) ∧
            n.toInt = Increment.total (s.committed.filter fun increment =>
              increment.dated = true ∧ increment.index = index ∧
                level.SamePeriod increment.time t) ∧
            level.start time = .ok begun ∧ level.start t = .ok begun) ∧
      ∀ level fine t index, level ≠ .total → level.depth < fine.depth →
        ∃ keys : List DocKey, keys.Nodup ∧
          (∀ key, key ∈ keys ↔
            (∃ u, level.SamePeriod u t ∧ key = counter.levelKey fine u index) ∧
              (s.table.document? key).isSome = true) ∧
          (keys.map (amountAt s.table)).sum =
            amountAt s.table (counter.levelKey level t index) := by
  have hcourse := course_of_reaches hstart h
  refine ⟨fun _ _ _ _ hdepth => hcourse.coarser hdepth, fun level t index hlevel => ⟨?_, ?_⟩, ?_⟩
  · rw [hcourse.isSome_iff]
    simp only [Increment.covers_iff hlevel]
  · intro document hdocument
    obtain ⟨n, first, hn, -, hcovers, rfl⟩ := hcourse.document_eq hdocument
    obtain ⟨begun, hbegun, -⟩ := Level.start_eq_ok hlevel t
    simp only [Increment.covers_iff hlevel] at hn hcovers
    exact ⟨n, first.time, begun, ShardRecord.get?_owner _, ShardRecord.get?_level _,
      ShardRecord.get?_time _, ShardRecord.get?_value _, hn, hcovers.2.2.trans hbegun, hbegun⟩
  · intro level fine t index hlevel hdepth
    exact ⟨_, List.nodup_dedup _, fun key => hcourse.mem_finer hlevel (Nat.le_of_lt hdepth),
      hcourse.sum_finer hlevel (Nat.le_of_lt hdepth) t index⟩

theorem periods_twoHours :
    (∃ document n, (fresh.run twoHours).table.document? (visits.levelKey .day .epoch 0) =
        some document ∧ document.get? valueField = some (.int n) ∧ n.toInt = 7) ∧
      ((fresh.run twoHours).table.document? (visits.levelKey .month secondHour 0)).isSome = true ∧
      ∃ keys : List DocKey, (∀ key ∈ keys, ∃ u, key = visits.levelKey .hour u 0) ∧
        (keys.map (amountAt (fresh.run twoHours).table)).sum = 7 := by
  have hfresh : visits.protocol.Starts fresh := .of_empty _ rfl
  obtain ⟨hcoarser, hperiods, hfiner⟩ := periods_exact hfresh reaches_twoHours
  obtain ⟨hiff, hvalue⟩ := hperiods .day .epoch 0 (by decide)
  have hsome := hiff.mpr ⟨⟨0, .epoch, true, 3⟩, by rw [committed_twoHours]; simp, rfl, rfl, rfl⟩
  obtain ⟨document, hdocument⟩ := Option.isSome_iff_exists.mp hsome
  obtain ⟨n, -, -, -, -, -, hn, hsum, -⟩ := hvalue document hdocument
  have hseven : n.toInt = 7 := by
    rw [hsum, committed_twoHours]
    decide +kernel
  have hhour := (hperiods .hour secondHour 0 (by decide)).1.mpr
    ⟨⟨0, secondHour, true, 4⟩, by rw [committed_twoHours]; simp, rfl, rfl, rfl⟩
  obtain ⟨keys, -, hkeys, hfine⟩ := hfiner .day .hour .epoch 0 (by decide) (by decide)
  refine ⟨⟨document, n, hdocument, hn, hseven⟩, hcoarser .hour .month secondHour 0 (by decide)
    hhour, keys, fun key hkey => ?_, ?_⟩
  · obtain ⟨⟨u, -, heq⟩, -⟩ := (hkeys key).mp hkey
    exact ⟨u, heq⟩
  · rw [hfine, amountAt, hdocument, Option.bind_some, hn]
    exact hseven

end Counter

end Shardwise
