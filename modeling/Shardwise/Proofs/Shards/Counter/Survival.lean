import Shardwise.Proofs.Shards.Counter.Single
import Shardwise.Proofs.Shards.Removals

/-!
# Increments after removals

A counter with the date hierarchy is incremented and removed again and again, one
call after the other.  A removal that ends early leaves some of the documents: it
goes through their keys in order, so that the totals go last.  The next increment
takes all coarser documents to exist when it finds a fine one, and where they were
removed it makes documents that do not name the owner.

* `Counter.Serves` are the states of such a history.
* `Counter.Orderly` is what all of them keep, and enough for the totals.
  `Counter.Whole` is what is kept as long as every removal goes to its end.
* `Counter.survives_iff` says what an increment adds to the totals and to the
  periods, and which documents a removal leaves for good.
-/

namespace Shardwise

namespace Counter

/-- All documents of the counter name the owner. -/
def Named (counter : Counter) (table : Table) : Prop :=
  ∀ level t index document, table.document? (counter.levelKey level t index) = some document →
    document.names counter.group.owner = true

/-- What increments and removals keep, also removals that end early. -/
structure Orderly (counter : Counter) (table : Table) : Prop where
  tidy : counter.Tidy table
  hours : ∀ t index document, table.document? (counter.levelKey .hour t index) = some document →
    document.names counter.group.owner = true
  totals : ∀ t index document, table.document? (counter.levelKey .total t index) = some document →
    document.names counter.group.owner = true
  /-- Where there is an hour there is the total. -/
  together : ∀ t index, (table.document? (counter.levelKey .hour t index)).isSome = true →
    (table.document? (counter.levelKey .total t index)).isSome = true

/-- What increments and removals keep that go to their end. -/
structure Whole (counter : Counter) (table : Table) : Prop where
  named : counter.Named table
  /-- Where there is a document there are the coarser ones. -/
  coarser : ∀ level fine t index, level.depth ≤ fine.depth →
    (table.document? (counter.levelKey fine t index)).isSome = true →
    (table.document? (counter.levelKey level t index)).isSome = true

variable {counter handle : Counter} {table left : Table}

/-! ## Where nothing is lost -/

theorem visible_of_names {owner : String} {document : Document}
    (h : document.names owner = true) : visible owner (some document) = some document.word := by
  rw [visible_some, if_pos h]

theorem Whole.not_loses (h : counter.Whole table) (level : Level) (t : Instant) (index : Nat) :
    ¬ counter.Loses table level t index := by
  rintro ⟨⟨fine, hdepth, hfine⟩, hnone⟩
  obtain ⟨document, hdocument⟩ :=
    Option.isSome_iff_exists.mp (h.coarser level fine t index hdepth hfine)
  rw [hdocument, visible_of_names (h.named level t index document hdocument)] at hnone
  cases hnone

/-- Where the counter has no documents nothing is out of order. -/
theorem Whole.of_absent
    (h : ∀ level t index, table.document? (counter.levelKey level t index) = none) :
    counter.Whole table := by
  refine ⟨fun level t index document hdocument => ?_, fun level fine t index _ hsome => ?_⟩
  · rw [h] at hdocument
    cases hdocument
  · rw [h] at hsome
    cases hsome

theorem Orderly.of_absent
    (h : ∀ level t index, table.document? (counter.levelKey level t index) = none) :
    counter.Orderly table := by
  refine ⟨fun level t index document hdocument => ?_, fun t index document hdocument => ?_,
    fun t index document hdocument => ?_, fun t index hsome => ?_⟩
  · rw [h] at hdocument
    cases hdocument
  · rw [h] at hdocument
    cases hdocument
  · rw [h] at hdocument
    cases hdocument
  · rw [h] at hsome
    cases hsome

/-! ## Other steps -/

/-- Only the documents of the counter matter. -/
theorem Orderly.congr (h : counter.Orderly table)
    (hsame : ∀ level t index, left.document? (counter.levelKey level t index) =
      table.document? (counter.levelKey level t index)) : counter.Orderly left := by
  refine ⟨fun level t index => ?_, fun t index => ?_, fun t index => ?_, fun t index => ?_⟩
  · rw [hsame]
    exact h.tidy level t index
  · rw [hsame]
    exact h.hours t index
  · rw [hsame]
    exact h.totals t index
  · rw [hsame, hsame]
    exact h.together t index

theorem Whole.congr (h : counter.Whole table)
    (hsame : ∀ level t index, left.document? (counter.levelKey level t index) =
      table.document? (counter.levelKey level t index)) : counter.Whole left := by
  refine ⟨fun level t index => ?_, fun level fine t index => ?_⟩
  · rw [hsame]
    exact h.named level t index
  · rw [hsame, hsame]
    exact h.coarser level fine t index

/-! ## Increments -/

namespace Adds

variable {env : Env Unit} {value : Int64} {token : PendingIncrement}

/-- The total is never lost where hours come with their totals, and these name the
owner. -/
theorem finds_total (h : counter.Adds handle env value token left)
    (horderly : counter.Orderly env.store.table) (hfinds : token.finds .total = true) :
    (visible counter.group.owner (env.store.table.document?
      (counter.levelKey .total (handle.clockTime env) (handle.pick env)))).isSome = true := by
  rw [h.observed.finds_total, h.index, h.time, counter.plainKey_eq (handle.clockTime env)] at hfinds
  have hsome : (env.store.table.document?
      (counter.levelKey .total (handle.clockTime env) (handle.pick env))).isSome = true := by
    rcases hfinds with ⟨-, hhour⟩ | hsome
    · exact horderly.together _ _ hhour
    · exact hsome
  obtain ⟨document, hdocument⟩ := Option.isSome_iff_exists.mp hsome
  rw [hdocument, visible_of_names (horderly.totals _ _ document hdocument)]
  rfl

/-- Neither is the hour, which is looked at in any case. -/
theorem finds_hour (h : counter.Adds handle env value token left)
    (hdated : handle.dateHierarchy = true) (horderly : counter.Orderly env.store.table)
    (hfinds : token.finds .hour = true) :
    (visible counter.group.owner (env.store.table.document?
      (counter.levelKey .hour (handle.clockTime env) (handle.pick env)))).isSome = true := by
  rw [h.observed.finds_dated (h.dated.trans hdated) (by decide), h.index, h.time] at hfinds
  obtain ⟨fine, hdepth, hsome⟩ := hfinds
  obtain rfl : fine = .hour := by
    cases fine <;> first | rfl | exact absurd hdepth (by decide)
  obtain ⟨document, hdocument⟩ := Option.isSome_iff_exists.mp hsome
  rw [hdocument, visible_of_names (horderly.hours _ _ document hdocument)]
  rfl

/-- What exists still exists. -/
theorem isSome (h : counter.Adds handle env value token left)
    (htidy : counter.Tidy env.store.table) (hroom : handle.HasRoom env value) {level : Level}
    {t : Instant} {index : Nat} :
    (left.document? (counter.levelKey level t index)).isSome = true ↔
      (token.increment value).Covers level t index ∨
        (env.store.table.document? (counter.levelKey level t index)).isSome = true := by
  by_cases hcovers : (token.increment value).Covers level t index
  · obtain ⟨document, hdocument, -⟩ := h.written htidy hroom hcovers
    simp [hdocument, hcovers]
  · rw [h.kept hcovers]
    simp [hcovers]

/-- A document names the owner, if it did or was not lost. -/
theorem names_iff (h : counter.Adds handle env value token left)
    (htidy : counter.Tidy env.store.table) (hroom : handle.HasRoom env value) {level : Level}
    {t : Instant} {index : Nat} {document : Document}
    (hdocument : left.document? (counter.levelKey level t index) = some document)
    (hcovers : (token.increment value).Covers level t index) :
    document.names counter.group.owner = true ↔ (token.finds level = true →
      (visible counter.group.owner (env.store.table.document?
        (counter.levelKey level (handle.clockTime env) (handle.pick env)))).isSome = true) := by
  obtain ⟨other, hother, hnames⟩ := h.written htidy hroom hcovers
  rw [hother] at hdocument
  cases hdocument
  rw [hnames, (h.covers_iff.mp hcovers).2]

theorem orderly (h : counter.Adds handle env value token left)
    (hdated : handle.dateHierarchy = true) (horderly : counter.Orderly env.store.table)
    (hroom : handle.HasRoom env value) : counter.Orderly left := by
  have htidy := horderly.tidy
  refine ⟨h.increments.tidy htidy (h.hasSpace hroom), fun t index document hdocument => ?_,
    fun t index document hdocument => ?_, fun t index => ?_⟩
  · by_cases hcovers : (token.increment value).Covers .hour t index
    · exact (h.names_iff htidy hroom hdocument hcovers).mpr (h.finds_hour hdated horderly)
    · rw [h.kept hcovers] at hdocument
      exact horderly.hours t index document hdocument
  · by_cases hcovers : (token.increment value).Covers .total t index
    · exact (h.names_iff htidy hroom hdocument hcovers).mpr (h.finds_total horderly)
    · rw [h.kept hcovers] at hdocument
      exact horderly.totals t index document hdocument
  · rw [h.isSome htidy hroom, h.isSome htidy hroom]
    rintro (hcovers | hsome)
    · exact .inl (hcovers.coarser (by decide))
    · exact .inr (horderly.together t index hsome)

/-- All documents name the owner afterwards if they did before and nothing was lost. -/
theorem named_iff (h : counter.Adds handle env value token left)
    (hdated : handle.dateHierarchy = true) (horderly : counter.Orderly env.store.table)
    (hroom : handle.HasRoom env value) :
    counter.Named left ↔ counter.Named env.store.table ∧ ∀ level, level ≠ .total →
      ¬ counter.Loses env.store.table level (handle.clockTime env) (handle.pick env) := by
  have htidy := horderly.tidy
  constructor
  · intro hnamed
    refine ⟨fun level t index document hdocument => ?_, fun level hlevel hloses => ?_⟩
    · by_cases hcovers : (token.increment value).Covers level t index
      · obtain ⟨hlevels, hkey⟩ := h.covers_iff.mp hcovers
        rw [hkey] at hdocument
        have hfinds : token.finds level = true := by
          by_contra hfinds
          rw [h.absent hlevels (Bool.eq_false_iff.mpr hfinds)] at hdocument
          cases hdocument
        obtain ⟨last, hlast, -⟩ := h.written htidy hroom hcovers
        have hvisible := (h.names_iff htidy hroom hlast hcovers).mp
          (hnamed level t index last hlast) hfinds
        rw [hdocument, visible_some] at hvisible
        by_contra hnames
        rw [if_neg hnames] at hvisible
        cases hvisible
      · rw [← h.kept hcovers] at hdocument
        exact hnamed level t index document hdocument
    · obtain ⟨hfinds, hnone⟩ := (h.loses_iff hdated hlevel).mp hloses
      have hcovers : (token.increment value).Covers level (handle.clockTime env)
          (handle.pick env) := by
        refine h.covers_iff.mpr ⟨?_, rfl⟩
        rw [hdated]
        cases level <;> decide
      obtain ⟨last, hlast, -⟩ := h.written htidy hroom hcovers
      have hvisible := (h.names_iff htidy hroom hlast hcovers).mp
        (hnamed level _ _ last hlast) hfinds
      rw [hnone] at hvisible
      cases hvisible
  · rintro ⟨hnamed, hkept⟩ level t index document hdocument
    by_cases hcovers : (token.increment value).Covers level t index
    · refine (h.names_iff htidy hroom hdocument hcovers).mpr fun hfinds => ?_
      by_cases hlevel : level = .total
      · subst hlevel
        exact h.finds_total horderly hfinds
      · by_contra hnone
        rw [Option.not_isSome_iff_eq_none] at hnone
        exact hkept level hlevel ((h.loses_iff hdated hlevel).mpr ⟨hfinds, hnone⟩)
    · rw [h.kept hcovers] at hdocument
      exact hnamed level t index document hdocument

theorem whole (h : counter.Adds handle env value token left)
    (hdated : handle.dateHierarchy = true) (horderly : counter.Orderly env.store.table)
    (hroom : handle.HasRoom env value) (hwhole : counter.Whole env.store.table) :
    counter.Whole left := by
  refine ⟨(h.named_iff hdated horderly hroom).mpr
    ⟨hwhole.named, fun level _ => hwhole.not_loses level _ _⟩, fun level fine t index hdepth => ?_⟩
  rw [h.isSome horderly.tidy hroom, h.isSome horderly.tidy hroom]
  rintro (hcovers | hsome)
  · exact .inl (hcovers.coarser hdepth)
  · exact .inr (hwhole.coarser level fine t index hdepth hsome)

end Adds

/-! ## Removals -/

/-- Only documents that name the owner are found. -/
theorem finds_levelKey {level : Level} {t : Instant} {index : Nat} :
    counter.group.Finds table (counter.levelKey level t index) ↔ ∃ document,
      table.document? (counter.levelKey level t index) = some document ∧
        document.names counter.group.owner = true := by
  have hcollection : (counter.levelKey level t index).collection = counter.group.collection := by
    rw [levelKey, counterShardKey_eq]
  rw [ShardGroup.Finds, hcollection]
  simp

/-- A document that is there after a removal was there before. -/
theorem document?_of_swept (h : counter.group.Swept table left) {key : DocKey}
    {document : Document} (hdocument : left.document? key = some document) :
    left.get? key = table.get? key := by
  rcases h.entry key with hkept | ⟨hnone, -⟩
  · exact hkept
  · rw [Table.document?_eq_none.mpr hnone] at hdocument
    cases hdocument

theorem Orderly.swept (horderly : counter.Orderly table) (h : counter.group.Swept table left) :
    counter.Orderly left := by
  have hbefore : ∀ key document, left.document? key = some document →
      table.document? key = some document := by
    intro key document hdocument
    rw [← hdocument, Table.document?, Table.document?, document?_of_swept h hdocument]
  refine ⟨fun level t index document hdocument => ?_, fun t index document hdocument => ?_,
    fun t index document hdocument => ?_, fun t index hsome => ?_⟩
  · exact horderly.tidy level t index document (hbefore _ _ hdocument)
  · exact horderly.hours t index document (hbefore _ _ hdocument)
  · exact horderly.totals t index document (hbefore _ _ hdocument)
  · -- The total can only be gone if the hour before it is gone as well.
    obtain ⟨hour, hhour⟩ := Option.isSome_iff_exists.mp hsome
    have hhour' := hbefore _ _ hhour
    have hsome' : (table.document? (counter.levelKey .hour t index)).isSome = true := by
      rw [hhour']
      rfl
    obtain ⟨total, htotal⟩ := Option.isSome_iff_exists.mp (horderly.together t index hsome')
    rcases h.entry (counter.levelKey .total t index) with hkept | ⟨hgone, -⟩
    · rw [Table.document?, hkept, ← Table.document?, htotal]
      rfl
    · have hlt : compare (counter.levelKey .hour t index) (counter.levelKey .total t index) = .lt :=
        counterShardKey_lt_total _ _ (by decide) t t index index
      have hnone := h.order _ _ (finds_levelKey.mpr ⟨total, htotal, horderly.totals _ _ _ htotal⟩)
        (finds_levelKey.mpr ⟨hour, hhour', horderly.hours _ _ _ hhour'⟩) hlt hgone
      rw [Table.document?_eq_none.mpr hnone] at hhour
      cases hhour

/-- After a removal to the end there are no documents exactly if all named the
owner. -/
theorem absent_iff_named (h : counter.group.Swept table left)
    (hdone : ∀ key, ¬ counter.group.Finds left key) :
    (∀ level t index, left.document? (counter.levelKey level t index) = none) ↔
      counter.Named table := by
  constructor
  · intro habsent level t index document hdocument
    rcases h.entry (counter.levelKey level t index) with hkept | ⟨-, hfinds⟩
    · have hnone := habsent level t index
      rw [Table.document?, hkept, ← Table.document?, hdocument] at hnone
      cases hnone
    · obtain ⟨other, hother, hnames⟩ := finds_levelKey.mp hfinds
      rw [hother] at hdocument
      cases hdocument
      exact hnames
  · intro hnamed level t index
    cases hdocument : left.document? (counter.levelKey level t index) with
    | none => rfl
    | some document =>
      have hkept := document?_of_swept h hdocument
      have hbefore : table.document? (counter.levelKey level t index) = some document := by
        rw [← hdocument, Table.document?, Table.document?, hkept]
      exact absurd (finds_levelKey.mpr ⟨document, hdocument, hnamed _ _ _ _ hbefore⟩) (hdone _)

/-- A removal leaves a table that was swept. -/
theorem delete_swept (hsame : counter.Same handle) {ctx : Context} {env left : Env Unit}
    {outcome : Except Error Bool} (h : (handle.delete ctx).runIn env = (outcome, left)) :
    counter.group.Swept env.store.table left.store.table ∧
      (outcome = .ok true → ∀ key, ¬ counter.group.Finds left.store.table key) := by
  have hfinds := ShardGroup.finds_eq hsame.1 hsame.2
  obtain ⟨hswept, hdone⟩ := handle.group.deleteShards_swept ctx handle.maxDeleteRounds h
  rw [hfinds] at hdone
  exact ⟨hswept.of_finds_eq hfinds, hdone⟩

/-! ## Histories -/

/-- The states in which nobody but the counter used its documents, through any
handles that keep the date hierarchy, call by call.  `done` says that all removals
so far went to their end. -/
inductive Serves (counter : Counter) : (done : Bool) → Env Unit → Prop
  | start {env : Env Unit}
      (absent : ∀ level t index,
        env.store.table.document? (counter.levelKey level t index) = none) :
      Serves counter true env
  /-- The clocks are moved, contexts end, random numbers come up, and others change
  other documents. -/
  | around {done : Bool} {env left : Env Unit} (before : Serves counter done env)
      (same : ∀ level t index, left.store.table.document? (counter.levelKey level t index) =
        env.store.table.document? (counter.levelKey level t index)) :
      Serves counter done left
  | increment {done : Bool} {env left : Env Unit} {handle : Counter} {ctx : Context}
      {value : Int64} {outcome : Except Error Unit} (before : Serves counter done env)
      (same : counter.Same handle) (dated : handle.dateHierarchy = true)
      (run : (handle.increment ctx value).runIn env = (outcome, left))
      (room : outcome = .ok () → handle.HasRoom env value) : Serves counter done left
  | delete {done : Bool} {env left : Env Unit} {handle : Counter} {ctx : Context}
      {outcome : Except Error Bool} (before : Serves counter done env)
      (same : counter.Same handle) (run : (handle.delete ctx).runIn env = (outcome, left)) :
      Serves counter (done && outcome.toOption == some true) left

/-- All states keep the order; as long as all removals go to their end, nothing is
lost. -/
theorem Serves.orderly {done : Bool} {env : Env Unit} (h : counter.Serves done env) :
    counter.Orderly env.store.table ∧ (done = true → counter.Whole env.store.table) := by
  induction h with
  | start absent => exact ⟨.of_absent absent, fun _ => .of_absent absent⟩
  | around before same ih => exact ⟨ih.1.congr same, fun hdone => (ih.2 hdone).congr same⟩
  | @increment done env left handle ctx value outcome before same dated run room ih =>
    rcases increment_cases same ctx value env with
      ⟨error, other, hfailed, htable⟩ | ⟨token, other, hok, hadds⟩
    · cases hfailed.symm.trans run
      rw [htable]
      exact ih
    · cases hok.symm.trans run
      have hroom := room rfl
      exact ⟨hadds.orderly dated ih.1 hroom, fun hdone =>
        hadds.whole dated ih.1 hroom (ih.2 hdone)⟩
  | @delete done env left handle ctx outcome before same run ih =>
    obtain ⟨hswept, hnone⟩ := delete_swept same run
    refine ⟨ih.1.swept hswept, fun hdone => ?_⟩
    rw [Bool.and_eq_true, beq_iff_eq] at hdone
    have hok : outcome = .ok true := by
      cases outcome with
      | error error => cases hdone.2
      | ok result => rw [Option.some.inj hdone.2]
    exact .of_absent ((absent_iff_named hswept (hnone hok)).mpr (ih.2 hdone.1).named)

/-- An increment that succeeds adds its number to the totals.  To the period of a
dated level it adds it, unless the document is lost, and then it adds nothing.

Afterwards all documents name the owner if they did before and none was lost.  A
removal to the end leaves the other ones for good.

As long as all removals go to their end, all documents name the owner and none is
lost. -/
theorem survives_iff {done : Bool} {env : Env Unit} (h : counter.Serves done env) :
    (∀ handle ctx value left, counter.Same handle → handle.dateHierarchy = true →
      (handle.increment ctx value).runIn env = (.ok (), left) → handle.HasRoom env value →
        counter.totals left.store.table = counter.totals env.store.table + value.toInt ∧
        (∀ level, level ≠ .total →
          (counter.bucket left.store.table level (handle.clockTime env) =
              counter.bucket env.store.table level (handle.clockTime env) + value.toInt ↔
            ¬ counter.Loses env.store.table level (handle.clockTime env) (handle.pick env)) ∧
          (counter.Loses env.store.table level (handle.clockTime env) (handle.pick env) →
            counter.bucket left.store.table level (handle.clockTime env) =
              counter.bucket env.store.table level (handle.clockTime env))) ∧
        (counter.Named left.store.table ↔ counter.Named env.store.table ∧
          ∀ level, level ≠ .total →
            ¬ counter.Loses env.store.table level (handle.clockTime env) (handle.pick env))) ∧
    (∀ handle ctx left, counter.Same handle →
      (handle.delete ctx).runIn env = (.ok true, left) →
        ((∀ level t index,
            left.store.table.document? (counter.levelKey level t index) = none) ↔
          counter.Named env.store.table)) ∧
    (done = true → counter.Named env.store.table ∧
      ∀ level t index, ¬ counter.Loses env.store.table level t index) := by
  obtain ⟨horderly, hwhole⟩ := h.orderly
  refine ⟨?_, ?_, fun hdone => ⟨(hwhole hdone).named, (hwhole hdone).not_loses⟩⟩
  · intro handle ctx value left hsame hdated hrun hroom
    obtain ⟨token, hadds⟩ : ∃ token, counter.Adds handle env value token left.store.table := by
      rcases increment_cases hsame ctx value env with
        ⟨error, other, hfailed, -⟩ | ⟨token, other, hok, hadds⟩
      · cases hfailed.symm.trans hrun
      · cases hok.symm.trans hrun
        exact ⟨token, hadds⟩
    have hlevels : ∀ level, level ∈ Increment.levelsOf handle.dateHierarchy := by
      rw [hdated]
      intro level
      cases level <;> decide
    refine ⟨?_, fun level hlevel => ?_, hadds.named_iff hdated horderly hroom⟩
    · rw [totals_eq, totals_eq, hadds.sumOf_eq horderly.tidy hroom
        (takes_total counter.group.owner) (hlevels .total) rfl fun other _ => beq_iff_eq.mp,
        if_neg]
      rintro ⟨hfinds, hnone⟩
      have hsome := hadds.finds_total horderly hfinds
      rw [hnone] at hsome
      cases hsome
    · have hsum := hadds.sumOf_eq horderly.tidy hroom
        (takes_period counter.group.owner level (handle.clockTime env)) (hlevels level)
        (by simp [Level.SamePeriod])
        fun other t hplace => beq_iff_eq.mp (Bool.and_eq_true_iff.mp hplace).1
      rw [← bucket_eq, ← bucket_eq] at hsum
      have hpos := hadds.positive
      rw [hadds.loses_iff hdated hlevel]
      split at hsum
      · rename_i hlost
        refine ⟨⟨fun hraised => ?_, fun hkept => absurd hlost hkept⟩, fun _ => ?_⟩ <;> omega
      · rename_i hkept
        exact ⟨⟨fun _ => hkept, fun _ => hsum⟩, fun hlost => absurd hlost hkept⟩
  · intro handle ctx left hsame hrun
    obtain ⟨hswept, hnone⟩ := delete_swept hsame hrun
    exact absent_iff_named hswept (hnone rfl)

/-! ## Two histories -/

open Session (live)

/-- A counter of visitors with one shard, whose removals stop after some batches. -/
def visitors (rounds : Nat) : Counter where
  group := ⟨"counters", "visitor", 1⟩
  dateHierarchy := true
  clock := .manual
  maxDeleteRounds := rounds

/-- Nothing was counted yet. -/
def unvisited : Env Unit := { user := () }

/-- Some visitors come. -/
def visit (value : Int64) (env : Env Unit) : Env Unit :=
  ((visitors 0).increment live value).runIn env |>.2

/-- An hour has passed. -/
def later (env : Env Unit) : Env Unit := { env with manualClock := secondHour }

/-- The counter is removed, in some batches. -/
def removed (rounds : Nat) (env : Env Unit) : Env Unit :=
  ((visitors rounds).delete live).runIn env |>.2

theorem Serves.visit {done : Bool} {value : Int64} {env : Env Unit}
    (h : (visitors 0).Serves done env) (hroom : (visitors 0).HasRoom env value) :
    (visitors 0).Serves done (visit value env) :=
  .increment h ⟨rfl, rfl⟩ rfl rfl fun _ => hroom

theorem Serves.later {done : Bool} {env : Env Unit} (h : (visitors 0).Serves done env) :
    (visitors 0).Serves done (later env) :=
  .around h fun _ _ _ => rfl

theorem Serves.removed {done : Bool} {env : Env Unit} (h : (visitors 0).Serves done env)
    (rounds : Nat) :
    (visitors 0).Serves (done && (((visitors rounds).delete live).runIn env).1.toOption ==
      some true) (removed rounds env) :=
  .delete h (show (visitors 0).Same (visitors rounds) from ⟨rfl, rfl⟩) rfl

theorem visit_ok {value : Int64} {env : Env Unit}
    (h : (((visitors 0).increment live value).runIn env).1.isOk = true) :
    ((visitors 0).increment live value).runIn env = (.ok (), Counter.visit value env) := by
  rcases hrun : ((visitors 0).increment live value).runIn env with ⟨error | _, left⟩
  · rw [hrun] at h
    cases h
  · rw [Counter.visit, hrun]

instance (counter : Counter) (env : Env Unit) (value : Int64) :
    Decidable (counter.HasRoom env value) :=
  inferInstanceAs (Decidable (∀ level ∈ Increment.levelsOf counter.dateHierarchy, _ < _))

/-- Three visitors, and then a removal to the end. -/
def emptied : Env Unit := removed 3 (visit 3 unvisited)

theorem survives_emptied :
    (visitors 0).totals (visit 4 emptied).store.table =
        (visitors 0).totals emptied.store.table + 4 ∧
      (visitors 0).bucket (visit 4 emptied).store.table .day .epoch =
        (visitors 0).bucket emptied.store.table .day .epoch + 4 ∧
      (visitors 0).Named (visit 4 emptied).store.table := by
  obtain ⟨hfirst, hdone, hclock, hroom, hok⟩ : (visitors 0).HasRoom unvisited 3 ∧
      (((visitors 3).delete live).runIn (visit 3 unvisited)).1.toOption = some true ∧
      (visitors 0).clockTime emptied = .epoch ∧ (visitors 0).HasRoom emptied 4 ∧
      (((visitors 0).increment live 4).runIn emptied).1.isOk = true := by
    decide +kernel
  have hstart : (visitors 0).Serves true unvisited := .start fun _ _ _ => rfl
  have hserves : (visitors 0).Serves true emptied := by
    have hremoved := (hstart.visit hfirst).removed 3
    rw [hdone] at hremoved
    exact hremoved
  obtain ⟨hincrement, -, hwhole⟩ := survives_iff hserves
  obtain ⟨hnamed, hkept⟩ := hwhole rfl
  obtain ⟨htotals, hperiods, hall⟩ := hincrement (visitors 0) live 4 (visit 4 emptied) ⟨rfl, rfl⟩
    rfl (visit_ok hok) hroom
  rw [hclock] at hperiods
  exact ⟨htotals, (hperiods .day (by decide)).1.mpr (hkept _ _ _),
    hall.mpr ⟨hnamed, fun level _ => hkept level _ _⟩⟩

/-- Three visitors and an hour later four, and then one batch of the removal: it
takes the day and the first hour. -/
def halfway : Env Unit := removed 1 (visit 4 (later (visit 3 unvisited)))

/-- Five visitors that come then are not in the sum of the day, whose document does
not name the owner. -/
theorem not_survives_halfway :
    (visitors 0).Serves false halfway ∧ (visitors 0).HasRoom halfway 5 ∧
      ((visitors 0).increment live 5).runIn halfway = (.ok (), visit 5 halfway) ∧
      (visitors 0).bucket halfway.store.table .day secondHour = 0 ∧
      (visitors 0).bucket (visit 5 halfway).store.table .day secondHour = 0 ∧
      ((visit 5 halfway).store.table.document?
        ((visitors 0).levelKey .day secondHour 0)).map (·.names "visitor") = some false := by
  obtain ⟨hfirst, hsecond, hdone, hroom, hok, hbefore, hafter, hnames⟩ :
      (visitors 0).HasRoom unvisited 3 ∧ (visitors 0).HasRoom (later (visit 3 unvisited)) 4 ∧
      (((visitors 1).delete live).runIn (visit 4 (later (visit 3 unvisited)))).1.toOption =
        some false ∧
      (visitors 0).HasRoom halfway 5 ∧
      (((visitors 0).increment live 5).runIn halfway).1.isOk = true ∧
      (visitors 0).bucket halfway.store.table .day secondHour = 0 ∧
      (visitors 0).bucket (visit 5 halfway).store.table .day secondHour = 0 ∧
      ((visit 5 halfway).store.table.document?
        ((visitors 0).levelKey .day secondHour 0)).map (·.names "visitor") = some false := by
    decide +kernel
  have hstart : (visitors 0).Serves true unvisited := .start fun _ _ _ => rfl
  have hserves : (visitors 0).Serves false halfway := by
    have hremoved := ((hstart.visit hfirst).later.visit hsecond).removed 1
    rw [hdone] at hremoved
    exact hremoved
  exact ⟨hserves, hroom, visit_ok hok, hbefore, hafter, hnames⟩

end Counter

end Shardwise
