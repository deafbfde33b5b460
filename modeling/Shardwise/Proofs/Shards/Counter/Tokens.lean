import Mathlib.Data.List.Nodup
import Shardwise.Proofs.Shards.Counter.Course

/-!
# What a read phase sees

The token of an increment says of each document whether it exists: it was found, or
a finer one was.  `Counter.observe` computes this from a table, and
`Counter.incrementRead_eq` says that it is what a read phase returns.

* `PendingIncrement.finds` is what a token takes the document of a level for.
  `Counter.Observed.finds_dated` and `finds_total` say what is behind it: any finer
  document of the date hierarchy, or for the total that of the hour.
* `Counter.Placed.writesOn` are the writes of a token on one shard.
-/

namespace Shardwise

/-- The token takes the document of a level to exist. -/
def PendingIncrement.finds (token : PendingIncrement) (level : Level) : Bool :=
  token.shards.any fun shard => shard.level == level && shard.present

namespace Counter

variable {υ : Type}

/-! ## Looking at a table -/

/-- What a look at the documents of some levels sees, finest first, where `found`
says that a finer one was found. -/
def looked (counter : Counter) (table : Table) (time : Instant) (index : Nat) :
    Bool → List Level → List LevelShard
  | _, [] => []
  | found, level :: coarser =>
    let key := counter.levelKey level time index
    let present := found || (table.document? key).isSome
    ⟨level, key, present⟩ :: counter.looked table time index present coarser

/-- What the read phase of an increment sees of the documents of a shard. -/
def observe (counter : Counter) (table : Table) (time : Instant) (index : Nat) :
    List LevelShard :=
  let dated := if counter.dateHierarchy then
    counter.looked table time index false Level.datedFinestFirst else []
  dated ++ counter.looked table time index (finestPresent dated) [.total]

/-- The time that the counter's clock shows. -/
def clockTime (counter : Counter) (env : Env υ) : Instant :=
  match counter.clock with
  | .manual => env.manualClock
  | .system => env.systemClock

theorem runIn_now (counter : Counter) (attempt : Attempt) (env : Env υ) :
    counter.now.runIn attempt env = (.ok (counter.clockTime env), attempt, env) := by
  unfold now clockTime
  cases counter.clock <;> rfl

/-! ## Read phases -/

theorem eq_of_look {counter : Counter} {ctx : Context} {found : Bool} {key : DocKey}
    {attempt later : Attempt} {env left : Env υ} {present : Bool}
    (h : (counter.look ctx found key).runIn attempt env = (.ok present, later, left)) :
    present = (found || (env.store.table.document? key).isSome) := by
  cases found
  · exact (isPresent_eq_ok h).1
  · cases h
    rfl

theorem eq_of_probe {counter : Counter} {ctx : Context} {time : Instant} {index : Nat}
    {levels : List Level} {found : Bool} {attempt later : Attempt} {env left : Env υ}
    {shards : List LevelShard}
    (h : (counter.probe ctx time index found levels).runIn attempt env =
      (.ok shards, later, left)) :
    shards = counter.looked env.store.table time index found levels := by
  induction levels generalizing found attempt env shards with
  | nil =>
    cases h
    rfl
  | cons level coarser ih =>
    rw [probe_cons] at h
    obtain ⟨present, between, env₁, hlook, h₁⟩ := TxOp.runIn_bind_eq_ok.mp h
    obtain ⟨more, hrest, rfl⟩ := TxOp.runIn_map_eq_ok.mp h₁
    have htable : env₁.store.table = env.store.table :=
      congrArg Store.table (look_eq_ok hlook).1
    rw [ih hrest, htable, eq_of_look hlook]
    rfl

theorem eq_of_probeAll {counter : Counter} {ctx : Context} {time : Instant} {index : Nat}
    {attempt later : Attempt} {env left : Env υ} {shards : List LevelShard}
    (h : (counter.probeAll ctx time index).runIn attempt env = (.ok shards, later, left)) :
    shards = counter.observe env.store.table time index := by
  rw [probeAll_eq] at h
  obtain ⟨dated, between, env₁, hdated, h₁⟩ := TxOp.runIn_bind_eq_ok.mp h
  obtain ⟨last, htotal, rfl⟩ := TxOp.runIn_map_eq_ok.mp h₁
  have htable : env₁.store.table = env.store.table :=
    congrArg Store.table ((counter.readsOnly_probe ctx time index _ _).store_eq hdated)
  have hseen : dated = if counter.dateHierarchy then
      counter.looked env.store.table time index false Level.datedFinestFirst else [] := by
    rw [eq_of_probe hdated]
    cases counter.dateHierarchy <;> rfl
  rw [eq_of_probe htotal, htable, observe, ← hseen]

/-- A read phase that succeeds returns what it sees of the shard that it chose. -/
theorem incrementRead_eq {counter : Counter} {ctx : Context} {attempt later : Attempt}
    {env left : Env υ} {token : PendingIncrement}
    (h : (counter.incrementRead ctx).runIn attempt env = (.ok token, later, left)) :
    token.index = env.picks.headD 0 % counter.group.numShards ∧
      token.time = counter.clockTime env ∧
      token.shards = counter.observe env.store.table token.time token.index := by
  unfold incrementRead at h
  obtain ⟨_, checked, env₁, hcheck, h₁⟩ := TxOp.runIn_bind_eq_ok.mp h
  obtain ⟨index, picked, env₂, hpick, h₂⟩ := TxOp.runIn_bind_eq_ok.mp h₁
  obtain ⟨time, timed, env₃, hnow, h₃⟩ := TxOp.runIn_bind_eq_ok.mp h₂
  obtain ⟨shards, probed, env₄, hprobe, h₄⟩ := TxOp.runIn_bind_eq_ok.mp h₃
  rw [TxOp.runIn_bind, TxOp.runIn_attempt] at h₄
  cases h₄
  have henv : env₁ = env := by
    rcases counter.group.checkRead_cases ctx attempt env with ⟨error, hcase⟩ | ⟨hcase, -⟩
    · rw [hcase] at hcheck
      cases hcheck
    · rw [hcase] at hcheck
      cases hcheck
      rfl
  rw [TxOp.runIn_pickShard] at hpick
  cases hpick
  rw [runIn_now] at hnow
  cases hnow
  have hshards := eq_of_probeAll hprobe
  rw [henv] at hshards ⊢
  exact ⟨rfl, rfl, hshards⟩

/-! ## What a token takes documents for -/

theorem map_looked (counter : Counter) (table : Table) (time : Instant) (index : Nat)
    (found : Bool) (levels : List Level) :
    (counter.looked table time index found levels).map (fun shard => (shard.level, shard.key)) =
      levels.map fun level => (level, counter.levelKey level time index) := by
  induction levels generalizing found with
  | nil => rfl
  | cons level coarser ih => rw [looked, List.map_cons, ih, List.map_cons]

/-- The documents that a read phase looks at are those of its levels. -/
theorem map_observe (counter : Counter) (table : Table) (time : Instant) (index : Nat) :
    (counter.observe table time index).map (fun shard => (shard.level, shard.key)) =
      (Increment.levelsOf counter.dateHierarchy).map fun level =>
        (level, counter.levelKey level time index) := by
  unfold observe
  rw [List.map_append, map_looked]
  cases counter.dateHierarchy
  · rfl
  · simp only [if_true, map_looked]
    rfl

/-- The token is what a read phase of the counter makes of a table. -/
def Observed (counter : Counter) (table : Table) (token : PendingIncrement) : Prop :=
  ∃ handle, counter.Same handle ∧ token.shards = handle.observe table token.time token.index

theorem Observed.of_read {counter handle : Counter} (hsame : counter.Same handle) {ctx : Context}
    {attempt later : Attempt} {env left : Env υ} {token : PendingIncrement}
    (h : (handle.incrementRead ctx).runIn attempt env = (.ok token, later, left)) :
    counter.Observed env.store.table token :=
  ⟨handle, hsame, (incrementRead_eq h).2.2⟩

/-- The handle keeps the date hierarchy exactly if the token does. -/
theorem dated_of_observe {handle : Counter} {table : Table} {token : PendingIncrement}
    (h : token.shards = handle.observe table token.time token.index) :
    token.dated = handle.dateHierarchy :=
  dated_of_places (by rw [h, map_observe])

theorem Observed.placed {counter : Counter} {table : Table} {token : PendingIncrement}
    (h : counter.Observed table token) : counter.Placed token := by
  obtain ⟨handle, hsame, hshards⟩ := h
  rw [Placed, hshards, map_observe, dated_of_observe hshards]
  simp only [hsame.levelKey_eq]

theorem exists_level {p : Level → Prop} :
    (∃ level, p level) ↔ p .total ∨ p .year ∨ p .month ∨ p .day ∨ p .hour := by
  constructor
  · rintro ⟨level, h⟩
    cases level <;> simp [h]
  · rintro (h | h | h | h | h) <;> exact ⟨_, h⟩

/-- A document of the date hierarchy is taken to exist if it does, or any finer one
does. -/
theorem Observed.finds_dated {counter : Counter} {table : Table} {token : PendingIncrement}
    (h : counter.Observed table token) (hdated : token.dated = true) {level : Level}
    (hlevel : level ≠ .total) :
    token.finds level = true ↔ ∃ fine, level.depth ≤ fine.depth ∧
      (table.document? (counter.levelKey fine token.time token.index)).isSome = true := by
  obtain ⟨handle, hsame, hshards⟩ := h
  have hhierarchy := dated_of_observe hshards
  rw [hdated] at hhierarchy
  simp only [PendingIncrement.finds, hshards, observe, ← hhierarchy, if_true, looked,
    Level.datedFinestFirst, hsame.levelKey_eq, exists_level]
  cases level with
  | total => exact absurd rfl hlevel
  | year => simp [Level.depth]; grind
  | month => simp [Level.depth]; grind
  | day => simp [Level.depth]; grind
  | hour => simp [Level.depth]

/-- The total is taken to exist if it does, or the document of the hour does. -/
theorem Observed.finds_total {counter : Counter} {table : Table} {token : PendingIncrement}
    (h : counter.Observed table token) :
    token.finds .total = true ↔
      token.dated = true ∧
        (table.document? (counter.levelKey .hour token.time token.index)).isSome = true ∨
      (table.document? (counter.group.plainKey token.index)).isSome = true := by
  obtain ⟨handle, hsame, hshards⟩ := h
  have hhierarchy := dated_of_observe hshards
  have hkey : counter.group.plainKey token.index =
      counter.levelKey .total token.time token.index := rfl
  simp only [PendingIncrement.finds, hshards, observe, hhierarchy, looked,
    Level.datedFinestFirst, hsame.levelKey_eq, hkey]
  cases handle.dateHierarchy <;> simp [finestPresent]

/-! ## The writes of a token -/

theorem nodup_levelsOf (dated : Bool) : (Increment.levelsOf dated).Nodup := by
  cases dated <;> decide

/-- A token says one thing of each level. -/
theorem Placed.finds_eq {counter : Counter} {token : PendingIncrement}
    (h : counter.Placed token) {shard : LevelShard} (hshard : shard ∈ token.shards) :
    token.finds shard.level = shard.present := by
  have hlevels : token.shards.map LevelShard.level = Increment.levelsOf token.dated := by
    have hmap := congrArg (List.map Prod.fst) h
    simpa [Function.comp_def] using hmap
  have hnodup : (token.shards.map LevelShard.level).Nodup := hlevels ▸ nodup_levelsOf _
  rw [PendingIncrement.finds, Bool.eq_iff_iff, List.any_eq_true]
  constructor
  · rintro ⟨other, hother, hfound⟩
    rw [Bool.and_eq_true, beq_iff_eq] at hfound
    rw [← List.inj_on_of_nodup_map hnodup hother hshard hfound.1]
    exact hfound.2
  · intro hpresent
    exact ⟨shard, hshard, by simp [hpresent]⟩

/-- The writes of a token on a shard: one if the increment counts for it. -/
theorem Placed.writesOn {counter : Counter} {token : PendingIncrement}
    (h : counter.Placed token) (value : Int64) (level : Level) (t : Instant) (index : Nat) :
    writesOn (counter.levelKey level t index) (counter.incrementWrites token value) =
      if (token.increment value).Covers level t index then
        [ShardGroup.shardWrite (token.finds level)
          { owner := counter.group.owner, value := .int value,
            level := some level, time := some token.time }]
      else [] := by
  have hwrites : counter.incrementWrites token value =
      ((token.increment value).postings counter.group.collection counter.group.owner).map
        fun posting => (posting.key, ShardGroup.shardWrite (token.finds posting.level)
          (posting.record counter.group.owner)) := by
    -- What is written depends on the level and on the key only.
    let entry : Level × DocKey → DocKey × Write := fun place => (place.2,
      ShardGroup.shardWrite (token.finds place.1)
        { owner := counter.group.owner, value := .int value,
          level := some place.1, time := some token.time })
    have hentry : counter.incrementWrites token value =
        (token.shards.map fun shard => (shard.level, shard.key)).map entry := by
      rw [incrementWrites, List.map_map]
      refine List.map_congr_left fun shard hshard => ?_
      simp only [Function.comp_apply, entry, h.finds_eq hshard]
    rw [hentry, h, Increment.postings, List.map_map, List.map_map]
    rfl
  rw [hwrites, writesOn_map, levelKey, Increment.filter_postings]
  by_cases hcovers : (token.increment value).Covers level t index
  · simp only [if_pos hcovers, List.map_cons, List.map_nil]
    rfl
  · simp only [if_neg hcovers, List.map_nil]

end Counter

end Shardwise
