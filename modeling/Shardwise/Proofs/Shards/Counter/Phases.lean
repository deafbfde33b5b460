import Shardwise.Proofs.Shards.Ledger
import Shardwise.Proofs.Shards.Phases

/-!
# The phases of a counter

The read phase of an increment looks for the documents that the write phase is
going to change, and stops at the first one that it finds.  Of each document its
token says then either that it is absent, which was read, or that it exists, which
was read of this document or of a finer one.

* `Counter.Probed` says what a look at some levels found out, and
  `Counter.probe_eq_ok` follows the look from level to level.
* `Counter.incrementRead_eq_ok` and `Counter.incrementWrite_cases` describe the
  phases.
-/

namespace Shardwise

/-- The token has documents for the date hierarchy. -/
def PendingIncrement.dated (token : PendingIncrement) : Bool :=
  token.shards.any (·.level.isDated)

/-- What the token adds to the ledger. -/
def PendingIncrement.increment (token : PendingIncrement) (value : Int64) : Increment :=
  ⟨token.index, token.time, token.dated, value⟩

namespace Counter

variable {υ : Type}

/-! ## Probing -/

theorem readsOnly_isPresent (counter : Counter) (ctx : Context) (key : DocKey) :
    (counter.isPresent ctx key : TxOp υ Bool).ReadsOnly := by
  refine (TxOp.ReadsOnly.check ctx).bind fun _ => ?_
  exact ((TxOp.ReadsOnly.get key).withContext _ _ _).bind fun _ => .pure _

theorem isPresent_eq_ok {counter : Counter} {ctx : Context} {key : DocKey}
    {attempt later : Attempt} {env left : Env υ} {present : Bool}
    (h : (counter.isPresent ctx key).runIn attempt env = (.ok present, later, left)) :
    present = (env.store.table.document? key).isSome ∧
      ∃ version, later.reads[key]? = some version := by
  unfold isPresent at h
  obtain ⟨_, checked, env₁, hcheck, h₁⟩ := TxOp.runIn_bind_eq_ok.mp h
  obtain ⟨read, recorded, env₂, hget, h₂⟩ := TxOp.runIn_bind_eq_ok.mp h₁
  cases h₂
  obtain ⟨-, hread, hrecorded⟩ := TxOp.runIn_get_eq_ok (TxOp.runIn_withContext_eq_ok.mp hget)
  have htable : env₁.store.table = env.store.table :=
    congrArg Store.table ((TxOp.ReadsOnly.check ctx).store_eq hcheck)
  rw [hread, htable]
  exact ⟨rfl, hrecorded⟩

/-- A look at one document, unless a finer one was found. -/
def look (counter : Counter) (ctx : Context) (found : Bool) (key : DocKey) : TxOp υ Bool :=
  if found then pure true else counter.isPresent ctx key

theorem readsOnly_look (counter : Counter) (ctx : Context) (found : Bool) (key : DocKey) :
    (counter.look ctx found key : TxOp υ Bool).ReadsOnly := by
  cases found
  · exact counter.readsOnly_isPresent ctx key
  · exact .pure true

theorem look_eq_ok {counter : Counter} {ctx : Context} {found : Bool} {key : DocKey}
    {attempt later : Attempt} {env left : Env υ} {present : Bool}
    (h : (counter.look ctx found key).runIn attempt env = (.ok present, later, left)) :
    left.store = env.store ∧ (found = true ∧ present = true ∨
      present = (env.store.table.document? key).isSome ∧
        ∃ version, later.reads[key]? = some version) := by
  refine ⟨(counter.readsOnly_look ctx found key).store_eq h, ?_⟩
  cases found
  · exact .inr (isPresent_eq_ok h)
  · cases h
    exact .inl ⟨rfl, rfl⟩

/-- One look, and then the coarser levels. -/
theorem probe_cons (counter : Counter) (ctx : Context) (time : Instant) (index : Nat)
    (found : Bool) (level : Level) (coarser : List Level) :
    (counter.probe ctx time index found (level :: coarser) : TxOp υ (List LevelShard)) =
      counter.look ctx found (counter.levelKey level time index) >>= fun present =>
      (⟨level, counter.levelKey level time index, present⟩ :: ·) <$>
        counter.probe ctx time index present coarser := by
  cases found <;> simp [probe, look]

theorem readsOnly_probe (counter : Counter) (ctx : Context) (time : Instant) (index : Nat)
    (found : Bool) (levels : List Level) :
    (counter.probe ctx time index found levels : TxOp υ (List LevelShard)).ReadsOnly := by
  induction levels generalizing found with
  | nil => exact .pure _
  | cons level coarser ih =>
    rw [probe_cons]
    exact (counter.readsOnly_look ctx found _).bind fun present => (ih present).map _

/-- What a look at the documents of some levels found out, where `found` says that
a finer one exists. -/
structure Probed (counter : Counter) (table : Table) (time : Instant) (index : Nat)
    (found : Bool) (levels : List Level) (later : Attempt) (shards : List LevelShard) : Prop where
  places : shards.map (fun shard => (shard.level, shard.key)) =
    levels.map fun level => (level, counter.levelKey level time index)
  /-- Documents exist because they, or finer ones, were found. -/
  present : ∀ shard ∈ shards, shard.present = true → found = true ∨
    ∃ level, shard.level.depth ≤ level.depth ∧
      (table.document? (counter.levelKey level time index)).isSome = true
  /-- What is taken to be absent was read. -/
  absent : ∀ shard ∈ shards, shard.present = false →
    (∃ version, later.reads[shard.key]? = some version) ∧ table.document? shard.key = none

theorem of_places {counter : Counter} {time : Instant} {index : Nat} {levels : List Level}
    {shards : List LevelShard}
    (h : shards.map (fun shard => (shard.level, shard.key)) =
      levels.map fun level => (level, counter.levelKey level time index))
    {shard : LevelShard} (hshard : shard ∈ shards) :
    shard.level ∈ levels ∧ shard.key = counter.levelKey shard.level time index := by
  have hplace : (shard.level, shard.key) ∈
      levels.map fun level => (level, counter.levelKey level time index) :=
    h ▸ List.mem_map_of_mem hshard
  obtain ⟨level, hlevel, heq⟩ := List.mem_map.mp hplace
  obtain ⟨hsame, hkey⟩ := Prod.mk.inj heq
  rw [← hsame]
  exact ⟨hlevel, hkey.symm⟩

/-- Finer levels come first. -/
def FinestFirst (levels : List Level) : Prop :=
  levels.Pairwise fun fine coarse => coarse.depth ≤ fine.depth

theorem probe_eq_ok {counter : Counter} {ctx : Context} {time : Instant} {index : Nat}
    {levels : List Level} (horder : FinestFirst levels) {found : Bool} {attempt later : Attempt}
    {env left : Env υ} {shards : List LevelShard}
    (h : (counter.probe ctx time index found levels).runIn attempt env =
      (.ok shards, later, left)) :
    counter.Probed env.store.table time index found levels later shards := by
  induction levels generalizing found attempt env shards with
  | nil =>
    cases h
    exact ⟨rfl, by simp, by simp⟩
  | cons level coarser ih =>
    rw [probe_cons] at h
    obtain ⟨present, looked, env₁, hlook, h₁⟩ := TxOp.runIn_bind_eq_ok.mp h
    obtain ⟨more, hrest, rfl⟩ := TxOp.runIn_map_eq_ok.mp h₁
    obtain ⟨hfirst, horder⟩ := List.pairwise_cons.mp horder
    obtain ⟨hstore, hlooked⟩ := look_eq_ok hlook
    have htable : env₁.store.table = env.store.table := congrArg Store.table hstore
    have hkept := ((counter.readsOnly_probe ctx time index present coarser).reads hrest).kept
    obtain ⟨hplaces, hpresent, habsent⟩ := ih horder hrest
    rw [htable] at hpresent habsent
    refine ⟨by rw [List.map_cons, List.map_cons, hplaces], ?_, ?_⟩
    · -- A document that was found vouches for itself and for what is coarser.
      have hvouch : present = true → found = true ∨
          (env.store.table.document? (counter.levelKey level time index)).isSome = true := by
        intro htrue
        rcases hlooked with ⟨hfound, -⟩ | ⟨hread, -⟩
        · exact .inl hfound
        · exact .inr (hread ▸ htrue)
      intro shard hshard htrue
      rcases List.mem_cons.mp hshard with rfl | hmore
      · rcases hvouch htrue with hfound | hsome
        · exact .inl hfound
        · exact .inr ⟨level, Nat.le_refl _, hsome⟩
      · rcases hpresent shard hmore htrue with htrue | ⟨other, hdepth, hsome⟩
        · rcases hvouch htrue with hfound | hsome
          · exact .inl hfound
          · have hcoarser := hfirst shard.level (of_places hplaces hmore).1
            exact .inr ⟨level, hcoarser, hsome⟩
        · exact .inr ⟨other, hdepth, hsome⟩
    · intro shard hshard hfalse
      rcases List.mem_cons.mp hshard with rfl | hmore
      · rcases hlooked with ⟨-, htrue⟩ | ⟨hread, version, hrecorded⟩
        · exact absurd (htrue.symm.trans hfalse) Bool.false_ne_true.symm
        · refine ⟨⟨version, hkept _ _ hrecorded⟩, ?_⟩
          have hnone := hread.symm.trans hfalse
          rwa [Option.isSome_eq_false_iff, Option.isNone_iff_eq_none] at hnone
      · exact habsent shard hmore hfalse

/-! ## The phases of a counter -/

/-- The finest document of the date hierarchy exists. -/
def finestPresent (dated : List LevelShard) : Bool :=
  (dated.head?.map LevelShard.present).getD false

/-- The dated levels first, if there are any, and then the total. -/
theorem probeAll_eq (counter : Counter) (ctx : Context) (time : Instant) (index : Nat) :
    (counter.probeAll ctx time index : TxOp υ (List LevelShard)) =
      counter.probe ctx time index false
        (if counter.dateHierarchy then Level.datedFinestFirst else []) >>= fun dated =>
      (dated ++ ·) <$> counter.probe ctx time index (finestPresent dated) [.total] := by
  unfold probeAll finestPresent
  cases counter.dateHierarchy <;> simp [probe]

theorem readsOnly_probeAll (counter : Counter) (ctx : Context) (time : Instant) (index : Nat) :
    (counter.probeAll ctx time index : TxOp υ (List LevelShard)).ReadsOnly := by
  rw [probeAll_eq]
  exact (counter.readsOnly_probe ctx time index _ _).bind fun dated =>
    (counter.readsOnly_probe ctx time index _ _).map _

theorem probeAll_eq_ok {counter : Counter} {ctx : Context} {time : Instant} {index : Nat}
    {attempt later : Attempt} {env left : Env υ} {shards : List LevelShard}
    (h : (counter.probeAll ctx time index).runIn attempt env = (.ok shards, later, left)) :
    counter.Probed env.store.table time index false (Increment.levelsOf counter.dateHierarchy)
      later shards := by
  rw [probeAll_eq] at h
  obtain ⟨dated, between, env₁, hdated, h₁⟩ := TxOp.runIn_bind_eq_ok.mp h
  obtain ⟨last, htotal, rfl⟩ := TxOp.runIn_map_eq_ok.mp h₁
  have htable : env₁.store.table = env.store.table :=
    congrArg Store.table ((counter.readsOnly_probe ctx time index _ _).store_eq hdated)
  have hkept := ((counter.readsOnly_probe ctx time index (finestPresent dated)
    [.total]).reads htotal).kept
  have horder : FinestFirst (if counter.dateHierarchy then Level.datedFinestFirst else []) := by
    cases counter.dateHierarchy
    · exact List.Pairwise.nil
    · unfold FinestFirst
      decide
  obtain ⟨hplaces, hpresent, habsent⟩ := probe_eq_ok horder hdated
  obtain ⟨hplaces', hpresent', habsent'⟩ := probe_eq_ok (List.pairwise_singleton _ _) htotal
  rw [htable] at hpresent' habsent'
  have hlevels : Increment.levelsOf counter.dateHierarchy =
      (if counter.dateHierarchy then Level.datedFinestFirst else []) ++ [.total] := by
    cases counter.dateHierarchy <;> rfl
  rw [hlevels]
  refine ⟨by rw [List.map_append, List.map_append, hplaces, hplaces'], ?_, ?_⟩
  · intro shard hshard htrue
    rcases List.mem_append.mp hshard with hfirst | hlast
    · rcases hpresent shard hfirst htrue with hfound | ⟨level, hdepth, hsome⟩
      · exact absurd hfound Bool.false_ne_true
      · exact .inr ⟨level, hdepth, hsome⟩
    · rcases hpresent' shard hlast htrue with hfound | ⟨level, hdepth, hsome⟩
      · -- The finest document was found, and the total is coarser than all.
        cases dated with
        | nil => exact absurd hfound Bool.false_ne_true
        | cons finest more =>
          have hfinest : finest.present = true := hfound
          rcases hpresent finest List.mem_cons_self hfinest with
            hnever | ⟨level, -, hsome⟩
          · exact absurd hnever Bool.false_ne_true
          · have hplace := (of_places hplaces' hlast).1
            rw [List.mem_singleton] at hplace
            refine .inr ⟨level, ?_, hsome⟩
            rw [hplace]
            exact Nat.zero_le _
      · exact .inr ⟨level, hdepth, hsome⟩
  · intro shard hshard hfalse
    rcases List.mem_append.mp hshard with hfirst | hlast
    · obtain ⟨⟨version, hrecorded⟩, hnone⟩ := habsent shard hfirst hfalse
      exact ⟨⟨version, hkept _ _ hrecorded⟩, hnone⟩
    · exact habsent' shard hlast hfalse

theorem readsOnly_incrementRead (counter : Counter) (ctx : Context) :
    (counter.incrementRead ctx : TxOp υ PendingIncrement).ReadsOnly := by
  refine (counter.group.readsOnly_checkRead ctx).bind fun _ => ?_
  refine (TxOp.ReadsOnly.pickShard _).bind fun index => ?_
  refine (TxOp.ReadsOnly.env.bind fun _ => .pure _).bind fun time => ?_
  refine (counter.readsOnly_probeAll ctx time index).bind fun shards => ?_
  exact TxOp.ReadsOnly.attempt.bind fun _ => .pure _

theorem readsOnly_now (counter : Counter) : (counter.now : TxOp υ Instant).ReadsOnly :=
  TxOp.ReadsOnly.env.bind fun _ => .pure _

/-- A token with the documents of some levels keeps the date hierarchy if these
do. -/
theorem dated_of_places {counter : Counter} {token : PendingIncrement} {dated : Bool}
    (h : token.shards.map (fun shard => (shard.level, shard.key)) =
      (Increment.levelsOf dated).map fun level =>
        (level, counter.levelKey level token.time token.index)) : token.dated = dated := by
  have hany : token.dated = (token.shards.map fun shard => (shard.level, shard.key)).any
      (·.1.isDated) := by
    simp [PendingIncrement.dated, Function.comp_def]
  rw [hany, h]
  cases dated <;> rfl

/-- A read phase that succeeds looked at the documents of the shard that it
chose. -/
theorem incrementRead_eq_ok {counter : Counter} {ctx : Context} {attempt later : Attempt}
    {env left : Env υ} {token : PendingIncrement}
    (h : (counter.incrementRead ctx).runIn attempt env = (.ok token, later, left)) :
    token.stamp = counter.group.stamp later ∧
      counter.Probed env.store.table token.time token.index false
        (Increment.levelsOf token.dated) later token.shards := by
  unfold incrementRead at h
  obtain ⟨_, checked, env₁, hcheck, h₁⟩ := TxOp.runIn_bind_eq_ok.mp h
  obtain ⟨index, picked, env₂, hpick, h₂⟩ := TxOp.runIn_bind_eq_ok.mp h₁
  obtain ⟨time, timed, env₃, hnow, h₃⟩ := TxOp.runIn_bind_eq_ok.mp h₂
  obtain ⟨shards, probed, env₄, hprobe, h₄⟩ := TxOp.runIn_bind_eq_ok.mp h₃
  rw [TxOp.runIn_bind, TxOp.runIn_attempt] at h₄
  cases h₄
  have htable : env₃.store.table = env.store.table := by
    have hstore₁ := (counter.group.readsOnly_checkRead ctx).store_eq hcheck
    have hstore₂ := (TxOp.ReadsOnly.pickShard _).store_eq hpick
    have hstore₃ := counter.readsOnly_now.store_eq hnow
    rw [hstore₂, hstore₁] at hstore₃
    exact congrArg Store.table hstore₃
  have hprobed := probeAll_eq_ok hprobe
  rw [htable] at hprobed
  rw [dated_of_places hprobed.places]
  exact ⟨rfl, hprobed⟩

/-- The writes of an increment. -/
def incrementWrites (counter : Counter) (token : PendingIncrement) (value : Int64) :
    List (DocKey × Write) :=
  token.shards.map fun shard => (shard.key, ShardGroup.shardWrite shard.present
    { owner := counter.group.owner, value := .int value,
      level := some shard.level, time := some token.time })

/-- In an attempt that takes operations all documents are written. -/
theorem runIn_writeLevels (counter : Counter) (time : Instant) (value : Int64)
    (shards : List LevelShard) {attempt : Attempt} (hactive : attempt.status = .active)
    (env : Env υ) :
    (shards.forM (counter.writeLevel time value) : TxOp υ Unit).runIn attempt env =
      (.ok (), { attempt with writes := attempt.writes ++ shards.map fun shard =>
        (shard.key, ShardGroup.shardWrite shard.present
          { owner := counter.group.owner, value := .int value,
            level := some shard.level, time := some time }) }, env) := by
  induction shards generalizing attempt with
  | nil => simp
  | cons shard shards ih =>
    show (counter.writeLevel time value shard >>= fun _ =>
      (shards.forM (counter.writeLevel time value) : TxOp υ Unit)).runIn attempt env = _
    rw [TxOp.runIn_bind, writeLevel, counter.group.runIn_writeShard _ _ _ rfl hactive]
    dsimp only
    rw [ih (by exact hactive), List.map_cons, List.append_assoc]
    rfl

/-- A write phase fails and changes nothing, or it has a token of its own attempt
and adds a positive number to all documents of it. -/
theorem incrementWrite_cases (counter : Counter) (ctx : Context) (token : PendingIncrement)
    (value : Int64) (attempt : Attempt) (env : Env υ) :
    (∃ error, (counter.incrementWrite ctx token value).runIn attempt env =
        (.error error, attempt, env)) ∨
      (counter.incrementWrite ctx token value).runIn attempt env =
        (.ok (), { attempt with
          writes := attempt.writes ++ counter.incrementWrites token value }, env) ∧
      token.stamp = counter.group.stamp attempt ∧ 0 < value.toInt := by
  simp only [incrementWrite, TxOp.runIn_bind]
  rcases counter.group.checkWrite_cases ctx token.stamp attempt env with
    ⟨error, hrun⟩ | ⟨hrun, hactive, hstamp⟩
  · exact .inl ⟨error, by rw [hrun]⟩
  · rw [hrun]
    dsimp only
    by_cases hvalue : value ≤ 0
    · left
      exact ⟨_, by rw [if_pos hvalue]; rfl⟩
    · right
      rw [if_neg hvalue]
      refine ⟨?_, hstamp, ?_⟩
      · exact counter.runIn_writeLevels token.time value token.shards hactive env
      · rw [Int64.le_iff_toInt_le] at hvalue
        simpa using hvalue

end Counter

end Shardwise
