import Mathlib.Algebra.Order.Floor.Div
import Shardwise.Proofs.Shards.Removals
import Shardwise.Proofs.Store.History

/-!
# The rounds of a removal

A removal asks for the documents of the group, removes as many of the first as make a
batch, and asks again, until it finds none or may not go on.  While nobody else uses the
store this comes to a number of documents and a number of commits that can be told in
advance.

* `Op.transact_of_commit` is a transaction whose first attempt is committed, and
  `ShardGroup.runIn_deleteBatch` one batch.
* `ShardGroup.Removes` says that the documents under some keys were removed by some number
  of commits, and that nothing else changed.  Removals one after the other add up
  (`Removes.trans`).
* `ShardGroup.ownedKeys_removed` says what the next round finds, and
  `ShardGroup.runIn_deleteRounds` carries that through all rounds.
* `ShardGroup.deleteShards_removes` is the result.
-/

namespace Shardwise

variable {υ α : Type}

/-! ## One batch -/

/-- A transaction whose first attempt is committed. -/
theorem Op.transact_of_commit {body : TxOp υ α} {ctx : Context} {env between : Env υ}
    {value : α} {later committed : Attempt} {version : UInt64} {after : Store}
    (hlive : ctx.check env.flags env.elapsed = .ok ()) (hopen : env.store.isOpen = true)
    (hrun : body.runIn { id := env.store.database.nextId } { env with store := env.store.begun } =
      (.ok value, later, between))
    (hcommit : between.store.commit later = (.ok version, committed, after)) :
    (transact ctx body).runIn env = (.ok value, { between with store := after }) := by
  have htry : (tryOnce ctx body).runIn env =
      (.ok (.ok value), { between with store := after }) := by
    simp only [tryOnce, runIn_bind, runIn_check, hlive, runIn_begin, Store.begin_open hopen,
      TxOp.runIn_runOn, hrun, runIn_commit, hcommit, runIn_pure]
  unfold transact
  rw [runIn_bind, runIn_env]
  dsimp only
  cases env.store.retry.maxRetries with
  | zero | succ retries => simp only [transactWithin, runIn_bind, htry, runIn_pure]

/-- Removals always apply. -/
theorem Database.stage_deleteAll (table : Table) (keys : List DocKey) :
    ∃ staged, stage table (keys.map (·, .delete)) = .ok staged := by
  suffices h : ∀ staged : Staged, ∃ later,
      (keys.map (·, Write.delete)).foldlM (stageWrite table) staged = .ok later from h ∅
  induction keys with
  | nil => exact fun staged => ⟨staged, rfl⟩
  | cons key keys ih => exact fun staged => ih (staged.insert key none)

namespace ShardGroup

/-- The documents under some keys were removed, by some number of commits.  Nothing else
changed. -/
structure Removes (keys : List DocKey) (commits : Nat) (env left : Env υ) : Prop where
  entry : ∀ key, left.store.table.get? key =
    if key ∈ keys then none else env.store.table.get? key
  version : left.store.database.version = env.store.database.version + UInt64.ofNat commits
  stats : left.store.stats = { env.store.stats with
    started := env.store.stats.started + commits
    committed := env.store.stats.committed + commits }
  same : left = { env with store := { env.store with
    database := left.store.database
    stats := left.store.stats } }

namespace Removes

variable {keys more : List DocKey} {commits others : Nat} {env midway left : Env υ}

theorem refl (env : Env υ) : Removes [] 0 env env :=
  ⟨fun _ => by simp, (UInt64.add_zero _).symm, rfl, rfl⟩

theorem trans (h : Removes keys commits env midway) (h' : Removes more others midway left) :
    Removes (keys ++ more) (commits + others) env left := by
  refine ⟨fun key => ?_, ?_, ?_, ?_⟩
  · rw [h'.entry, h.entry]
    by_cases hkey : key ∈ keys <;> simp [hkey]
  · rw [h'.version, h.version, UInt64.ofNat_add, UInt64.add_assoc]
  · rw [h'.stats, h.stats, Nat.add_assoc, Nat.add_assoc]
  · rw [h'.same, h.same]

theorem isOpen (h : Removes keys commits env left) : left.store.isOpen = env.store.isOpen := by
  rw [h.same]

theorem check (h : Removes keys commits env left) (ctx : Context) :
    ctx.check left.flags left.elapsed = ctx.check env.flags env.elapsed := by
  rw [h.same]

end Removes

/-- With an open store and a context that is not done a batch is removed by one commit. -/
theorem runIn_deleteBatch (group : ShardGroup) {ctx : Context} {env : Env υ}
    (hopen : env.store.isOpen = true) (hlive : ctx.check env.flags env.elapsed = .ok ())
    (first : DocKey) {keys : List DocKey} (hsome : keys ≠ []) :
    ∃ left, (group.deleteBatch ctx first keys).runIn env = (.ok (), left) ∧
      Removes keys 1 env left := by
  obtain ⟨staged, hstage⟩ := Database.stage_deleteAll env.store.table keys
  have hvalid : Database.conflicts env.store.begun.database.table
      { id := env.store.database.nextId, writes := keys.map (·, .delete) } = [] := by
    simp [Database.conflicts_eq_nil]
  have hcommit := Database.commit_staged (by rfl) hvalid hstage
  have hcommits := Database.commits_of_stage (by rfl) hvalid hstage
  let done : Store := { env.store.begun with database := env.store.begun.database.installed staged }
  refine ⟨{ env with store := done.countCommitted }, ?_, fun key => ?_, ?_, rfl, rfl⟩
  · rw [deleteBatch, Op.runIn_withContext, Op.transact_of_commit hlive hopen
      (TxOp.runIn_deleteAll keys rfl _) (Store.commit_ok hopen hcommit)]
    rfl
  · exact hcommits.get?_deleteAll rfl key
  · exact hcommits.version.trans (if_neg (by simpa using hsome))

/-! ## Many rounds -/

theorem ownedKeys_sorted (group : ShardGroup) (table : Table) :
    (group.ownedKeys table).Pairwise (compare · · = .lt) :=
  table.sorted_scan _ _ _

/-- After a removal the documents that are left are found, in the same order. -/
theorem ownedKeys_removed (group : ShardGroup) {env left : Env υ} {count commits : Nat}
    (h : Removes ((group.ownedKeys env.store.table).take count) commits env left) :
    group.ownedKeys left.store.table = (group.ownedKeys env.store.table).drop count := by
  have hsorted := group.ownedKeys_sorted env.store.table
  have hparts := hsorted
  rw [← List.take_append_drop count (group.ownedKeys env.store.table),
    List.pairwise_append] at hparts
  refine eq_of_sorted (f := fun key => key) (by simpa using group.ownedKeys_sorted _)
    (by simpa using hparts.2.1) fun key => ?_
  have hentry := h.entry key
  constructor
  · intro hleft
    have hkept : key ∉ (group.ownedKeys env.store.table).take count := by
      intro htaken
      rw [if_pos htaken] at hentry
      exact (mem_ownedKeys.mp hleft).get? hentry
    rw [if_neg hkept] at hentry
    have hfound := mem_ownedKeys.mpr ((Finds.congr hentry).mp (mem_ownedKeys.mp hleft))
    rw [← List.take_append_drop count (group.ownedKeys env.store.table)] at hfound
    exact (List.mem_append.mp hfound).resolve_left hkept
  · intro hback
    have hkept : key ∉ (group.ownedKeys env.store.table).take count := by
      intro htaken
      have hself := hparts.2.2 key htaken key hback
      rw [Std.compare_self] at hself
      cases hself
    rw [if_neg hkept] at hentry
    exact mem_ownedKeys.mpr ((Finds.congr hentry).mpr
      (mem_ownedKeys.mp (List.mem_of_mem_drop hback)))

/-- What more than one batch is left of takes one batch less. -/
theorem ceilDiv_eq_succ {count batch : Nat} (hcount : 0 < count) (hbatch : 0 < batch) :
    count ⌈/⌉ batch = 1 + (count - batch) ⌈/⌉ batch := by
  rw [Nat.ceilDiv_eq_add_pred_div, Nat.ceilDiv_eq_add_pred_div]
  rcases Nat.le_total count batch with hle | hge
  · rw [Nat.sub_eq_zero_of_le hle, Nat.zero_add, Nat.div_eq_of_lt (by omega : batch - 1 < batch)]
    exact Nat.div_eq_of_lt_le (by omega) (by omega)
  · have hshift : count + batch - 1 = count - batch + batch - 1 + batch := by omega
    rw [hshift, Nat.add_div_right _ hbatch, Nat.add_comm 1]

/-- With an open store and a context that is not done every round removes one batch, until
nothing is left. -/
theorem runIn_deleteRounds (group : ShardGroup) {ctx : Context} (rounds : Nat) {env : Env υ}
    (hopen : env.store.isOpen = true) (hlive : ctx.check env.flags env.elapsed = .ok ()) :
    ∃ left, (group.deleteRounds ctx rounds).runIn env =
        (.ok (decide ((group.ownedKeys env.store.table).length ≤
          rounds * (group.numShards + 1))), left) ∧
      Removes ((group.ownedKeys env.store.table).take (rounds * (group.numShards + 1)))
        (min (group.ownedKeys env.store.table).length (rounds * (group.numShards + 1)) ⌈/⌉
          (group.numShards + 1)) env left := by
  induction rounds generalizing env with
  | zero =>
    refine ⟨env, ?_, by simpa using Removes.refl env⟩
    rw [deleteRounds, Op.runIn_bind, group.runIn_owned hopen hlive]
    cases hscan : env.store.table.scan group.collection ownerField (.text group.owner) <;>
      simp [ownedKeys, hscan]
  | succ rounds ih =>
    rw [deleteRounds, Op.runIn_bind, group.runIn_owned hopen hlive]
    dsimp only
    cases htake : (env.store.table.scan group.collection ownerField (.text group.owner)).take
        (group.numShards + 1) with
    | nil =>
      have hnil : group.ownedKeys env.store.table = [] := by
        rw [ownedKeys, (List.take_eq_nil_iff.mp htake).resolve_left (Nat.succ_ne_zero _)]
        rfl
      rw [hnil]
      exact ⟨env, by simp, by simpa using Removes.refl env⟩
    | cons entry more =>
      obtain ⟨first, document⟩ := entry
      have hkeys : ((first, document) :: more).map Prod.fst =
          (group.ownedKeys env.store.table).take (group.numShards + 1) := by
        rw [← htake, ownedKeys, List.map_take]
      dsimp only
      rw [hkeys, Op.runIn_bind]
      have hsome : (group.ownedKeys env.store.table).take (group.numShards + 1) ≠ [] := by
        rw [← hkeys]
        exact List.cons_ne_nil _ _
      obtain ⟨between, hbatch, hbetween⟩ := group.runIn_deleteBatch hopen hlive first hsome
      obtain ⟨left, hrest, hleft⟩ := ih (hbetween.isOpen.trans hopen)
        ((hbetween.check ctx).trans hlive)
      rw [group.ownedKeys_removed hbetween, List.length_drop] at hrest hleft
      have hsum := hbetween.trans hleft
      have hpos : 0 < (group.ownedKeys env.store.table).length :=
        List.length_pos_iff.mpr fun hnil => hsome (by rw [hnil, List.take_nil])
      generalize group.ownedKeys env.store.table = found at *
      have hrounds : (rounds + 1) * (group.numShards + 1) =
          group.numShards + 1 + rounds * (group.numShards + 1) := by
        rw [Nat.succ_mul, Nat.add_comm]
      refine ⟨left, ?_, ?_⟩
      · rw [hbatch, hrounds]
        simp only [hrest, Nat.sub_le_iff_le_add, Nat.add_comm]
      · rw [hrounds, List.take_add, ceilDiv_eq_succ (by omega) (Nat.succ_pos _)]
        convert hsum using 3
        omega

/-! ## The removal -/

/-- With an open store, a context that is not done and valid names a removal of `rounds` rounds
removes the first of the documents that queries by owner find, as many as `rounds` batches
hold, with one commit for each batch.  It returns whether these are all. -/
theorem deleteShards_removes (group : ShardGroup) (ctx : Context) (rounds : Nat) (env : Env υ)
    (husable : group.Usable) (hopen : env.store.isOpen = true)
    (hlive : ctx.check env.flags env.elapsed = .ok ()) :
    ∃ (found : List DocKey) (left : Env υ), found.Pairwise (compare · · = .lt) ∧
      (∀ key, key ∈ found ↔ group.Finds env.store.table key) ∧
      (group.deleteShards ctx rounds).runIn env =
        (.ok (decide (found.length ≤ rounds * (group.numShards + 1))), left) ∧
      Removes (found.take (min found.length (rounds * (group.numShards + 1))))
        (min found.length (rounds * (group.numShards + 1)) ⌈/⌉ (group.numShards + 1)) env left := by
  obtain ⟨left, hrun, hleft⟩ := group.runIn_deleteRounds rounds hopen hlive
  refine ⟨group.ownedKeys env.store.table, left, group.ownedKeys_sorted _,
    fun key => mem_ownedKeys, ?_, ?_⟩
  · rw [deleteShards, Op.runIn_bind, check, husable.problem?]
    simp only [Op.runIn_check, hlive]
    exact hrun
  · rwa [Nat.min_comm, ← List.take_take, List.take_length, Nat.min_comm]

/-- The page views of a site, in one shard. -/
def views : ShardGroup := ⟨"views", "site", 1⟩

/-- A document of the page views. -/
def viewsKey (name : String) : DocKey := ⟨"views", name⟩

/-- Three documents of the page views, and before the last of them one of another owner. -/
def viewed : Env Unit where
  store.database.table :=
    let shard : Document := ⟨ShardRecord.fields { owner := "site", value := .int 2 }⟩
    let foreign : Document := ⟨ShardRecord.fields { owner := "other", value := .int 2 }⟩
    ({} : Table)
      |>.put (viewsKey "c") shard 4
      |>.put (viewsKey "b") foreign 3
      |>.put (viewsKey "a") shard 2
      |>.put (viewsKey "d") shard 1
  store.database.version := 4
  user := ()

/-- A round takes two documents, and leaves the third. -/
theorem deleteShards_removes_viewed : ∃ left : Env Unit,
    (views.deleteShards Session.live 1).runIn viewed = (.ok false, left) ∧
      (∀ key, left.store.table.get? key =
        if key = viewsKey "a" ∨ key = viewsKey "c" then none else viewed.store.table.get? key) ∧
      left.store.database.version = 5 := by
  have husable : views.Usable := ⟨by decide, by decide, by decide⟩
  obtain ⟨found, left, hsorted, hmem, hrun, hleft⟩ :=
    deleteShards_removes views Session.live 1 viewed husable rfl rfl
  have hscan : views.ownedKeys viewed.store.table = [viewsKey "a", viewsKey "c", viewsKey "d"] := by
    decide +kernel
  obtain rfl : found = [viewsKey "a", viewsKey "c", viewsKey "d"] := by
    refine eq_of_sorted (f := fun key => key) (by simpa using hsorted) ?_ fun key => ?_
    · rw [← hscan, List.map_id']
      exact views.ownedKeys_sorted _
    · rw [hmem, ← mem_ownedKeys, hscan]
  exact ⟨left, hrun, fun key => by simpa [views] using hleft.entry key, hleft.version⟩

end ShardGroup

end Shardwise
