import Shardwise.Proofs.Shards.Record
import Shardwise.Proofs.Store.Operations

/-!
# The parts of a phase

Every read phase and every write phase starts with the same checks, and all of
them write in the same way.  `ShardGroup.checkRead_cases` and
`ShardGroup.checkWrite_cases` say what has passed the checks: the attempt takes
operations, and for a write phase the stamp is that of the attempt and of the
group.  `ShardGroup.runIn_writeShard` says that from then on nothing fails, so
that a write phase buffers all of its writes or none.
-/

namespace Shardwise

namespace ShardGroup

variable {υ : Type}

/-! ## Checks -/

/-- The names are not empty, and there are shards. -/
def Usable (group : ShardGroup) : Prop :=
  group.collection ≠ "" ∧ group.owner ≠ "" ∧ 0 < group.numShards

theorem Usable.problem? {group : ShardGroup} (h : group.Usable) : group.problem? = none := by
  obtain ⟨hcollection, howner, hshards⟩ := h
  unfold ShardGroup.problem?
  rw [if_neg (mt String.isEmpty_iff.mp hcollection), if_neg (mt String.isEmpty_iff.mp howner),
    if_neg (by simpa using Nat.ne_of_gt hshards)]

/-- The check of a group changes nothing. -/
theorem check_env (group : ShardGroup) (ctx : Context) (env : Env υ) :
    ((group.check ctx).runIn env).2 = env := by
  unfold check
  cases group.problem? <;> rfl

/-- The check of a read phase changes nothing, and passes only inside an attempt
that takes operations. -/
theorem checkRead_cases (group : ShardGroup) (ctx : Context) (attempt : Attempt) (env : Env υ) :
    (∃ error, (group.checkRead ctx).runIn attempt env = (.error error, attempt, env)) ∨
      (group.checkRead ctx).runIn attempt env = (.ok (), attempt, env) ∧
        attempt.status = .active ∧ group.problem? = none := by
  simp only [checkRead, check, TxOp.runIn_bind, TxOp.runIn_ofOp]
  cases hproblem : group.problem? with
  | some problem => exact .inl ⟨_, rfl⟩
  | none =>
    simp only [Op.runIn_check]
    cases ctx.check env.flags env.elapsed with
    | error error => exact .inl ⟨_, rfl⟩
    | ok _ =>
      simp only [TxOp.runIn_attempt, TxOp.runIn_ofExcept, ensureInTransaction,
        Attempt.isActive]
      by_cases hactive : attempt.status = .active
      · exact .inr ⟨by simp [hactive], hactive, trivial⟩
      · exact .inl ⟨.notInTransaction attempt.status.display, by simp [hactive]⟩

/-- With valid names, a context that is not done and an attempt that takes operations
the check of a read phase passes. -/
theorem runIn_checkRead {group : ShardGroup} (hproblem : group.problem? = none) {ctx : Context}
    {env : Env υ} (hlive : ctx.check env.flags env.elapsed = .ok ()) {attempt : Attempt}
    (hactive : attempt.status = .active) :
    (group.checkRead ctx).runIn attempt env = (.ok (), attempt, env) := by
  simp [checkRead, check, hproblem, hlive, ensureInTransaction, Attempt.isActive, hactive]

theorem numShards_pos (group : ShardGroup) (h : group.problem? = none) : 0 < group.numShards := by
  simp only [problem?] at h
  split at h
  · cases h
  · split at h
    · cases h
    · split at h
      · cases h
      · rename_i hne
        rw [beq_iff_eq] at hne
        omega

theorem readsOnly_checkRead (group : ShardGroup) (ctx : Context) :
    (group.checkRead ctx : TxOp υ Unit).ReadsOnly := by
  apply TxOp.ReadsOnly.of_eq
  intro attempt env
  rcases group.checkRead_cases ctx attempt env with ⟨error, hrun⟩ | ⟨hrun, -⟩ <;>
    exact ⟨by rw [hrun], by rw [hrun]⟩

theorem verify_eq_ok {group : ShardGroup} {stamp : Stamp} {attempt : Attempt} :
    group.verify stamp attempt = .ok () ↔ stamp = group.stamp attempt := by
  rcases stamp with ⟨number, collection, owner⟩
  unfold verify ShardGroup.stamp
  by_cases hcollection : collection = group.collection <;>
    by_cases howner : owner = group.owner <;>
      by_cases hnumber : number = attempt.id <;>
        simp [hcollection, howner, hnumber]

/-- The check of a write phase changes nothing, and passes only with a stamp of
the group and of the attempt. -/
theorem checkWrite_cases (group : ShardGroup) (ctx : Context) (stamp : Stamp) (attempt : Attempt)
    (env : Env υ) :
    (∃ error, (group.checkWrite ctx stamp).runIn attempt env = (.error error, attempt, env)) ∨
      (group.checkWrite ctx stamp).runIn attempt env = (.ok (), attempt, env) ∧
        attempt.status = .active ∧ stamp = group.stamp attempt := by
  simp only [checkWrite, TxOp.runIn_bind]
  rcases group.checkRead_cases ctx attempt env with ⟨error, hrun⟩ | ⟨hrun, hactive, -⟩
  · exact .inl ⟨error, by rw [hrun]⟩
  · rw [hrun]
    simp only [TxOp.runIn_attempt, TxOp.runIn_ofExcept]
    cases hverify : group.verify stamp attempt with
    | error error => exact .inl ⟨error, rfl⟩
    | ok _ => exact .inr ⟨rfl, hactive, verify_eq_ok.mp hverify⟩

/-! ## Queries -/

/-- With an open store and a context that is not done a query by owner finds the
documents in the group's collection that name the owner. -/
theorem runIn_owned (group : ShardGroup) {ctx : Context} {env : Env υ}
    (hopen : env.store.isOpen = true) (hlive : ctx.check env.flags env.elapsed = .ok ())
    (operation : String) :
    (group.owned ctx operation).runIn env =
      (.ok (env.store.table.scan group.collection ownerField (.text group.owner)), env) := by
  have hquery : env.store.query group.collection ownerField (.text group.owner) =
      .ok (env.store.table.scan group.collection ownerField (.text group.owner)) := by
    simp only [Store.query, Store.ensureOpen, hopen, if_true]
    rfl
  simp only [owned, Op.query, Op.runIn_withContext, Op.runIn_bind, Op.runIn_check, hlive,
    Op.runIn_ask, hquery, withStoreContext_ok]

/-- A query by owner changes nothing.  It fails, or it finds these documents. -/
theorem owned_cases (group : ShardGroup) (ctx : Context) (operation : String) (env : Env υ) :
    (∃ error, (group.owned ctx operation).runIn env = (.error error, env)) ∨
      (group.owned ctx operation).runIn env =
        (.ok (env.store.table.scan group.collection ownerField (.text group.owner)), env) := by
  cases hlive : ctx.check env.flags env.elapsed with
  | error error =>
    left
    simp only [owned, Op.query, Op.runIn_withContext, Op.runIn_bind, Op.runIn_check, hlive]
    exact ⟨_, rfl⟩
  | ok _ =>
    cases hopen : env.store.isOpen with
    | false =>
      left
      simp only [owned, Op.query, Op.runIn_withContext, Op.runIn_bind, Op.runIn_check, hlive,
        Op.runIn_ask, Store.query, Store.ensureOpen, hopen]
      exact ⟨_, rfl⟩
    | true => exact .inr (group.runIn_owned hopen hlive operation)

/-! ## Writes -/

/-- In an attempt that takes operations the write of a whole number succeeds. -/
theorem runIn_writeShard (group : ShardGroup) (operation : String) (key : DocKey) (present : Bool)
    {made : ShardRecord} (hmade : made.value.isNumeric = true) {attempt : Attempt}
    (hactive : attempt.status = .active) (env : Env υ) :
    (group.writeShard operation key present made).runIn attempt env =
      (.ok (), { attempt with writes := attempt.writes ++ [(key, shardWrite present made)] },
        env) := by
  unfold writeShard shardWrite
  rw [TxOp.runIn_withContext]
  cases present
  · simp [TxOp.set, Attempt.set, Attempt.buffer_active hactive]
  · simp [TxOp.increment, Attempt.increment, hmade, Attempt.buffer_active hactive]

theorem runIn_reserve (group : ShardGroup) (key : DocKey) (present : Bool) {attempt : Attempt}
    (hactive : attempt.status = .active) (env : Env υ) :
    (group.reserve key present).runIn attempt env =
      (.ok (), { attempt with writes := attempt.writes ++
        [(key, shardWrite present { owner := group.owner, value := .int 1 })] }, env) :=
  group.runIn_writeShard "number_wx" key present rfl hactive env

end ShardGroup

end Shardwise
