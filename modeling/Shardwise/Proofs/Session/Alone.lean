import Shardwise.Proofs.Session.Transact
import Shardwise.Proofs.Store.Failures

/-!
# Transactions that nobody interrupts

A transaction that runs from its beginning to its commit while nobody else uses the
store meets no conflict, so it is never tried again.

* `TxOp.Steady` is what an operation inside an attempt must keep to for that: it
  leaves the store as it is, and the versions that it records are those of the table.
* `Op.transact_cases` says what such a transaction does: it fails and leaves the
  documents as they are, or its one attempt commits.
-/

namespace Shardwise

variable {υ α β : Type}

/-! ## Commits without conflicts -/

/-- The outcome is no conflict. -/
def NoConflict (outcome : Except Error α) : Prop :=
  ∀ error, outcome = .error error → error.isConflict = false

namespace NoConflict

theorem ok (value : α) : NoConflict (.ok value : Except Error α) := by
  rintro error ⟨⟩

theorem error {error : Error} (h : error.isConflict = false) :
    NoConflict (.error error : Except Error α) := by
  rintro _ ⟨⟩
  exact h

theorem stage (table : Table) (writes : List (DocKey × Write)) :
    NoConflict (Database.stage table writes) :=
  (Database.stage_failsIn table writes).mono fun _ hdata => hdata.isConflict

/-- An attempt whose reads are what is in the table meets no conflict. -/
theorem commit {store : Store} {attempt : Attempt}
    (h : ∀ key version, attempt.reads[key]? = some version →
      store.table.versionOf key = version) : NoConflict (store.commit attempt).1 := by
  unfold Store.commit Store.ensureOpen
  cases hopen : store.isOpen with
  | false => exact .error rfl
  | true =>
    dsimp only [if_true]
    unfold Database.commit
    cases hmark : attempt.markValidating with
    | error error => exact .error rfl
    | ok validating =>
      have hreads : validating.reads = attempt.reads := by
        rw [Database.markValidating_eq] at hmark
        split at hmark <;> cases hmark
        rfl
      have hnone : Database.conflicts store.database.table validating = [] := by
        rw [Database.conflicts_eq_nil, hreads]
        exact h
      dsimp only
      rw [hnone]
      dsimp only
      cases hstage : Database.stage store.database.table validating.writes with
      | error error => exact .error (stage _ _ error hstage)
      | ok staged =>
        dsimp only
        cases validating.markCommitted with
        | error error => exact .error rfl
        | ok committed => exact .ok _

end NoConflict

/-! ## Operations inside an attempt -/

namespace TxOp

/-- The operation leaves the store as it is, and the versions that it adds to the
read set are those of the table. -/
def Steady (op : TxOp υ α) : Prop :=
  ∀ attempt env, (op.runIn attempt env).2.2.store = env.store ∧
    ∀ (key : DocKey) (version : UInt64),
      (op.runIn attempt env).2.1.reads[key]? = some version →
        attempt.reads[key]? = some version ∨ version = env.store.table.versionOf key

theorem ReadsOnly.steady {op : TxOp υ α} (h : op.ReadsOnly) : op.Steady :=
  fun attempt env => ⟨(h attempt env).1, (h attempt env).2.fresh⟩

/-- An operation that only writes is steady. -/
theorem Steady.of_reads {op : TxOp υ α}
    (h : ∀ attempt env, (op.runIn attempt env).2.2.store = env.store ∧
      (op.runIn attempt env).2.1.reads = attempt.reads) : op.Steady := by
  intro attempt env
  obtain ⟨hstore, hreads⟩ := h attempt env
  exact ⟨hstore, fun key version hversion => .inl (hreads ▸ hversion)⟩

/-- What follows has to be steady after the results that there are. -/
theorem Steady.bind_of_ok {op : TxOp υ α} {next : α → TxOp υ β} (h : op.Steady)
    (hnext : ∀ attempt env value, (op.runIn attempt env).1 = .ok value → (next value).Steady) :
    (op >>= next).Steady := by
  intro attempt env
  rw [runIn_bind]
  obtain ⟨hstore, hreads⟩ := h attempt env
  rcases hop : op.runIn attempt env with ⟨error | value, between, midway⟩
  · rw [hop] at hstore hreads
    exact ⟨hstore, hreads⟩
  · rw [hop] at hstore hreads
    obtain ⟨hstore', hreads'⟩ := hnext attempt env value (by rw [hop]) between midway
    refine ⟨hstore'.trans hstore, fun key version hversion => ?_⟩
    rcases hreads' key version hversion with hold | hcurrent
    · exact hreads key version hold
    · rw [hstore] at hcurrent
      exact .inr hcurrent

theorem Steady.bind {op : TxOp υ α} {next : α → TxOp υ β} (h : op.Steady)
    (hnext : ∀ value, (next value).Steady) : (op >>= next).Steady :=
  h.bind_of_ok fun _ _ value _ => hnext value

/-- A fresh attempt in which it runs meets no conflict. -/
theorem Steady.noConflict {op : TxOp υ α} (h : op.Steady) (id : UInt64) (env : Env υ) :
    NoConflict ((op.runIn { id } env).2.2.store.commit (op.runIn { id } env).2.1).1 := by
  obtain ⟨hstore, hreads⟩ := h { id } env
  refine NoConflict.commit fun key version hversion => ?_
  rw [hstore]
  rcases hreads key version hversion with hold | hcurrent
  · simp at hold
  · exact hcurrent.symm

end TxOp

/-! ## Transactions -/

namespace Op

open Protocol (closing tryOnce_eq)

/-- The operation ran in an attempt that began in `env`, and the attempt was
committed. -/
def Committed (body : TxOp Unit α) (env : Env Unit) (value : α) (left : Env Unit) : Prop :=
  ∃ begun store later between version committed after,
    env.store.begin = .ok (begun, store) ∧
      body.runIn begun { env with store } = (.ok value, later, between) ∧
      between.store.commit later = (.ok version, committed, after) ∧
      left = { between with store := after }

theorem begin_eq_ok {store left : Store} {begun : Attempt}
    (h : store.begin = .ok (begun, left)) :
    begun = { id := store.database.nextId } ∧ left.table = store.table := by
  unfold Store.begin Store.ensureOpen at h
  cases hopen : store.isOpen with
  | false =>
    rw [hopen] at h
    cases h
  | true =>
    rw [hopen] at h
    cases h
    exact ⟨rfl, rfl⟩

theorem Committed.commits {body : TxOp Unit α} {env left : Env Unit} {value : α}
    (h : Committed body env value left) :
    ∃ store later between, store.table = env.store.table ∧
      body.runIn { id := env.store.database.nextId } { env with store } =
        (.ok value, later, between) ∧
      between.store.database.Commits later left.store.database := by
  obtain ⟨begun, store, later, between, version, committed, after, hbegin, hrun, hcommit, rfl⟩ := h
  obtain ⟨rfl, htable⟩ := begin_eq_ok hbegin
  refine ⟨store, later, between, htable, hrun, ?_⟩
  rcases between.store.commit_cases later with
    ⟨error, changed, other, hfailed, -⟩ | ⟨_, other, hdone, -, hcommits⟩
  · cases hfailed.symm.trans hcommit
  · cases hdone.symm.trans hcommit
    exact hcommits

/-- Ending an attempt that failed leaves the documents as they are. -/
theorem table_closing_error (attempt : Attempt) (error : Error) (env : Env Unit) :
    ∃ other left, ((closing attempt (.error error) : Op Unit (Except Error α)).runIn env) =
      (.error other, left) ∧ left.store.table = env.store.table := by
  unfold closing
  cases attempt.isActive with
  | false => exact ⟨error, env, rfl, rfl⟩
  | true =>
    simp only [if_true, runIn_bind, runIn_discard, runIn_abort]
    rcases env.store.abort_cases attempt error.message with ⟨other, habort⟩ | ⟨left, habort, hleft⟩
    · rw [habort]
      exact ⟨other, env, rfl, rfl⟩
    · rw [habort]
      exact ⟨error, _, rfl, congrArg Database.table hleft⟩

/-- One try fails and leaves the documents as they are, or its attempt is
committed. -/
theorem tryOnce_cases {body : TxOp Unit α} (h : body.Steady) (ctx : Context) (env : Env Unit) :
    (∃ error left, (tryOnce ctx body).runIn env = (.error error, left) ∧
        left.store.table = env.store.table) ∨
      ∃ value left, (tryOnce ctx body).runIn env = (.ok (.ok value), left) ∧
        Committed body env value left := by
  rw [tryOnce_eq, runIn_bind, runIn_check]
  cases ctx.check env.flags env.elapsed with
  | error error => exact .inl ⟨error, env, rfl, rfl⟩
  | ok _ =>
    dsimp only
    rw [runIn_bind, runIn_begin]
    rcases hbegin : env.store.begin with error | ⟨begun, store⟩
    · exact .inl ⟨error, env, rfl, rfl⟩
    · obtain ⟨rfl, htable⟩ := begin_eq_ok hbegin
      dsimp only
      rw [runIn_bind, TxOp.runIn_runOn]
      obtain ⟨hstore, -⟩ := h { id := env.store.database.nextId } { env with store }
      have hnone := h.noConflict env.store.database.nextId { env with store }
      rcases hrun : body.runIn { id := env.store.database.nextId } { env with store } with
        ⟨error | value, later, between⟩
      · rw [hrun] at hstore
        dsimp only at hstore ⊢
        obtain ⟨other, left, hclosing, hleft⟩ := table_closing_error (α := α) later error between
        exact .inl ⟨other, left, hclosing, by rw [hleft, hstore, htable]⟩
      · rw [hrun] at hstore hnone
        dsimp only at hstore hnone ⊢
        simp only [closing, runIn_bind, runIn_commit]
        rcases between.store.commit_cases later with
          ⟨error, changed, after, hcommit, hafter, -⟩ | ⟨version, after, hcommit, -⟩
        · rw [hcommit] at hnone ⊢
          dsimp only
          rw [hnone error rfl]
          refine .inl ⟨error, _, rfl, ?_⟩
          show after.database.table = _
          rw [hafter, hstore]
          exact htable
        · rw [hcommit]
          exact .inr ⟨value, _, rfl, _, _, _, _, _, _, _, hbegin, hrun, hcommit, rfl⟩

/-- A transaction that nobody interrupts is one try. -/
theorem transact_eq_tryOnce {body : TxOp Unit α} (h : body.Steady) (ctx : Context)
    (env : Env Unit) :
    ∃ outcome left, (tryOnce ctx body).runIn env = (outcome.map .ok, left) ∧
      (transact ctx body).runIn env = (outcome, left) := by
  unfold transact
  rw [runIn_bind, runIn_env]
  dsimp only
  cases env.store.retry.maxRetries with
  | zero | succ retries =>
    unfold transactWithin
    rw [runIn_bind]
    rcases tryOnce_cases h ctx env with ⟨error, left, htry, -⟩ | ⟨value, left, htry, -⟩
    · rw [htry]
      exact ⟨.error error, left, rfl, rfl⟩
    · rw [htry]
      exact ⟨.ok value, left, rfl, rfl⟩

/-- It fails and leaves the documents as they are, or its attempt is committed. -/
theorem transact_cases {body : TxOp Unit α} (h : body.Steady) (ctx : Context) (env : Env Unit) :
    (∃ error left, (transact ctx body).runIn env = (.error error, left) ∧
        left.store.table = env.store.table) ∨
      ∃ value left, (transact ctx body).runIn env = (.ok value, left) ∧
        Committed body env value left := by
  obtain ⟨outcome, left, htry, hrun⟩ := transact_eq_tryOnce h ctx env
  rw [hrun]
  rcases tryOnce_cases h ctx env with
    ⟨error, after, hcase, hafter⟩ | ⟨value, after, hcase, hdone⟩ <;>
    rw [hcase] at htry <;> cases outcome <;> cases htry
  · exact .inl ⟨error, left, rfl, hafter⟩
  · exact .inr ⟨value, left, rfl, hdone⟩

end Op

end Shardwise
