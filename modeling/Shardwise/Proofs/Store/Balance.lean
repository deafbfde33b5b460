import Mathlib.Algebra.Ring.Nat
import Shardwise.Proofs.Context
import Shardwise.Proofs.Store.Retries

/-!
# The counts of a store

A store counts the attempts that began, that were committed and that were aborted, and
the calls that followed a conflict.

`Env.Proceeds` is what callers do who hold attempts of their own: they begin, change,
commit and abort them, make other requests, close the store, set its retry policy, and
run transactions, whose operations may do all of this in turn.  An attempt that began was
committed or aborted or is still under way, except for those that a transaction leaves
behind: when its operation returns in a store that is closed by then, the commit fails,
and the attempt is neither committed nor aborted (`Call.strands`).
`Env.Proceeds.accounts` says that these are all.

A transaction counts a retry before it finds out whether the context is done.  If it is
(`Op.Unanswered`), then one retry more is counted than there are calls after the first;
`Op.Transacts.retried` says that otherwise the numbers agree.
-/

namespace Shardwise

variable {υ σ α : Type}

/-! ## Attempts under way -/

/-- One for an attempt that is neither committed nor aborted yet. -/
def Attempt.underway (attempt : Attempt) : Nat :=
  if attempt.isCommitted || attempt.isAborted then 0 else 1

theorem Attempt.underway_congr {attempt other : Attempt} (h : other.status = attempt.status) :
    other.underway = attempt.underway := by
  rw [underway, underway, isCommitted, isCommitted, isAborted, isAborted, h]

theorem Attempt.underway_active {attempt : Attempt} (h : attempt.status = .active) :
    attempt.underway = 1 := by
  rw [underway, isCommitted, isAborted, h]
  rfl

namespace Store

variable {store left : Store} {attempt changed : Attempt}

/-- A commit counts the attempt if it ends it. -/
theorem commit_counts {outcome : Except Error UInt64}
    (h : store.commit attempt = (outcome, changed, left)) :
    left.stats.started = store.stats.started ∧ left.stats.retried = store.stats.retried ∧
      left.stats.committed + left.stats.aborted + changed.underway =
        store.stats.committed + store.stats.aborted + attempt.underway := by
  cases hopen : store.isOpen with
  | false =>
    rw [commit_closed hopen] at h
    cases h
    exact ⟨rfl, rfl, rfl⟩
  | true =>
    rcases store.database.commit_cases attempt with
      ⟨error, reason, hcommit, rfl, -⟩ | ⟨error, reason, hcommit, herror, hstatus⟩ |
      ⟨version, database, hcommit, hcommits⟩
    · rw [commit_invalid hopen hcommit] at h
      cases h
      exact ⟨rfl, rfl, rfl⟩
    · rw [commit_failed hopen herror hcommit] at h
      cases h
      rw [Attempt.underway_active hstatus]
      exact ⟨rfl, rfl, rfl⟩
    · rw [commit_ok hopen hcommit] at h
      cases h
      rw [Attempt.underway_active hcommits.active]
      exact ⟨rfl, rfl, Nat.add_right_comm store.stats.committed 1 store.stats.aborted⟩

/-- A commit ends an active attempt, unless the store is closed. -/
theorem commit_ends {outcome : Except Error UInt64}
    (h : store.commit attempt = (outcome, changed, left)) (hactive : attempt.status = .active) :
    changed.underway = if store.isOpen then 0 else 1 := by
  cases hopen : store.isOpen with
  | false =>
    rw [commit_closed hopen] at h
    cases h
    exact Attempt.underway_active hactive
  | true =>
    rcases store.database.commit_cases attempt with
      ⟨error, reason, hcommit, -, hstatus⟩ | ⟨error, reason, hcommit, herror, -⟩ |
      ⟨version, database, hcommit, -⟩
    · exact absurd hactive hstatus
    · rw [commit_failed hopen herror hcommit] at h
      cases h
      rfl
    · rw [commit_ok hopen hcommit] at h
      cases h
      rfl

/-- An abort counts the attempt, and ends it. -/
theorem abort_counts {reason : String} (h : store.abort attempt reason = .ok (changed, left)) :
    left = store.countAborted ∧ attempt.underway = 1 ∧ changed.underway = 0 := by
  refine ⟨abort_eq_ok h, ?_⟩
  unfold abort Attempt.markAborted at h
  unfold Attempt.underway Attempt.isCommitted Attempt.isAborted
  cases hstatus : attempt.status <;> rw [hstatus] at h <;> cases h <;> exact ⟨rfl, rfl⟩

end Store

/-! ## What callers do -/

/-- What callers hold: the attempts that they began themselves, and anything else. -/
structure Holdings (σ : Type) where
  attempts : List Attempt := []
  rest : σ

/-- The attempts of callers that are under way. -/
def Env.underway (env : Env (Holdings σ)) : Nat :=
  (env.user.attempts.map Attempt.underway).sum

/-- The environment with other attempts in the hands of callers. -/
def Env.holding (env : Env (Holdings σ)) (attempts : List Attempt) : Env (Holdings σ) :=
  { env with user := { env.user with attempts } }

/-- The operation of a transaction returned, and the store is closed: the attempt of the
call will be neither committed nor aborted. -/
def Call.strands (call : Call υ α) : Bool := call.outcome.isOk && !call.after.store.isOpen

/-- What callers do, where transactions leave some number of attempts behind that they
neither commit nor abort.  Requests that fail change nothing and are left out. -/
inductive Env.Proceeds : Env (Holdings σ) → Nat → Env (Holdings σ) → Prop
  | refl (env : Env (Holdings σ)) : Proceeds env 0 env
  | trans {env midway final : Env (Holdings σ)} {lost more : Nat} (h : Proceeds env lost midway)
      (h' : Proceeds midway more final) : Proceeds env (lost + more) final
  | begin {env : Env (Holdings σ)} {attempt : Attempt} {store : Store}
      (h : env.store.begin = .ok (attempt, store)) :
      Proceeds env 0 ({ env with store }.holding (env.user.attempts ++ [attempt]))
  | inside {env : Env (Holdings σ)} {earlier more : List Attempt} {attempt later : Attempt}
      (held : env.user.attempts = earlier ++ attempt :: more) (h : attempt.Evolves later) :
      Proceeds env 0 (env.holding (earlier ++ later :: more))
  | commit {env : Env (Holdings σ)} {earlier more : List Attempt} {attempt changed : Attempt}
      {outcome : Except Error UInt64} {store : Store}
      (held : env.user.attempts = earlier ++ attempt :: more)
      (h : env.store.commit attempt = (outcome, changed, store)) :
      Proceeds env 0 ({ env with store }.holding (earlier ++ changed :: more))
  | abort {env : Env (Holdings σ)} {earlier more : List Attempt} {attempt changed : Attempt}
      {reason : String} {store : Store} (held : env.user.attempts = earlier ++ attempt :: more)
      (h : env.store.abort attempt reason = .ok (changed, store)) :
      Proceeds env 0 ({ env with store }.holding (earlier ++ changed :: more))
  | insert {env : Env (Holdings σ)} {key : DocKey} {document : Document} {store : Store}
      (h : env.store.insert key document = .ok store) : Proceeds env 0 { env with store }
  | delete {env : Env (Holdings σ)} {key : DocKey} {store : Store}
      (h : env.store.delete key = .ok store) : Proceeds env 0 { env with store }
  | close (env : Env (Holdings σ)) : Proceeds env 0 { env with store := env.store.close }
  | configure (env : Env (Holdings σ)) (retry : RetryPolicy) :
      Proceeds env 0 { env with store := { env.store with retry } }
  /-- Contexts are cancelled, clocks are moved, time passes. -/
  | surround {env final : Env (Holdings σ)} (store : final.store = env.store)
      (attempts : final.user.attempts = env.user.attempts) : Proceeds env 0 final
  /-- A transaction with the calls that it notes.  The operation changes the attempt of
  a call by reads and writes, and for the rest does what callers do. -/
  | transact {α : Type} {env final : Env (Holdings σ)} {ctx : Context}
      {body : TxOp (Holdings σ) α} {calls : List (Call (Holdings σ) α)}
      {outcome : Except Error α} {lost : Call (Holdings σ) α → Nat}
      (h : (Op.transact ctx body.noting).runIn (env.noted []) = (outcome, final.noted calls))
      (own : ∀ call ∈ calls, call.begun.Evolves call.later)
      (proceeds : ∀ call ∈ calls, Proceeds call.before (lost call) call.after) :
      Proceeds env ((calls.map lost).sum + calls.countP Call.strands) final

/-! ## Attempts -/

/-- The attempts that began were committed or aborted, are under way, or were left
behind. -/
def Env.Accounts (env final : Env (Holdings σ)) (lost : Nat) : Prop :=
  final.store.stats.started +
      (env.store.stats.committed + env.store.stats.aborted + env.underway) =
    env.store.stats.started +
      (final.store.stats.committed + final.store.stats.aborted + final.underway) + lost

theorem Env.underway_holding (env : Env (Holdings σ)) (earlier more : List Attempt)
    (attempt : Attempt) :
    (env.holding (earlier ++ attempt :: more)).underway =
      (earlier.map Attempt.underway).sum + attempt.underway + (more.map Attempt.underway).sum := by
  simp [underway, holding, Nat.add_assoc]

theorem Env.underway_of_held {env : Env (Holdings σ)} {earlier more : List Attempt}
    {attempt : Attempt} (held : env.user.attempts = earlier ++ attempt :: more) :
    env.underway =
      (earlier.map Attempt.underway).sum + attempt.underway + (more.map Attempt.underway).sum := by
  rw [← env.underway_holding, ← held]
  rfl

namespace Op

/-- The calls that a transaction notes are those of its trace. -/
theorem transacts_of_noting {ctx : Context} {body : TxOp υ α} {env final : Env υ}
    {calls : List (Call υ α)} {outcome : Except Error α}
    (h : (transact ctx body.noting).runIn (env.noted []) = (outcome, final.noted calls)) :
    Transacts env.store.retry ctx body env.store.retry.maxRetries env calls outcome final := by
  obtain ⟨noted, htrace, hnoted⟩ :=
    transacts_noting env.store.retry ctx body env.store.retry.maxRetries env
  have hsame := h.symm.trans (hnoted [])
  have houtcome := congrArg Prod.fst hsame
  have hfinal : final = _ := congrArg (fun left => left.2.plain) hsame
  have hcalls : calls = [] ++ noted := congrArg (fun left => left.2.user.2) hsame
  dsimp only at houtcome
  rw [houtcome, hfinal, hcalls]
  exact htrace

end Op

namespace Env.Accounts

variable {env midway final : Env (Holdings σ)} {lost more : Nat}

theorem trans (h : env.Accounts midway lost) (h' : midway.Accounts final more) :
    env.Accounts final (lost + more) := by
  unfold Accounts at h h' ⊢
  omega

end Env.Accounts

namespace Op

section

variable {ctx : Context} {body : TxOp (Holdings σ) α} {env : Env (Holdings σ)}
  {call : Call (Holdings σ) α} {lost : Nat}

/-- An attempt begins for a call, and is active when the operation is done with it. -/
theorem Starts.active (h : Starts ctx body env call) (own : call.begun.Evolves call.later) :
    call.later.status = .active := by
  rw [own.same.2, h.call_eq]
  rfl

/-- After a call, the attempt that began for it is not settled yet. -/
theorem Starts.accounts (h : Starts ctx body env call)
    (haccounts : call.before.Accounts call.after lost) : env.Accounts call.after (lost + 1) := by
  rw [h.call_eq] at haccounts ⊢
  unfold Env.Accounts Env.underway at haccounts ⊢
  dsimp only [TxOp.call, Store.begun] at haccounts ⊢
  omega

/-- The commit after a call settles it, unless the store is closed. -/
theorem Starts.accounts_commit (h : Starts ctx body env call)
    (own : call.begun.Evolves call.later) (haccounts : call.before.Accounts call.after lost)
    {value : α} (hvalue : call.outcome = .ok value) {result : Except Error UInt64}
    {changed : Attempt} {store : Store}
    (hcommit : call.after.store.commit call.later = (result, changed, store)) :
    env.Accounts { call.after with store } (lost + if call.strands then 1 else 0) := by
  have hcall := h.accounts haccounts
  have hactive := h.active own
  have hends := Store.commit_ends hcommit hactive
  have hlater := Attempt.underway_active hactive
  obtain ⟨hstarted, -, hcounts⟩ := Store.commit_counts hcommit
  have hstrands : call.strands = !call.after.store.isOpen := by
    rw [Call.strands, hvalue]
    rfl
  rw [hlater, hends] at hcounts
  rw [hstrands]
  unfold Env.Accounts Env.underway at hcall ⊢
  dsimp only at hcall ⊢
  cases hopen : call.after.store.isOpen <;> simp only [hopen] at hcounts ⊢ <;> simp at hcounts ⊢ <;>
    omega

end

/-- The attempts of a transaction: those that its calls leave behind, and those that it
leaves behind itself. -/
theorem Transacts.accounts {policy : RetryPolicy} {ctx : Context} {body : TxOp (Holdings σ) α}
    {left : Nat} {env final : Env (Holdings σ)} {calls : List (Call (Holdings σ) α)}
    {outcome : Except Error α} {lost : Call (Holdings σ) α → Nat}
    (h : Transacts policy ctx body left env calls outcome final)
    (own : ∀ call ∈ calls, call.begun.Evolves call.later)
    (haccounts : ∀ call ∈ calls, call.before.Accounts call.after (lost call)) :
    env.Accounts final ((calls.map lost).sum + calls.countP Call.strands) := by
  induction h with
  | done | closed => exact rfl
  | @failed _ env call error h hfailed =>
    rw [List.forall_mem_singleton] at own haccounts
    have hcall := h.accounts haccounts
    -- Reads and writes leave the attempt active, so that it is aborted.
    have hactive : call.later.isActive = true := by
      rw [Attempt.isActive, h.active own]
      rfl
    have hstrands : call.strands = false := by
      rw [Call.strands, hfailed]
      rfl
    rw [if_pos hactive]
    simp only [List.map_singleton, List.sum_singleton, List.countP_singleton, hstrands]
    unfold Env.Accounts Env.underway at hcall ⊢
    dsimp only [Store.countAborted] at hcall ⊢
    simp
    omega
  | committed h hvalue hcommit =>
    rw [List.forall_mem_singleton] at own haccounts
    simpa using h.accounts_commit own haccounts hvalue hcommit
  | refused h hvalue hcommit hlast =>
    rw [List.forall_mem_singleton] at own haccounts
    simpa using h.accounts_commit own haccounts hvalue hcommit
  | @again left env final call value error changed store calls outcome h hvalue hcommit hconflict
      more ih =>
    rw [List.forall_mem_cons] at own haccounts
    have hfirst := h.accounts_commit own.1 haccounts.1 hvalue hcommit
    have hmore := ih own.2 haccounts.2
    rw [List.map_cons, List.sum_cons, List.countP_cons]
    unfold Env.Accounts Env.underway at hfirst hmore ⊢
    dsimp only [Call.paused, Store.countRetried] at hfirst hmore ⊢
    omega

end Op

/-- What callers do keeps the account of attempts. -/
theorem Env.Proceeds.accounts {env final : Env (Holdings σ)} {lost : Nat}
    (h : env.Proceeds lost final) : env.Accounts final lost := by
  induction h with
  | refl env => exact rfl
  | trans _ _ ih ih' => exact ih.trans ih'
  | @begin env attempt store h =>
    obtain ⟨-, rfl, rfl⟩ := Store.begin_eq_ok h
    have hafter := Env.underway_holding { env with store := env.store.begun } env.user.attempts []
      { id := env.store.database.nextId }
    have hfresh : ({ id := env.store.database.nextId } : Attempt).underway = 1 := rfl
    unfold Accounts
    rw [hafter, hfresh]
    dsimp only [holding, Store.begun, underway]
    simp
    omega
  | @inside env earlier more attempt later held h =>
    have hsame := Attempt.underway_congr h.same.2
    have hbefore := underway_of_held held
    have hafter := env.underway_holding earlier more later
    unfold Accounts
    rw [hbefore, hafter, hsame]
    rfl
  | @commit env earlier more attempt changed outcome store held h =>
    obtain ⟨hstarted, -, hcounts⟩ := Store.commit_counts h
    have hbefore := underway_of_held held
    have hafter := Env.underway_holding { env with store } earlier more changed
    unfold Accounts
    rw [hbefore, hafter]
    dsimp only [holding]
    omega
  | @abort env earlier more attempt changed reason store held h =>
    obtain ⟨rfl, hunderway, hended⟩ := Store.abort_counts h
    have hbefore := underway_of_held held
    have hafter := Env.underway_holding { env with store := env.store.countAborted }
      earlier more changed
    unfold Accounts
    rw [hbefore, hafter, hunderway, hended]
    dsimp only [holding, Store.countAborted]
    omega
  | insert h =>
    rw [Store.insert_eq_ok h]
    exact rfl
  | delete h =>
    rcases Store.delete_eq_ok h with ⟨rfl, -⟩ | rfl <;> exact rfl
  | close env => exact rfl
  | configure env retry => exact rfl
  | @surround env final store attempts =>
    unfold Accounts underway
    rw [store, attempts]
    rfl
  | transact h own proceeds ih => exact (Op.transacts_of_noting h).accounts own ih

/-! ## Retries -/

namespace Op

/-- The last commit met a conflict and retries were left, but the context was done after
the pause.  Some retries were spent before these calls. -/
def Unanswered (policy : RetryPolicy) (ctx : Context) (spent : Nat) (calls : List (Call υ α)) :
    Prop :=
  ∃ earlier call value error changed store, calls = earlier ++ [call] ∧
    call.outcome = .ok value ∧ call.after.store.commit call.later = (.error error, changed, store) ∧
    error.isConflict = true ∧ spent + earlier.length < policy.maxRetries ∧
    ctx.Done call.after.flags (call.after.elapsed + policy.delay (spent + earlier.length))

/-- The retries that were counted by the end, over those that the calls themselves
counted. -/
def Retried (env final : Env υ) (calls : List (Call υ α)) (retries : Nat) : Prop :=
  final.store.stats.retried + (calls.map (·.before.store.stats.retried)).sum =
    env.store.stats.retried + (calls.map (·.after.store.stats.retried)).sum + retries

theorem Unanswered.cons_iff {policy : RetryPolicy} {ctx : Context} {spent : Nat}
    {call : Call υ α} {calls : List (Call υ α)} (h : calls ≠ []) :
    Unanswered policy ctx spent (call :: calls) ↔ Unanswered policy ctx (spent + 1) calls := by
  have hspent : ∀ earlier : List (Call υ α),
      spent + (call :: earlier).length = spent + 1 + earlier.length := by
    intro earlier
    rw [List.length_cons]
    omega
  constructor
  · rintro ⟨earlier, last, value, error, changed, store, heq, hlast⟩
    cases earlier with
    | nil =>
      cases heq
      exact absurd rfl h
    | cons first earlier =>
      obtain ⟨rfl, rfl⟩ := List.cons.inj heq
      rw [hspent] at hlast
      exact ⟨earlier, last, value, error, changed, store, rfl, hlast⟩
  · rintro ⟨earlier, last, value, error, changed, store, rfl, hlast⟩
    rw [← hspent] at hlast
    exact ⟨call :: earlier, last, value, error, changed, store, rfl, hlast⟩

/-- A single call that is left unanswered. -/
theorem Unanswered.of_singleton {policy : RetryPolicy} {ctx : Context} {spent : Nat}
    {call : Call υ α} (h : Unanswered policy ctx spent [call]) :
    ∃ value error changed store, call.outcome = .ok value ∧
      call.after.store.commit call.later = (.error error, changed, store) ∧
      error.isConflict = true ∧ spent < policy.maxRetries := by
  obtain ⟨earlier, last, value, error, changed, store, heq, hvalue, hcommit, hconflict, hspent,
    -⟩ := h
  cases earlier with
  | nil =>
    cases heq
    exact ⟨value, error, changed, store, hvalue, hcommit, hconflict, hspent⟩
  | cons first earlier => simp at heq

/-- What begins an attempt counts no retry. -/
theorem Starts.retried {ctx : Context} {body : TxOp υ α} {env : Env υ} {call : Call υ α}
    (h : Starts ctx body env call) : call.before.store.stats.retried = env.store.stats.retried := by
  rw [h.call_eq]
  rfl

/-- One retry is counted for each call after the first, and one more if the last conflict
was left unanswered. -/
theorem Transacts.retried {policy : RetryPolicy} {ctx : Context} {body : TxOp υ α}
    {left spent : Nat} {env final : Env υ} {calls : List (Call υ α)} {outcome : Except Error α}
    (h : Transacts policy ctx body left env calls outcome final)
    (hleft : spent + left = policy.maxRetries) :
    (Unanswered policy ctx spent calls ∧ Retried env final calls calls.length) ∨
      (¬ Unanswered policy ctx spent calls ∧ Retried env final calls (calls.length - 1)) := by
  have hsingle : ∀ {env final : Env υ} {call : Call υ α},
      call.before.store.stats.retried = env.store.stats.retried →
      final.store.stats.retried = call.after.store.stats.retried →
      Retried env final [call] ([call].length - 1) := by
    intro env final call hbefore hafter
    simp only [Retried, List.map_singleton, List.sum_singleton, List.length_singleton]
    omega
  -- Each call that is followed by another spends a retry of those that are left.
  induction h generalizing spent with
  | done | closed =>
    refine .inr ⟨?_, by simp [Retried]⟩
    rintro ⟨earlier, last, _, _, _, _, heq, -⟩
    simp at heq
  | failed h hfailed =>
    refine .inr ⟨fun hunanswered => ?_, hsingle h.retried (by split <;> rfl)⟩
    obtain ⟨value, _, _, _, hvalue, -⟩ := hunanswered.of_singleton
    cases hfailed.symm.trans hvalue
  | committed h hvalue hcommit =>
    refine .inr ⟨fun hunanswered => ?_, hsingle h.retried (Store.commit_counts hcommit).2.1⟩
    obtain ⟨_, _, _, _, -, hrefused, -⟩ := hunanswered.of_singleton
    cases hcommit.symm.trans hrefused
  | refused h hvalue hcommit hlast =>
    refine .inr ⟨fun hunanswered => ?_, hsingle h.retried (Store.commit_counts hcommit).2.1⟩
    obtain ⟨_, _, _, _, -, hrefused, hconflict, hspent⟩ := hunanswered.of_singleton
    cases hcommit.symm.trans hrefused
    have hnone := hlast hconflict
    omega
  | @again left env final call value error changed store calls outcome h hvalue hcommit hconflict
      more ih =>
    have hdelay : policy.maxRetries - (left + 1) = spent := by omega
    have hbefore := h.retried
    have hafter := (Store.commit_counts hcommit).2.1
    rw [hdelay] at more ih
    cases calls with
    | nil =>
      obtain ⟨rfl, reason, -, hdone | hclosed⟩ := more.of_nil
      · refine .inl
          ⟨⟨[], call, value, error, changed, store, rfl, hvalue, hcommit, hconflict, ?_, ?_⟩,
          ?_⟩
        · rw [List.length_nil]
          omega
        · rcases ctx.check_cases (call.paused store (policy.delay spent)).flags
            (call.paused store (policy.delay spent)).elapsed with ⟨hended, -⟩ | ⟨-, hlive⟩
          · exact hended
          · cases hdone.symm.trans hlive
        · simp only [Retried, List.map_singleton, List.sum_singleton, List.length_singleton,
            Call.paused, Store.countRetried]
          omega
      · -- The commit met a conflict, so that the store was open.
        rw [Store.ensureOpen, open_of_conflict hcommit hconflict] at hclosed
        cases hclosed
    | cons next calls =>
      have hmore := ih (show spent + 1 + left = policy.maxRetries by omega)
      have hshift : ∀ retries,
          Retried (call.paused store (policy.delay spent)) final (next :: calls) retries →
          Retried env final (call :: next :: calls) (retries + 1) := by
        intro retries hretried
        simp only [Retried, List.map_cons, List.sum_cons, Call.paused, Store.countRetried]
          at hretried ⊢
        omega
      rw [Unanswered.cons_iff (List.cons_ne_nil next calls)]
      exact hmore.imp (fun h => ⟨h.1, hshift _ h.2⟩) fun h => ⟨h.1, hshift _ h.2⟩

end Op

/-- A transaction is something that callers do, if its operation changes its own attempt by
reads and writes and does for the rest what callers do. -/
theorem Env.Proceeds.transacts {body : TxOp (Holdings σ) α}
    (own : ∀ (attempt : Attempt) env, attempt.Evolves (body.runIn attempt env).2.1)
    (proceeds : ∀ attempt env, ∃ lost, Env.Proceeds env lost (body.runIn attempt env).2.2)
    (ctx : Context) (env : Env (Holdings σ)) :
    ∃ lost, env.Proceeds lost ((Op.transact ctx body).runIn env).2 := by
  choose lost hlost using proceeds
  obtain ⟨calls, htrace, hnoted⟩ :=
    Op.transacts_noting env.store.retry ctx body env.store.retry.maxRetries env
  have hown : ∀ call ∈ calls, call.begun.Evolves call.later := by
    intro call hcall
    rw [htrace.ran call hcall]
    exact own call.begun call.before
  have hcalls : ∀ call ∈ calls,
      Env.Proceeds call.before (lost call.begun call.before) call.after := by
    intro call hcall
    rw [htrace.ran call hcall]
    exact hlost call.begun call.before
  exact ⟨_, .transact (hnoted []) hown hcalls⟩

/-! ## The counts -/

/-- Attempts that began were committed or aborted, are in the hands of callers, or were
left behind by transactions in a closed store; a transaction counts one retry for each
call after the first, unless its last conflict was left unanswered. -/
theorem Env.statistics (σ : Type) :
    (∀ {start env : Env (Holdings σ)} {lost : Nat}, start.store.stats = {} →
      start.user.attempts = [] → start.Proceeds lost env →
        env.store.stats.started = env.store.stats.committed + env.store.stats.aborted +
          env.underway + lost ∧
        (env.store.stats.started = env.store.stats.committed + env.store.stats.aborted +
          env.underway ↔ lost = 0)) ∧
    ∀ {υ α : Type} (ctx : Context) (body : TxOp υ α) (env : Env υ), ∃ calls outcome final,
      (Op.transact ctx body).runIn env = (outcome, final) ∧
      (Op.transact ctx body.noting).runIn (env.noted []) = (outcome, final.noted calls) ∧
      (Op.Retried env final calls (calls.length - 1) ↔
        ¬ Op.Unanswered env.store.retry ctx 0 calls) ∧
      (Op.Unanswered env.store.retry ctx 0 calls → Op.Retried env final calls calls.length) := by
  constructor
  · intro start env lost hfresh hnone hproceeds
    have haccounts := hproceeds.accounts
    unfold Accounts at haccounts
    have hunderway : start.underway = 0 := by
      rw [underway, hnone]
      rfl
    rw [hfresh, hunderway] at haccounts
    dsimp only at haccounts
    constructor <;> omega
  · intro υ α ctx body env
    obtain ⟨calls, htrace, hnoted⟩ :=
      Op.transacts_noting env.store.retry ctx body env.store.retry.maxRetries env
    refine ⟨calls, ((Op.transactWithin env.store.retry ctx body env.store.retry.maxRetries).runIn
      env).1, ((Op.transactWithin env.store.retry ctx body env.store.retry.maxRetries).runIn env).2,
      rfl, hnoted [], ?_⟩
    rcases htrace.retried (Nat.zero_add _) with ⟨hunanswered, hretried⟩ | ⟨hanswered, hretried⟩
    · refine ⟨iff_of_false (fun hless => ?_) (not_not_intro hunanswered), fun _ => hretried⟩
      obtain ⟨earlier, call, _, _, _, _, rfl, -⟩ := hunanswered
      unfold Op.Retried at hretried hless
      rw [List.length_append, List.length_singleton] at hretried hless
      omega
    · exact ⟨iff_of_true hretried hanswered, fun hunanswered => absurd hunanswered hanswered⟩

/-- Two attempts begin, and one of them is committed. -/
theorem Env.statistics_twoAttempts : ∃ env : Env (Holdings Unit),
    env.store.stats = { started := 2, committed := 1 } ∧ env.underway = 1 ∧
      env.store.stats.started =
        env.store.stats.committed + env.store.stats.aborted + env.underway + 0 := by
  have hproceeds : Env.Proceeds { user := { rest := () } } (0 + 0 + 0) _ :=
    .trans (.trans (.begin rfl) (.begin rfl)) (.commit (show _ = [] ++ _ :: _ from rfl) rfl)
  exact ⟨_, rfl, rfl, ((Env.statistics Unit).1 rfl rfl hproceeds).1⟩

/-- Closes the store. -/
def TxOp.shut : TxOp υ Unit := TxOp.ofOp (Op.change fun store => .ok store.close)

/-- Finds no document, and cancels the context after somebody else has made one. -/
def TxOp.giveUp (ctx : Context) : TxOp υ Unit := do
  discard (TxOp.get Store.crate)
  TxOp.ofOp (Op.insert Store.crate {})
  TxOp.ofOp (do
    let env ← Op.env
    Op.setEnv { env with flags := ctx.cancel env.flags })

/-- An operation that closes the store leaves its attempt behind, and for one that cancels
its context and meets a conflict a retry is counted without a second call. -/
theorem Env.not_statistics :
    (∃ final : Env (Holdings Unit), Env.Proceeds { user := { rest := () } } 1 final ∧
      final.underway = 0 ∧ final.store.stats = { started := 1 }) ∧
    ∃ calls outcome final,
      (Op.transact ⟨⟨0, none⟩, []⟩ (TxOp.giveUp ⟨⟨0, none⟩, []⟩).noting).runIn
        (Env.noted { user := () } []) = (outcome, Env.noted final calls) ∧
      calls.length = 1 ∧ final.store.stats = { started := 1, aborted := 1, retried := 1 } := by
  constructor
  · let start : Env (Holdings Unit) := { user := { rest := () } }
    let call : Call (Holdings Unit) Unit :=
      TxOp.shut.call { id := 1 } { start with store := Store.begun {} }
    have hrun : (Op.transact ⟨⟨0, none⟩, []⟩ TxOp.shut.noting).runIn (start.noted []) =
        (.error (.ofStore "store is closed"),
          Env.noted { start with store := (Store.begun {}).close } [call]) := rfl
    have hown : ∀ other ∈ [call], other.begun.Evolves other.later :=
      List.forall_mem_singleton.mpr .refl
    have hcloses : ∀ other ∈ [call], Env.Proceeds other.before ((fun _ => 0) other) other.after :=
      List.forall_mem_singleton.mpr (.close _)
    exact ⟨_, .transact hrun hown hcloses, rfl, rfl⟩
  · obtain ⟨calls, -, hnoted⟩ := Op.transacts_noting {} ⟨⟨0, none⟩, []⟩
      (TxOp.giveUp ⟨⟨0, none⟩, []⟩) ({} : RetryPolicy).maxRetries { user := () }
    have hcalls := congrArg (fun left => left.2.user.2.length) (hnoted [])
    exact ⟨calls, _, _, hnoted [], hcalls.symm, rfl⟩

end Shardwise
