import Mathlib.Data.List.Basic
import Mathlib.Tactic.Choose
import Shardwise.Proofs.Session.Transact
import Shardwise.Proofs.Store.Replay

/-!
# Transactions call by call

`Op.transact` calls an operation inside an attempt of its own, again and again while
commits meet conflicts.  `TxOp.noting` is the same operation with a note of each call:
what it was given, what it returned and what it left.

`Op.Transacts` is a declarative trace of the choices of the executor: a context that
is done, a closed store, an operation that fails, a commit that succeeds, one that
fails for good, and one that is followed by a pause and more calls.
`Op.transacts_noting` says that these are the calls that are noted, and
`Op.Transacts.split` goes to any one of them.  The other facts are read off from the
choices there: `Op.transact_account` puts them together.
-/

namespace Shardwise

variable {υ α : Type}

/-! ## Notes -/

/-- One call of an operation inside an attempt. -/
structure Call (υ α : Type) where
  /-- The attempt that the operation was given. -/
  begun : Attempt
  /-- What it saw at its start. -/
  before : Env υ
  outcome : Except Error α
  /-- The attempt that it left. -/
  later : Attempt
  after : Env υ

/-- The environment after a commit of what a call made, and a pause. -/
def Call.paused (call : Call υ α) (store : Store) (delay : Nat) : Env υ :=
  { call.after with store := store.countRetried, elapsed := call.after.elapsed + delay }

/-- The environment with notes of calls. -/
def Env.noted (env : Env υ) (calls : List (Call υ α)) : Env (υ × List (Call υ α)) :=
  { env with user := (env.user, calls) }

/-- The environment without the notes. -/
def Env.plain (env : Env (υ × List (Call υ α))) : Env υ := { env with user := env.user.1 }

/-- The call of an operation with an attempt. -/
def TxOp.call (body : TxOp υ α) (begun : Attempt) (before : Env υ) : Call υ α where
  begun := begun
  before := before
  outcome := (body.runIn begun before).1
  later := (body.runIn begun before).2.1
  after := (body.runIn begun before).2.2

/-- The operation, with a note of each call. -/
def TxOp.noting (body : TxOp υ α) : TxOp (υ × List (Call υ α)) α :=
  ExceptT.mk fun (attempt, env) =>
    let call := body.call attempt env.plain
    (call.outcome, call.later, call.after.noted (env.user.2 ++ [call]))

namespace Op

/-! ## The choices of the executor -/

/-- An attempt begins in `env`, and the operation is called with it. -/
structure Starts (ctx : Context) (body : TxOp υ α) (env : Env υ) (call : Call υ α) : Prop where
  live : ctx.check env.flags env.elapsed = .ok ()
  opened : env.store.isOpen = true
  call_eq : call =
    body.call { id := env.store.database.nextId } { env with store := env.store.begun }

/-- A transaction with some retries left makes calls, has an outcome and leaves an
environment. -/
inductive Transacts (policy : RetryPolicy) (ctx : Context) (body : TxOp υ α) :
    Nat → Env υ → List (Call υ α) → Except Error α → Env υ → Prop
  | done {left : Nat} {env : Env υ} {error : Error}
      (h : ctx.check env.flags env.elapsed = .error error) :
      Transacts policy ctx body left env [] (.error error) env
  | closed {left : Nat} {env : Env υ} {error : Error}
      (live : ctx.check env.flags env.elapsed = .ok ()) (h : env.store.ensureOpen = .error error) :
      Transacts policy ctx body left env [] (.error error) env
  | failed {left : Nat} {env : Env υ} {call : Call υ α} {error : Error}
      (h : Starts ctx body env call) (hfailed : call.outcome = .error error) :
      Transacts policy ctx body left env [call] (.error error)
        (if call.later.isActive then
          { call.after with store := call.after.store.countAborted } else call.after)
  | committed {left : Nat} {env : Env υ} {call : Call υ α} {value : α} {version : UInt64}
      {done : Attempt} {store : Store} (h : Starts ctx body env call)
      (hvalue : call.outcome = .ok value)
      (hcommit : call.after.store.commit call.later = (.ok version, done, store)) :
      Transacts policy ctx body left env [call] (.ok value) { call.after with store }
  /-- The commit fails for good. -/
  | refused {left : Nat} {env : Env υ} {call : Call υ α} {value : α} {error : Error}
      {changed : Attempt} {store : Store} (h : Starts ctx body env call)
      (hvalue : call.outcome = .ok value)
      (hcommit : call.after.store.commit call.later = (.error error, changed, store))
      (hlast : error.isConflict = true → left = 0) :
      Transacts policy ctx body left env [call] (.error error) { call.after with store }
  | again {left : Nat} {env final : Env υ} {call : Call υ α} {value : α} {error : Error}
      {changed : Attempt} {store : Store} {calls : List (Call υ α)} {outcome : Except Error α}
      (h : Starts ctx body env call) (hvalue : call.outcome = .ok value)
      (hcommit : call.after.store.commit call.later = (.error error, changed, store))
      (hconflict : error.isConflict = true)
      (more : Transacts policy ctx body left
        (call.paused store (policy.delay (policy.maxRetries - (left + 1)))) calls outcome final) :
      Transacts policy ctx body (left + 1) env (call :: calls) outcome final

/-! ## One try -/

/-- What follows a call: the result or the conflict of the commit, or an error. -/
def ending (call : Call υ α) : Except Error (Except Error α) × Env υ :=
  match call.outcome with
  | .error error =>
    (.error error, if call.later.isActive then
      { call.after with store := call.after.store.countAborted } else call.after)
  | .ok value =>
    match call.after.store.commit call.later with
    | (.ok _, _, store) => (.ok (.ok value), { call.after with store })
    | (.error error, _, store) =>
      (if error.isConflict then .ok (.error error) else .error error, { call.after with store })

/-- One try, if an attempt begins. -/
theorem runIn_tryOnce {ctx : Context} {body : TxOp υ α} {env : Env υ} {call : Call υ α}
    (h : Starts ctx body env call) : (tryOnce ctx body).runIn env = ending call := by
  obtain ⟨hlive, hopen, rfl⟩ := h
  rw [tryOnce, runIn_bind, runIn_check, hlive]
  dsimp only
  rw [runIn_bind, runIn_begin, Store.begin_open hopen]
  dsimp only
  rw [runIn_bind, TxOp.runIn_runOn, TxOp.call]
  rcases hrun : body.runIn { id := env.store.database.nextId }
    { env with store := env.store.begun } with ⟨error | value, later, after⟩
  · simp only [ending]
    cases hactive : later.isActive with
    | false => rfl
    | true =>
      obtain ⟨aborted, habort⟩ := after.store.abort_active hactive error.message
      simp only [if_true, runIn_bind, runIn_discard, runIn_abort, habort]
      rfl
  · simp only [ending, runIn_bind, runIn_commit]
    rcases after.store.commit later with ⟨error | version, changed, store⟩
    · dsimp only
      cases error.isConflict <;> rfl
    · rfl

/-- One try, if no attempt begins. -/
theorem runIn_tryOnce_done {ctx : Context} {env : Env υ} {error : Error}
    (h : ctx.check env.flags env.elapsed = .error error) (body : TxOp υ α) :
    (tryOnce ctx body).runIn env = (.error error, env) := by
  rw [tryOnce, runIn_bind, runIn_check, h]

theorem runIn_tryOnce_closed {ctx : Context} {env : Env υ} {error : Error}
    (live : ctx.check env.flags env.elapsed = .ok ()) (h : env.store.ensureOpen = .error error)
    (body : TxOp υ α) : (tryOnce ctx body).runIn env = (.error error, env) := by
  have hbegin : env.store.begin = .error error := by
    rw [Store.begin, h]
    rfl
  rw [tryOnce, runIn_bind, runIn_check, live]
  dsimp only
  rw [runIn_bind, runIn_begin, hbegin]

/-- Notes do not matter to what follows a call. -/
theorem ending_noting (body : TxOp υ α) (attempt : Attempt) (env : Env υ)
    (calls : List (Call υ α)) :
    ending (body.noting.call attempt (env.noted calls)) =
      ((ending (body.call attempt env)).1,
        (ending (body.call attempt env)).2.noted (calls ++ [body.call attempt env])) := by
  have hnoted : body.noting.call attempt (env.noted calls) =
      { begun := attempt
        before := env.noted calls
        outcome := (body.call attempt env).outcome
        later := (body.call attempt env).later
        after := (body.call attempt env).after.noted (calls ++ [body.call attempt env]) } := rfl
  rw [hnoted]
  generalize body.call attempt env = call
  rcases call with ⟨begun, before, error | value, later, after⟩
  · dsimp only [ending]
    cases later.isActive <;> rfl
  · dsimp only [ending, Env.noted]
    rcases after.store.commit later with ⟨error | version, changed, store⟩ <;> rfl

/-- One try with notes notes the call. -/
theorem runIn_tryOnce_noting {ctx : Context} {body : TxOp υ α} {env : Env υ} {call : Call υ α}
    (h : Starts ctx body env call) (earlier : List (Call υ α)) :
    (tryOnce ctx body.noting).runIn (env.noted earlier) =
      ((ending call).1, (ending call).2.noted (earlier ++ [call])) := by
  have hstarts : Starts ctx body.noting (env.noted earlier)
      (body.noting.call { id := env.store.database.nextId }
        ({ env with store := env.store.begun }.noted earlier)) := ⟨h.live, h.opened, rfl⟩
  rw [runIn_tryOnce hstarts, ending_noting, ← h.call_eq]

/-- One try is the end of the transaction, or meets a conflict. -/
theorem tryOnce_trace (policy : RetryPolicy) (ctx : Context) (body : TxOp υ α) (env : Env υ) :
    (∃ calls outcome after, (∀ left, Transacts policy ctx body left env calls outcome after) ∧
        (tryOnce ctx body).runIn env = (outcome.map .ok, after) ∧
        ∀ earlier, (tryOnce ctx body.noting).runIn (env.noted earlier) =
          (outcome.map .ok, after.noted (earlier ++ calls))) ∨
      ∃ call value error changed store, Starts ctx body env call ∧ call.outcome = .ok value ∧
        call.after.store.commit call.later = (.error error, changed, store) ∧
        error.isConflict = true ∧
        (tryOnce ctx body).runIn env = (.ok (.error error), { call.after with store }) ∧
        ∀ earlier, (tryOnce ctx body.noting).runIn (env.noted earlier) =
          (.ok (.error error), { call.after with store }.noted (earlier ++ [call])) := by
  cases hlive : ctx.check env.flags env.elapsed with
  | error error =>
    refine .inl ⟨[], .error error, env, fun left => .done hlive, runIn_tryOnce_done hlive body, ?_⟩
    intro earlier
    rw [List.append_nil]
    have hnoted : ctx.check (env.noted earlier).flags (env.noted earlier).elapsed = .error error :=
      hlive
    exact runIn_tryOnce_done hnoted _
  | ok _ =>
    cases hopen : env.store.ensureOpen with
    | error error =>
      refine .inl ⟨[], .error error, env, fun left => .closed hlive hopen,
        runIn_tryOnce_closed hlive hopen body, ?_⟩
      intro earlier
      rw [List.append_nil]
      have hnoted : ctx.check (env.noted earlier).flags (env.noted earlier).elapsed = .ok () :=
        hlive
      have hclosed : (env.noted earlier).store.ensureOpen = .error error := hopen
      exact runIn_tryOnce_closed hnoted hclosed _
    | ok _ =>
      have hstarts : ∃ call, Starts ctx body env call :=
        ⟨_, hlive, Store.ensureOpen_eq_ok hopen, rfl⟩
      obtain ⟨call, hstarts⟩ := hstarts
      have htry := runIn_tryOnce hstarts
      have hnoted := runIn_tryOnce_noting hstarts
      rw [ending] at htry hnoted
      cases hvalue : call.outcome with
      | error error =>
        rw [hvalue] at htry hnoted
        exact .inl ⟨[call], .error error, _, fun left => .failed hstarts hvalue, htry, hnoted⟩
      | ok value =>
        rw [hvalue] at htry hnoted
        dsimp only at htry hnoted
        rcases hcommit : call.after.store.commit call.later with
          ⟨error | version, changed, store⟩ <;> rw [hcommit] at htry hnoted
        · cases hconflict : error.isConflict <;> simp only [hconflict, if_true] at htry hnoted
          · refine .inl ⟨[call], .error error, _, fun left => .refused hstarts hvalue hcommit ?_,
              htry, hnoted⟩
            rw [hconflict]
            simp
          · exact .inr ⟨call, value, error, changed, store, hstarts, hvalue, hcommit, hconflict,
              htry, hnoted⟩
        · exact .inl ⟨[call], .ok value, _, fun left => .committed hstarts hvalue hcommit, htry,
            hnoted⟩

/-! ## All calls -/

section transactWithin

variable {policy : RetryPolicy} {ctx : Context} {body : TxOp υ α} {env after : Env υ}

theorem transactWithin_done {outcome : Except Error α}
    (h : (tryOnce ctx body).runIn env = (outcome.map .ok, after)) (left : Nat) :
    (transactWithin policy ctx body left).runIn env = (outcome, after) := by
  cases outcome <;> cases left <;> rw [transactWithin, runIn_bind, h] <;> rfl

theorem transactWithin_last {error : Error}
    (h : (tryOnce ctx body).runIn env = (.ok (.error error), after)) :
    (transactWithin policy ctx body 0).runIn env = (.error error, after) := by
  rw [transactWithin, runIn_bind, h]
  rfl

theorem transactWithin_again {error : Error}
    (h : (tryOnce ctx body).runIn env = (.ok (.error error), after)) (left : Nat) :
    (transactWithin policy ctx body (left + 1)).runIn env =
      (transactWithin policy ctx body left).runIn
        { after with
          store := after.store.countRetried
          elapsed := after.elapsed + policy.delay (policy.maxRetries - (left + 1)) } := by
  rw [transactWithin, runIn_bind, h]
  dsimp only
  rw [runIn_bind, runIn_pause]

end transactWithin

/-- The calls of a transaction are those that are noted.  The induction is on the
retries that are left. -/
theorem transacts_noting (policy : RetryPolicy) (ctx : Context) (body : TxOp υ α) (left : Nat)
    (env : Env υ) :
    ∃ calls, Transacts policy ctx body left env calls
        ((transactWithin policy ctx body left).runIn env).1
        ((transactWithin policy ctx body left).runIn env).2 ∧
      ∀ earlier, (transactWithin policy ctx body.noting left).runIn (env.noted earlier) =
        (((transactWithin policy ctx body left).runIn env).1,
          ((transactWithin policy ctx body left).runIn env).2.noted (earlier ++ calls)) := by
  induction left generalizing env with
  | zero =>
    rcases tryOnce_trace policy ctx body env with
      ⟨calls, outcome, after, htrace, htry, hnoted⟩ |
      ⟨call, value, error, changed, store, hstarts, hvalue, hcommit, -, htry, hnoted⟩
    · rw [transactWithin_done htry]
      exact ⟨calls, htrace 0, fun earlier => transactWithin_done (hnoted earlier) 0⟩
    · rw [transactWithin_last htry]
      exact ⟨[call], .refused hstarts hvalue hcommit fun _ => rfl,
        fun earlier => transactWithin_last (hnoted earlier)⟩
  | succ left ih =>
    rcases tryOnce_trace policy ctx body env with
      ⟨calls, outcome, after, htrace, htry, hnoted⟩ |
      ⟨call, value, error, changed, store, hstarts, hvalue, hcommit, hconflict, htry, hnoted⟩
    · rw [transactWithin_done htry]
      exact ⟨calls, htrace _, fun earlier => transactWithin_done (hnoted earlier) _⟩
    · rw [transactWithin_again htry]
      obtain ⟨calls, htrace, hmore⟩ :=
        ih (call.paused store (policy.delay (policy.maxRetries - (left + 1))))
      refine ⟨call :: calls, .again hstarts hvalue hcommit hconflict htrace, fun earlier => ?_⟩
      have happend : earlier ++ call :: calls = earlier ++ [call] ++ calls := List.append_cons ..
      rw [transactWithin_again (hnoted earlier), happend]
      exact hmore (earlier ++ [call])

/-! ## One call among all -/

/-- What happens to the store up to the end of a call: an attempt begins, and the
operation makes its requests. -/
theorem Starts.runs {ctx : Context} {body : TxOp υ α} {env : Env υ} {call : Call υ α}
    (h : Starts ctx body env call) {events : List Event}
    (hevents : call.before.store.Runs events call.after.store) :
    env.store.Runs (.began call.begun.id :: events) call.after.store := by
  rw [h.call_eq] at hevents ⊢
  exact (Store.Step.begin (Store.begin_open h.opened)).runs.trans hevents

end Op

namespace Call

/-- The events of calls: for each an attempt begins, and the operation makes its
requests. -/
def events (requests : Call υ α → List Event) (calls : List (Call υ α)) : List Event :=
  calls.flatMap fun call => .began call.begun.id :: requests call

/-- Where calls leave what was in `env` before them. -/
def reached (env : Env υ) (calls : List (Call υ α)) : Env υ :=
  (calls.getLast?.map Call.after).getD env

theorem reached_append (env : Env υ) (earlier : List (Call υ α)) (call : Call υ α) :
    reached env (earlier ++ [call]) = call.after := by
  rw [reached, List.getLast?_concat]
  rfl

theorem reached_cons (env : Env υ) (call : Call υ α) (calls : List (Call υ α)) :
    reached env (call :: calls) = reached call.after calls := by
  rw [reached, List.getLast?_cons]
  cases h : calls.getLast? with
  | none => rw [reached, h]; rfl
  | some last => rw [reached, h]; rfl

theorem table_reached {env other : Env υ} (h : env.store.table = other.store.table)
    (calls : List (Call υ α)) :
    (reached env calls).store.table = (reached other calls).store.table := by
  rw [reached, reached]
  cases calls.getLast? with
  | none => exact h
  | some last => rfl

end Call

namespace Op

/-- A commit that fails, and a pause, leave the table as it is. -/
theorem table_paused {call : Call υ α} {error : Error} {changed : Attempt} {store : Store}
    (h : call.after.store.commit call.later = (.error error, changed, store)) (delay : Nat) :
    (call.paused store delay).store.table = call.after.store.table := by
  rcases call.after.store.commit_cases call.later with
    ⟨_, _, left, hfailed, hsame, -⟩ | ⟨_, left, hdone, -⟩
  · cases hfailed.symm.trans h
    exact congrArg Database.table hsame
  · cases hdone.symm.trans h

/-- A conflict leaves the store open. -/
theorem open_of_conflict {call : Call υ α} {error : Error} {changed : Attempt} {store : Store}
    (h : call.after.store.commit call.later = (.error error, changed, store))
    (hconflict : error.isConflict = true) {delay : Nat} :
    (call.paused store delay).store.isOpen = true := by
  have hsettings := (call.after.store.commit_settings call.later).2.1
  rw [h] at hsettings
  show store.isOpen = true
  rw [hsettings]
  cases hopen : call.after.store.isOpen with
  | false =>
    rw [Store.commit_closed hopen] at h
    cases h
    cases hconflict
  | true => rfl

namespace Transacts

variable {policy : RetryPolicy} {ctx : Context} {body : TxOp υ α} {left : Nat}
  {env final : Env υ} {calls earlier more : List (Call υ α)} {call : Call υ α}
  {outcome : Except Error α}

/-- The part of a transaction that begins with one of its calls.  The induction is on
the calls before it. -/
theorem split (h : Transacts policy ctx body left env (earlier ++ call :: more) outcome final)
    {requests : Call υ α → List Event}
    (hrequests : ∀ other ∈ earlier,
      other.before.store.Runs (requests other) other.after.store) :
    ∃ midway retries, left = retries + earlier.length ∧
      Transacts policy ctx body retries midway (call :: more) outcome final ∧
      env.store.Runs (Call.events requests earlier) midway.store ∧
      midway.store.table = (Call.reached env earlier).store.table := by
  induction earlier generalizing left env with
  | nil => exact ⟨env, left, rfl, h, .start, rfl⟩
  | cons first earlier ih =>
    rw [List.forall_mem_cons] at hrequests
    rw [List.cons_append] at h
    generalize hrest : earlier ++ call :: more = rest at h
    cases h with
    | failed | committed | refused => exact absurd hrest (by simp)
    | @again left _ _ _ _ _ _ store _ _ hstarts hvalue hcommit hconflict htrace =>
      subst hrest
      obtain ⟨midway, retries, hleft, hmidway, hruns, htable⟩ := ih htrace hrequests.2
      refine ⟨midway, retries, by rw [hleft]; rfl, hmidway, ?_, ?_⟩
      · have hfirst := hstarts.runs hrequests.1
        have hpaused := (hfirst.step (.fail hcommit)).step (.retry store)
        rw [List.append_nil, List.append_nil] at hpaused
        exact hpaused.trans hruns
      · rw [htable, Call.reached_cons]
        exact Call.table_reached (table_paused hcommit _) earlier

/-- No call: the context is done, or the store is closed. -/
theorem of_nil (h : Transacts policy ctx body left env [] outcome final) :
    final = env ∧ ∃ error, outcome = .error error ∧
      (ctx.check env.flags env.elapsed = .error error ∨ env.store.ensureOpen = .error error) := by
  cases h with
  | done h => exact ⟨rfl, _, rfl, .inl h⟩
  | closed live h => exact ⟨rfl, _, rfl, .inr h⟩

/-- A call: an attempt begins for it. -/
theorem starts (h : Transacts policy ctx body left env (call :: more) outcome final) :
    Starts ctx body env call := by
  cases h <;> assumption

/-- The operation fails: there are no more calls, and its attempt is aborted. -/
theorem of_failed (h : Transacts policy ctx body left env (call :: more) outcome final)
    {error : Error} (hfailed : call.outcome = .error error) :
    more = [] ∧ outcome = .error error ∧ final =
      if call.later.isActive then { call.after with store := call.after.store.countAborted }
      else call.after := by
  cases h with
  | failed _ hsame =>
    cases hfailed.symm.trans hsame
    exact ⟨rfl, rfl, rfl⟩
  | committed _ hvalue | refused _ hvalue | again _ hvalue => cases hfailed.symm.trans hvalue

/-- The commit succeeds: there are no more calls, and the result is the operation's. -/
theorem of_committed (h : Transacts policy ctx body left env (call :: more) outcome final)
    {value : α} {version : UInt64} {done : Attempt} {store : Store}
    (hvalue : call.outcome = .ok value)
    (hcommit : call.after.store.commit call.later = (.ok version, done, store)) :
    more = [] ∧ outcome = .ok value ∧ final = { call.after with store } := by
  cases h with
  | failed _ hfailed => cases hvalue.symm.trans hfailed
  | committed _ hsame hcommitted =>
    cases hvalue.symm.trans hsame
    cases hcommit.symm.trans hcommitted
    exact ⟨rfl, rfl, rfl⟩
  | refused _ _ hrefused | again _ _ hrefused => cases hcommit.symm.trans hrefused

/-- The commit fails: there are more calls exactly if it met a conflict, retries are
left and the context is not done after the pause. -/
theorem of_refused (h : Transacts policy ctx body left env (call :: more) outcome final)
    {value : α} {error : Error} {changed : Attempt} {store : Store}
    (hvalue : call.outcome = .ok value)
    (hcommit : call.after.store.commit call.later = (.error error, changed, store)) :
    (more ≠ [] ↔ error.isConflict = true ∧ 0 < left ∧ ctx.check call.after.flags
        (call.after.elapsed + policy.delay (policy.maxRetries - left)) = .ok ()) ∧
      (more = [] →
        outcome = .error error ∧ final = { call.after with store } ∨
        error.isConflict = true ∧ 0 < left ∧
          final = call.paused store (policy.delay (policy.maxRetries - left)) ∧
          ∃ reason, outcome = .error reason ∧
            ctx.check final.flags final.elapsed = .error reason) := by
  cases h with
  | failed _ hfailed => cases hvalue.symm.trans hfailed
  | committed _ _ hcommitted => cases hcommit.symm.trans hcommitted
  | refused _ _ hrefused hlast =>
    cases hcommit.symm.trans hrefused
    constructor
    · constructor
      · exact fun hmore => absurd rfl hmore
      · rintro ⟨hconflict, hleft, -⟩
        have hnone := hlast hconflict
        omega
    · exact fun _ => .inl ⟨rfl, rfl⟩
  | @again left _ _ _ _ _ _ store _ _ _ _ hagain hconflict hmore =>
    cases hcommit.symm.trans hagain
    cases more with
    | nil =>
      obtain ⟨rfl, reason, houtcome, hdone | hclosed⟩ := hmore.of_nil
      · constructor
        · constructor
          · exact fun hmore => absurd rfl hmore
          · rintro ⟨-, -, hlive⟩
            cases hlive.symm.trans hdone
        · exact fun _ => .inr ⟨hconflict, Nat.succ_pos left, rfl, reason, houtcome, hdone⟩
      · rw [Store.ensureOpen, open_of_conflict hcommit hconflict] at hclosed
        cases hclosed
    | cons next more =>
      constructor
      · exact ⟨fun _ => ⟨hconflict, Nat.succ_pos left, hmore.starts.live⟩, fun _ => by simp⟩
      · exact fun hnone => absurd hnone (by simp)

/-! ## The end -/

/-- After its last call a transaction that fails does nothing that others can tell. -/
theorem last_error {error : Error}
    (h : Transacts policy ctx body left env [call] (.error error) final) :
    call.after.store.Runs [] final.store ∧ final.store.table = call.after.store.table := by
  cases hcall : call.outcome with
  | error reason =>
    obtain ⟨-, -, rfl⟩ := h.of_failed hcall
    cases hactive : call.later.isActive with
    | false => exact ⟨.start, rfl⟩
    | true =>
      obtain ⟨aborted, habort⟩ := call.after.store.abort_active hactive reason.message
      exact ⟨(Store.Step.abort habort).runs, rfl⟩
  | ok value =>
    rcases hcommit : call.after.store.commit call.later with ⟨reason | version, changed, store⟩
    · have hfail : call.after.store.Runs [] store := (Store.Step.fail hcommit).runs
      have htable := table_paused hcommit
      rcases (h.of_refused hcall hcommit).2 rfl with ⟨-, rfl⟩ | ⟨-, -, rfl, -⟩
      · exact ⟨hfail, htable 0⟩
      · exact ⟨hfail.step (.retry store), htable _⟩
    · obtain ⟨-, houtcome, -⟩ := h.of_committed hcall hcommit
      cases houtcome

/-- The last call of a transaction that succeeds returns its result, and the commit
succeeds. -/
theorem last_ok {value : α}
    (h : Transacts policy ctx body left env [call] (.ok value) final) :
    call.outcome = .ok value ∧ ∃ version done,
      call.after.store.commit call.later = (.ok version, done, final.store) := by
  cases h with
  | committed _ hvalue hcommit => exact ⟨hvalue, _, _, hcommit⟩
  | again _ _ _ _ hmore =>
    obtain ⟨-, error, houtcome, -⟩ := hmore.of_nil
    cases houtcome

/-- Up to the end of its last call, what happened to the store is what the calls
did. -/
theorem runs {requests : Call υ α → List Event}
    (h : Transacts policy ctx body left env (earlier ++ [call]) outcome final)
    (hrequests : ∀ other ∈ earlier ++ [call],
      other.before.store.Runs (requests other) other.after.store) :
    env.store.Runs (Call.events requests (earlier ++ [call])) call.after.store := by
  rw [List.forall_mem_append, List.forall_mem_singleton] at hrequests
  obtain ⟨midway, retries, -, hlast, hruns, -⟩ := h.split hrequests.1
  rw [Call.events, List.flatMap_append, List.flatMap_singleton]
  exact hruns.trans (hlast.starts.runs hrequests.2)

/-- A transaction that fails: what happened to the store is what the calls did, and its
table is as they left it. -/
theorem of_error {requests : Call υ α → List Event} {error : Error}
    (h : Transacts policy ctx body left env calls (.error error) final)
    (hrequests : ∀ call ∈ calls, call.before.store.Runs (requests call) call.after.store) :
    env.store.Runs (Call.events requests calls) final.store ∧
      final.store.table = (Call.reached env calls).store.table := by
  rcases calls.eq_nil_or_concat' with rfl | ⟨earlier, call, rfl⟩
  · obtain ⟨rfl, -⟩ := h.of_nil
    exact ⟨.start, rfl⟩
  · have hruns := h.runs hrequests
    rw [List.forall_mem_append] at hrequests
    obtain ⟨midway, retries, -, hlast, -⟩ := h.split hrequests.1
    have hall := hruns.trans hlast.last_error.1
    rw [List.append_nil] at hall
    rw [Call.reached_append]
    exact ⟨hall, hlast.last_error.2⟩

/-- A transaction that succeeds: what happened to the store is what the calls did, and
then the commit of the last one. -/
theorem of_ok {requests : Call υ α → List Event} {value : α}
    (h : Transacts policy ctx body left env calls (.ok value) final)
    (hrequests : ∀ call ∈ calls, call.before.store.Runs (requests call) call.after.store) :
    ∃ earlier call version done, calls = earlier ++ [call] ∧ call.outcome = .ok value ∧
      call.after.store.commit call.later = (.ok version, done, final.store) ∧
      env.store.Runs (Call.events requests calls ++ [.committed call.later.writes])
        final.store := by
  rcases calls.eq_nil_or_concat' with rfl | ⟨earlier, call, rfl⟩
  · obtain ⟨-, error, houtcome, -⟩ := h.of_nil
    cases houtcome
  · have hruns := h.runs hrequests
    rw [List.forall_mem_append] at hrequests
    obtain ⟨midway, retries, -, hlast, -⟩ := h.split hrequests.1
    obtain ⟨hvalue, version, done, hcommit⟩ := hlast.last_ok
    exact ⟨earlier, call, version, done, rfl, hvalue, hcommit, hruns.step (.commit hcommit)⟩

end Transacts

/-! ## What is known of all calls -/

/-- A call of a transaction, where `events` happened to the store since the start of
the transaction, and earlier calls left it as `reached` says.  The context is not done
and the store is open, and the attempt is fresh: active, without reads and writes, and
with a number that no attempt had before. -/
structure Begins (ctx : Context) (env reached : Env υ) (events : List Event)
    (call : Call υ α) : Prop where
  live : ctx.check call.before.flags call.before.elapsed = .ok ()
  begins : ∃ store, env.store.Runs events store ∧ store.isOpen = true ∧
    store.begin = .ok (call.begun, call.before.store)
  fresh : call.begun = { id := call.begun.id }
  new : ∀ (start : Store) past, start.Runs past env.store →
    (Event.numbers (past ++ events)).length < UInt64.size →
      call.begun.id ∉ Event.numbers (past ++ events)
  table : call.before.store.table = reached.store.table

/-- What a transaction makes of its calls. -/
structure Account (policy : RetryPolicy) (ctx : Context) (body : TxOp υ α) (env : Env υ)
    (calls : List (Call υ α)) (requests : Call υ α → List Event) (outcome : Except Error α)
    (final : Env υ) : Prop where
  few : calls.length ≤ policy.maxRetries + 1
  ran : ∀ call ∈ calls,
    body.runIn call.begun call.before = (call.outcome, call.later, call.after)
  /-- The attempt of a call has the number that it began with, and can be committed. -/
  own : ∀ call ∈ calls, call.begun.Evolves call.later ∧ call.later.id = call.begun.id ∧
    call.later.status = .active
  requested : ∀ call ∈ calls, call.before.store.Runs (requests call) call.after.store
  begins : ∀ earlier call more, calls = earlier ++ call :: more →
    Begins ctx env (Call.reached env earlier) (Call.events requests earlier) call
  uncalled : calls = [] → final = env ∧ ∃ error, outcome = .error error ∧
    (ctx.check env.flags env.elapsed = .error error ∨ env.store.ensureOpen = .error error)
  /-- An error of the operation, whatever it is, is the outcome. -/
  failed : ∀ earlier call more error, calls = earlier ++ call :: more →
    call.outcome = .error error → more = [] ∧ outcome = .error error ∧
      final = { call.after with store := call.after.store.countAborted }
  /-- A commit that fails is followed by another call if it met a conflict, retries are
  left and the context is not done after the pause. -/
  refused : ∀ earlier call more value error changed store, calls = earlier ++ call :: more →
    call.outcome = .ok value →
    call.after.store.commit call.later = (.error error, changed, store) →
    (more ≠ [] ↔ error.isConflict = true ∧ earlier.length < policy.maxRetries ∧
      ctx.check call.after.flags (call.after.elapsed + policy.delay earlier.length) = .ok ()) ∧
    (more = [] → outcome = .error error ∨
      error.isConflict = true ∧ earlier.length < policy.maxRetries ∧ ∃ reason,
        outcome = .error reason ∧ ctx.check call.after.flags
          (call.after.elapsed + policy.delay earlier.length) = .error reason)
  /-- A commit that succeeds is the last one. -/
  committed : ∀ earlier call more value version done store, calls = earlier ++ call :: more →
    call.outcome = .ok value → call.after.store.commit call.later = (.ok version, done, store) →
      more = [] ∧ outcome = .ok value ∧ final = { call.after with store }
  ok_iff : ∀ value, outcome = .ok value ↔ ∃ earlier call version done store,
    calls = earlier ++ [call] ∧ call.outcome = .ok value ∧
      call.after.store.commit call.later = (.ok version, done, store)
  /-- The writes of the last attempt are applied, and no others. -/
  applied : ∀ value, outcome = .ok value → ∃ earlier call, calls = earlier ++ [call] ∧
    env.store.Runs (Call.events requests calls ++ [.committed call.later.writes]) final.store ∧
    call.after.store.documents.writeAll call.later.writes = .ok final.store.documents
  /-- No writes of attempts are applied. -/
  nothing : ∀ error, outcome = .error error →
    env.store.Runs (Call.events requests calls) final.store ∧
      final.store.table = (Call.reached env calls).store.table

section

variable {policy : RetryPolicy} {ctx : Context} {body : TxOp υ α} {left : Nat}
  {env final : Env υ} {calls : List (Call υ α)} {outcome : Except Error α}

/-- What a call returns and leaves is what the operation does. -/
theorem Transacts.ran (h : Transacts policy ctx body left env calls outcome final) :
    ∀ call ∈ calls, call = body.call call.begun call.before := by
  induction h with
  | done | closed => simp
  | failed h | committed h | refused h =>
    rw [List.forall_mem_singleton, h.call_eq]
    rfl
  | again h _ _ _ _ ih =>
    rw [List.forall_mem_cons]
    refine ⟨?_, ih⟩
    rw [h.call_eq]
    rfl

/-- An attempt that begins after some events. -/
theorem Starts.begins {reached midway : Env υ} {events : List Event} {call : Call υ α}
    (h : Starts ctx body midway call) (hevents : env.store.Runs events midway.store)
    (htable : midway.store.table = reached.store.table) : Begins ctx env reached events call := by
  rw [h.call_eq]
  constructor
  case live =>
    exact h.live
  case begins =>
    exact ⟨midway.store, hevents, h.opened, Store.begin_open h.opened⟩
  case fresh =>
    rfl
  case new =>
    intro start past hpast room
    exact (hpast.trans hevents).nextId_notMem room
  case table =>
    exact htable

/-- The account of a transaction. -/
theorem Transacts.account (hbody : body.Proper) {requests : Call υ α → List Event}
    (h : Transacts policy ctx body policy.maxRetries env calls outcome final)
    (hrequests : ∀ call ∈ calls, call.before.store.Runs (requests call) call.after.store) :
    Account policy ctx body env calls requests outcome final := by
  have hsplit : ∀ {earlier call more}, calls = earlier ++ call :: more →
      ∃ midway retries, policy.maxRetries = retries + earlier.length ∧
        Transacts policy ctx body retries midway (call :: more) outcome final ∧
        env.store.Runs (Call.events requests earlier) midway.store ∧
        midway.store.table = (Call.reached env earlier).store.table := by
    intro earlier call more heq
    subst heq
    exact h.split fun other hother => hrequests other (List.mem_append_left _ hother)
  have hbegins : ∀ earlier call more, calls = earlier ++ call :: more →
      Begins ctx env (Call.reached env earlier) (Call.events requests earlier) call := by
    intro earlier call more heq
    obtain ⟨midway, retries, -, hmidway, hruns, htable⟩ := hsplit heq
    exact hmidway.starts.begins hruns htable
  have hown : ∀ call ∈ calls, call.begun.Evolves call.later ∧ call.later.id = call.begun.id ∧
      call.later.status = .active := by
    intro call hcall
    obtain ⟨earlier, more, heq⟩ := List.append_of_mem hcall
    have hevolves := hbody.evolves call.begun call.before
    rw [h.ran call hcall]
    refine ⟨hevolves, hevolves.same.1, hevolves.same.2.trans ?_⟩
    rw [(hbegins earlier call more heq).fresh]
  constructor
  case few =>
    rcases calls.eq_nil_or_concat' with rfl | ⟨earlier, call, heq⟩
    · exact Nat.zero_le _
    · obtain ⟨midway, retries, hleft, -⟩ := hsplit heq
      rw [heq, List.length_append, List.length_singleton]
      omega
  case ran =>
    intro call hcall
    rw [h.ran call hcall]
    rfl
  case own =>
    exact hown
  case requested =>
    exact hrequests
  case begins =>
    exact hbegins
  case uncalled =>
    rintro rfl
    exact h.of_nil
  case failed =>
    intro earlier call more error heq herror
    obtain ⟨midway, retries, -, hmidway, -⟩ := hsplit heq
    obtain ⟨hmore, houtcome, hfinal⟩ := hmidway.of_failed herror
    have hactive : call.later.isActive = true := by
      rw [Attempt.isActive, (hown call (heq ▸ by simp)).2.2]
      rfl
    rw [hactive] at hfinal
    exact ⟨hmore, houtcome, hfinal⟩
  case refused =>
    intro earlier call more value error changed store heq hvalue hcommit
    obtain ⟨midway, retries, hleft, hmidway, -⟩ := hsplit heq
    obtain ⟨hmore, hlast⟩ := hmidway.of_refused hvalue hcommit
    have hretries : policy.maxRetries - retries = earlier.length := by omega
    have hroom : 0 < retries ↔ earlier.length < policy.maxRetries := by omega
    rw [hretries, hroom] at hmore hlast
    refine ⟨hmore, fun hnone => ?_⟩
    rcases hlast hnone with ⟨houtcome, -⟩ | ⟨hconflict, hless, rfl, reason, houtcome, hdone⟩
    · exact .inl houtcome
    · exact .inr ⟨hconflict, hless, reason, houtcome, hdone⟩
  case committed =>
    intro earlier call more value version done store heq hvalue hcommit
    obtain ⟨midway, retries, -, hmidway, -⟩ := hsplit heq
    exact hmidway.of_committed hvalue hcommit
  case ok_iff =>
    intro value
    constructor
    · rintro rfl
      obtain ⟨earlier, call, version, done, heq, hvalue, hcommit, -⟩ := h.of_ok hrequests
      exact ⟨earlier, call, version, done, _, heq, hvalue, hcommit⟩
    · rintro ⟨earlier, call, version, done, store, heq, hvalue, hcommit⟩
      obtain ⟨midway, retries, -, hmidway, -⟩ := hsplit heq
      exact (hmidway.of_committed hvalue hcommit).2.1
  case applied =>
    rintro value rfl
    obtain ⟨earlier, call, version, done, heq, -, hcommit, hruns⟩ := h.of_ok hrequests
    exact ⟨earlier, call, heq, hruns, Store.writeAll_of_commit hcommit⟩
  case nothing =>
    rintro error rfl
    exact h.of_error hrequests

/-- Whatever the operation does to the store, `Account` is the account of its
transaction, and the calls are those that the operation itself notes. -/
theorem transact_account {body : TxOp υ α} (h : body.Proper) (ctx : Context) (env : Env υ) :
    ∃ calls requests,
      (transact ctx body.noting).runIn (env.noted []) =
        (((transact ctx body).runIn env).1, ((transact ctx body).runIn env).2.noted calls) ∧
      Account env.store.retry ctx body env calls requests ((transact ctx body).runIn env).1
        ((transact ctx body).runIn env).2 := by
  obtain ⟨calls, htrace, hnoted⟩ :=
    transacts_noting env.store.retry ctx body env.store.retry.maxRetries env
  choose requests hrequests using h.drives
  refine ⟨calls, fun call => requests call.begun call.before, hnoted [], htrace.account h ?_⟩
  intro call hcall
  rw [htrace.ran call hcall]
  exact hrequests call.begun call.before

end

/-- What a pause does to the store is a request. -/
theorem Drives.pause (delay : Nat) : (Op.pause delay : Op υ Unit).Drives :=
  fun env => ⟨[], (Store.Step.retry env.store).runs⟩

/-- What a transaction does to the store is a sequence of requests. -/
theorem Drives.transact {body : TxOp υ α} (h : body.Proper) (ctx : Context) :
    (transact ctx body).Drives := by
  intro env
  obtain ⟨calls, htrace, -⟩ :=
    transacts_noting env.store.retry ctx body env.store.retry.maxRetries env
  choose requests hrequests using h.drives
  have hcalls : ∀ call ∈ calls,
      call.before.store.Runs (requests call.begun call.before) call.after.store := by
    intro call hcall
    rw [htrace.ran call hcall]
    exact hrequests call.begun call.before
  show ∃ events, env.store.Runs events
    ((transactWithin env.store.retry ctx body env.store.retry.maxRetries).runIn env).2.store
  rcases hrun : (transactWithin env.store.retry ctx body env.store.retry.maxRetries).runIn env with
    ⟨error | value, left⟩
  · rw [hrun] at htrace
    exact ⟨_, (htrace.of_error hcalls).1⟩
  · rw [hrun] at htrace
    obtain ⟨_, _, _, _, -, -, -, hruns⟩ := htrace.of_ok hcalls
    exact ⟨_, hruns⟩

/-! ## A transaction -/

/-- Makes a document known to be there, and says whether it was there.  If it was not,
then somebody else makes it before the commit. -/
def settle : TxOp Unit Bool := do
  let found ← TxOp.get Store.crate
  if found.isNone then TxOp.ofOp (Op.insert Store.crate {})
  TxOp.change (·.buffer Store.crate (.increment "Value" (.int 1)))
  return found.isSome

theorem proper_settle : settle.Proper := by
  apply (TxOp.Proper.get _).bind
  intro found
  have hrest : ∀ done : Unit, (do
      TxOp.change (·.buffer Store.crate (.increment "Value" (.int 1)))
      return found.isSome : TxOp Unit Bool).Proper :=
    fun _ => (TxOp.Proper.buffer _ _).bind fun _ => .pure _
  cases found with
  | none => exact (TxOp.Proper.ofOp (.insert _ _)).bind hrest
  | some document => exact hrest ()

/-- The first call meets a conflict, and the second one succeeds. -/
theorem transact_settle : ∃ calls requests final,
    (transact ⟨⟨0, none⟩, []⟩ settle.noting).runIn (Env.noted { user := () } []) =
      (.ok true, final.noted calls) ∧ calls.length = 2 ∧
    Account {} ⟨⟨0, none⟩, []⟩ settle { user := () } calls requests (.ok true) final := by
  obtain ⟨calls, requests, hnoted, haccount⟩ :=
    transact_account proper_settle ⟨⟨0, none⟩, []⟩ { user := () }
  have hok : ((transact ⟨⟨0, none⟩, []⟩ settle).runIn { user := () }).1 = .ok true := rfl
  have htwice : ((transact ⟨⟨0, none⟩, []⟩ settle.noting).runIn
      (Env.noted { user := () } [])).2.user.2.length = 2 := rfl
  rw [hok] at hnoted haccount
  rw [hnoted] at htwice
  exact ⟨calls, requests, _, hnoted, htwice, haccount⟩

end Op

end Shardwise
