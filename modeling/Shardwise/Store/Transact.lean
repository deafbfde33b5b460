import Shardwise.Store.Request

/-!
# Transactions

`transact` runs an operation inside an attempt of its own and commits it.  When
the commit meets a conflict the operation runs again, inside a fresh attempt,
after a delay and as often as the retry policy allows.  An error of the operation
itself aborts the attempt and ends the transaction, whatever the error is.

Between a conflict and the next attempt nothing but time passes here.  What others do
during a transaction comes in through the operation itself, which may do it in any of its
attempts, or by way of a run in which the attempts are steps of their own.
-/

namespace Shardwise

variable {υ α : Type}

namespace Op

/-- Commits an attempt, and returns the outcome and the attempt that is left. -/
def commit (attempt : Attempt) : Op υ (Except Error UInt64 × Attempt) := do
  let env ← env
  let (outcome, attempt, store) := env.store.commit attempt
  setEnv { env with store }
  return (outcome, attempt)

@[simp] theorem runIn_commit (attempt : Attempt) (env : Env υ) :
    (commit attempt).runIn env =
      match env.store.commit attempt with
      | (outcome, attempt, store) => (.ok (outcome, attempt), { env with store }) := rfl

/-- Aborts an attempt, and returns the attempt that is left. -/
def abort (attempt : Attempt) (reason : String) : Op υ Attempt := do
  let env ← env
  let (attempt, store) ← ofExcept (env.store.abort attempt reason)
  setEnv { env with store }
  return attempt

@[simp] theorem runIn_abort (attempt : Attempt) (reason : String) (env : Env υ) :
    (abort attempt reason).runIn env =
      match env.store.abort attempt reason with
      | .ok (attempt, store) => (.ok attempt, { env with store })
      | .error error => (.error error, env) := by
  rcases h : env.store.abort attempt reason with error | ⟨aborted, store⟩ <;> simp [abort, h]

/-- Counts a retry and waits before it.  Nobody else acts in the meantime. -/
def pause (delay : Nat) : Op υ Unit := do
  let env ← env
  setEnv { env with store := env.store.countRetried, elapsed := env.elapsed + delay }

@[simp] theorem runIn_pause (delay : Nat) (env : Env υ) :
    (pause delay).runIn env =
      (.ok (), { env with store := env.store.countRetried, elapsed := env.elapsed + delay }) :=
  rfl

/-- Runs an operation inside a fresh attempt and commits it.  The result is the
operation's, or the conflict that the commit met. -/
def tryOnce (ctx : Context) (body : TxOp υ α) : Op υ (Except Error α) := do
  check ctx
  let attempt ← begin
  let (outcome, attempt) ← body.runOn attempt
  match outcome with
  | .error error =>
    if attempt.isActive then discard (abort attempt error.message)
    throw error
  | .ok value =>
    let (committed, _) ← commit attempt
    match committed with
    | .ok _ => return .ok value
    | .error error => if error.isConflict then return .error error else throw error

/-- Runs an operation as a transaction, with `left` retries left after the next
attempt.  The next attempt finds the store as the conflict left it, but for the count of
retries. -/
def transactWithin (policy : RetryPolicy) (ctx : Context) (body : TxOp υ α) : Nat → Op υ α
  | 0 => do
    match ← tryOnce ctx body with
    | .ok value => return value
    | .error conflict => throw conflict
  | left + 1 => do
    match ← tryOnce ctx body with
    | .ok value => return value
    | .error _ =>
      pause (policy.delay (policy.maxRetries - (left + 1)))
      transactWithin policy ctx body left

/-- Runs an operation as a transaction under the retry policy of the store. -/
def transact (ctx : Context) (body : TxOp υ α) : Op υ α := do
  let policy := (← env).store.retry
  transactWithin policy ctx body policy.maxRetries

end Op

end Shardwise
