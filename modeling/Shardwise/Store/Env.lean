import Shardwise.Context
import Shardwise.Store.Basic

/-!
# Operations and what they see

An operation sees an `Env`: the store, the flags and the time by which contexts
are done, the clock that counters read, the shard choices still to be made, and
whatever its caller keeps.  An `Op` is an operation that may fail; what it changed
before it failed stays changed.  A `TxOp` is an operation inside an attempt, which
it may change too.

`Op.runIn` and `TxOp.runIn` give the outcome of an operation and what it leaves.
The lemmas `runIn_pure`, `runIn_throw` and `runIn_bind` say what they give for a
sequence of steps: the first step that fails is the last one.
-/

namespace Shardwise

/-- What operations see and change. -/
structure Env (υ : Type) where
  store : Store := {}
  /-- The flags of cancelled contexts. -/
  flags : Flags := {}
  /-- The time by which deadlines pass, in milliseconds. -/
  elapsed : Int := 0
  /-- The clock that is set by hand. -/
  manualClock : Instant := .epoch
  /-- The clock of the system. -/
  systemClock : Instant := .epoch
  /-- The random numbers still to be used. -/
  picks : List Nat := []
  /-- What the caller keeps. -/
  user : υ

/-- An operation that sees an environment and may fail. -/
abbrev Op (υ : Type) := ExceptT Error (StateM (Env υ))

/-- An operation inside an attempt. -/
abbrev TxOp (υ : Type) := ExceptT Error (StateM (Attempt × Env υ))

variable {υ α β : Type}

/-! ## Operations of an environment -/

namespace Op

/-- The outcome of an operation, and the environment that it leaves. -/
def runIn (op : Op υ α) (env : Env υ) : Except Error α × Env υ := op.run.run env

@[simp] theorem runIn_pure (value : α) (env : Env υ) :
    runIn (pure value) env = (.ok value, env) := rfl

@[simp] theorem runIn_throw (error : Error) (env : Env υ) :
    runIn (throw error : Op υ α) env = (.error error, env) := rfl

@[simp] theorem runIn_bind (op : Op υ α) (next : α → Op υ β) (env : Env υ) :
    (op >>= next).runIn env =
      match op.runIn env with
      | (.ok value, env) => (next value).runIn env
      | (.error error, env) => (.error error, env) := by
  simp only [runIn, ExceptT.run_bind, StateT.run_bind]
  rcases op.run.run env with ⟨outcome, left⟩
  cases outcome <;> rfl

@[simp] theorem runIn_map (f : α → β) (op : Op υ α) (env : Env υ) :
    (f <$> op).runIn env =
      match op.runIn env with
      | (.ok value, env) => (.ok (f value), env)
      | (.error error, env) => (.error error, env) := by
  simp only [runIn, ExceptT.run_map, StateT.run_map]
  rcases op.run.run env with ⟨outcome, left⟩
  cases outcome <;> rfl

/-- The environment. -/
def env : Op υ (Env υ) := ExceptT.mk fun env => (.ok env, env)

@[simp] theorem runIn_env (current : Env υ) : env.runIn current = (.ok current, current) := rfl

/-- Replaces the environment. -/
def setEnv (changed : Env υ) : Op υ Unit := ExceptT.mk fun _ => (.ok (), changed)

@[simp] theorem runIn_setEnv (changed current : Env υ) :
    (setEnv changed).runIn current = (.ok (), changed) := rfl

/-- Fails or succeeds as computed. -/
def ofExcept (outcome : Except Error α) : Op υ α := ExceptT.mk (pure outcome)

@[simp] theorem runIn_ofExcept (outcome : Except Error α) (env : Env υ) :
    (ofExcept outcome).runIn env = (outcome, env) := rfl

/-- Adds what is known to a store error. -/
def withContext (operation owner : String) (key : DocKey) (op : Op υ α) : Op υ α :=
  ExceptT.mk ((withStoreContext operation owner key ·) <$> op.run)

@[simp] theorem runIn_withContext (operation owner : String) (key : DocKey) (op : Op υ α)
    (env : Env υ) :
    (withContext operation owner key op).runIn env =
      (withStoreContext operation owner key (op.runIn env).1, (op.runIn env).2) := rfl

/-- Fails if a context is done. -/
def check (ctx : Context) : Op υ Unit := do
  let env ← env
  ofExcept (ctx.check env.flags env.elapsed)

@[simp] theorem runIn_check (ctx : Context) (env : Env υ) :
    (check ctx).runIn env = (ctx.check env.flags env.elapsed, env) := rfl

end Op

/-! ## Operations inside an attempt -/

namespace TxOp

/-- The outcome of an operation, and the attempt and the environment that it
leaves. -/
def runIn (op : TxOp υ α) (attempt : Attempt) (env : Env υ) :
    Except Error α × Attempt × Env υ :=
  op.run.run (attempt, env)

@[simp] theorem runIn_pure (value : α) (attempt : Attempt) (env : Env υ) :
    runIn (pure value) attempt env = (.ok value, attempt, env) := rfl

@[simp] theorem runIn_throw (error : Error) (attempt : Attempt) (env : Env υ) :
    runIn (throw error : TxOp υ α) attempt env = (.error error, attempt, env) := rfl

@[simp] theorem runIn_bind (op : TxOp υ α) (next : α → TxOp υ β) (attempt : Attempt)
    (env : Env υ) :
    (op >>= next).runIn attempt env =
      match op.runIn attempt env with
      | (.ok value, attempt, env) => (next value).runIn attempt env
      | (.error error, attempt, env) => (.error error, attempt, env) := by
  simp only [runIn, ExceptT.run_bind, StateT.run_bind]
  rcases op.run.run (attempt, env) with ⟨outcome, left⟩
  cases outcome <;> rfl

@[simp] theorem runIn_map (f : α → β) (op : TxOp υ α) (attempt : Attempt) (env : Env υ) :
    (f <$> op).runIn attempt env =
      match op.runIn attempt env with
      | (.ok value, attempt, env) => (.ok (f value), attempt, env)
      | (.error error, attempt, env) => (.error error, attempt, env) := by
  simp only [runIn, ExceptT.run_map, StateT.run_map]
  rcases op.run.run (attempt, env) with ⟨outcome, left⟩
  cases outcome <;> rfl

/-- The attempt. -/
def attempt : TxOp υ Attempt := ExceptT.mk fun (attempt, env) => (.ok attempt, attempt, env)

@[simp] theorem runIn_attempt (current : Attempt) (env : Env υ) :
    attempt.runIn current env = (.ok current, current, env) := rfl

/-- Replaces the attempt. -/
def setAttempt (changed : Attempt) : TxOp υ Unit :=
  ExceptT.mk fun (_, env) => (.ok (), changed, env)

@[simp] theorem runIn_setAttempt (changed attempt : Attempt) (env : Env υ) :
    (setAttempt changed).runIn attempt env = (.ok (), changed, env) := rfl

/-- Fails or succeeds as computed. -/
def ofExcept (outcome : Except Error α) : TxOp υ α := ExceptT.mk (pure outcome)

@[simp] theorem runIn_ofExcept (outcome : Except Error α) (attempt : Attempt) (env : Env υ) :
    (ofExcept outcome).runIn attempt env = (outcome, attempt, env) := rfl

/-- Adds what is known to a store error. -/
def withContext (operation owner : String) (key : DocKey) (op : TxOp υ α) : TxOp υ α :=
  ExceptT.mk ((withStoreContext operation owner key ·) <$> op.run)

@[simp] theorem runIn_withContext (operation owner : String) (key : DocKey) (op : TxOp υ α)
    (attempt : Attempt) (env : Env υ) :
    (withContext operation owner key op).runIn attempt env =
      (withStoreContext operation owner key (op.runIn attempt env).1,
        (op.runIn attempt env).2) := rfl

/-- Runs an operation of the environment. -/
def ofOp (op : Op υ α) : TxOp υ α :=
  ExceptT.mk fun (attempt, env) =>
    let (outcome, env) := op.runIn env
    (outcome, attempt, env)

@[simp] theorem runIn_ofOp (op : Op υ α) (attempt : Attempt) (env : Env υ) :
    (ofOp op).runIn attempt env = ((op.runIn env).1, attempt, (op.runIn env).2) := rfl

/-- The environment. -/
def env : TxOp υ (Env υ) := ofOp Op.env

@[simp] theorem runIn_env (attempt : Attempt) (current : Env υ) :
    env.runIn attempt current = (.ok current, attempt, current) := rfl

/-- Runs an operation inside an attempt, and returns its outcome and the attempt
that it leaves. -/
def runOn (op : TxOp υ α) (attempt : Attempt) : Op υ (Except Error α × Attempt) :=
  ExceptT.mk fun env =>
    let (outcome, attempt, env) := op.runIn attempt env
    (.ok (outcome, attempt), env)

@[simp] theorem runIn_runOn (op : TxOp υ α) (attempt : Attempt) (env : Env υ) :
    (op.runOn attempt).runIn env =
      (.ok ((op.runIn attempt env).1, (op.runIn attempt env).2.1),
        (op.runIn attempt env).2.2) := rfl

end TxOp

end Shardwise
