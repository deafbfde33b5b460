import Mathlib.Logic.Function.Basic
import Shardwise.Store.Transact

/-!
# Sessions

A `Session` is a store with everything that its callers hold: the attempts that
they began, and the tokens that read phases handed them.  `Session.step` is what
one caller does next, and a run is any sequence of such steps, so that attempts
interleave in every order.

A transaction that is tried again shows here as several attempts: an attempt
whose commit meets a conflict, a pause, and a further attempt.

Two more fields are kept for statements only, and no step reads them to decide
anything: `drafts` holds the results of the write phases of every attempt, and
`log` holds those of the attempts that were committed, commit by commit.
-/

namespace Shardwise

/-- What a successful commit found, and the results of the write phases that it
made visible. -/
structure Commitment (ω : Type) where
  /-- The table just before the commit. -/
  before : Table
  entries : List ω

/-- Every commit of a log is in a relation to the commits before it. -/
def Along {ω : Type} (r : List (Commitment ω) → Commitment ω → Prop)
    (log : List (Commitment ω)) : Prop :=
  ∀ earlier commitment later, log = earlier ++ commitment :: later → r earlier commitment

@[simp] theorem along_nil {ω : Type} (r : List (Commitment ω) → Commitment ω → Prop) :
    Along r [] := by
  intro earlier commitment later h
  simp at h

theorem along_append {ω : Type} {r : List (Commitment ω) → Commitment ω → Prop}
    {log : List (Commitment ω)} {last : Commitment ω} :
    Along r (log ++ [last]) ↔ Along r log ∧ r log last := by
  constructor
  · intro h
    refine ⟨fun earlier commitment later heq => ?_, h log last [] rfl⟩
    exact h earlier commitment (later ++ [last]) (by rw [heq]; simp)
  · rintro ⟨h, hlast⟩ earlier commitment later heq
    rcases later.eq_nil_or_concat with rfl | ⟨more, other, rfl⟩
    · obtain ⟨rfl, hsame⟩ := List.append_inj' heq rfl
      cases hsame
      exact hlast
    · have hcut : log ++ [last] = (earlier ++ commitment :: more) ++ [other] := by
        rw [heq]
        simp
      obtain ⟨rfl, -⟩ := List.append_inj' hcut rfl
      exact h earlier commitment more rfl

/-- A store and what its callers hold.  Read phases leave tokens `τ`, and write
phases results `ω`. -/
structure Session (τ ω : Type) where
  env : Env Unit
  /-- The attempts that were begun, by their numbers. -/
  attempts : UInt64 → Option Attempt := fun _ => none
  /-- The tokens that were handed out. -/
  tokens : List τ := []
  /-- The results of the write phases of each attempt. -/
  drafts : UInt64 → List ω := fun _ => []
  /-- The commits that succeeded, the earliest first. -/
  log : List (Commitment ω) := []

/-- What a caller does next. -/
inductive Action (τ ω : Type) where
  | begin
  /-- A read phase inside an attempt. -/
  | read (id : UInt64) (phase : TxOp Unit τ)
  /-- A write phase inside an attempt. -/
  | write (id : UInt64) (phase : TxOp Unit ω)
  /-- Any other operation inside an attempt. -/
  | touch (id : UInt64) (op : TxOp Unit Unit)
  | commit (id : UInt64)
  | abort (id : UInt64) (reason : String)
  /-- An operation outside attempts. -/
  | request (op : Op Unit Unit)

namespace Session

variable {τ ω α : Type}

/-- The documents and numbers of the store. -/
def db (s : Session τ ω) : Database := s.env.store.database

/-- The committed documents. -/
def table (s : Session τ ω) : Table := s.env.store.table

/-- The results that were committed, in the order of the commits. -/
def committed (s : Session τ ω) : List ω := s.log.flatMap Commitment.entries

/-- The session with one attempt changed. -/
def setAttempt (s : Session τ ω) (id : UInt64) (attempt : Attempt) : Session τ ω :=
  { s with attempts := Function.update s.attempts id (some attempt) }

/-- Runs an operation inside an attempt, and lets `keep` put its result away.  An
operation that fails keeps what it changed before. -/
def inside (s : Session τ ω) (id : UInt64) (op : TxOp Unit α)
    (keep : α → Session τ ω → Session τ ω) : Session τ ω :=
  match s.attempts id with
  | none => s
  | some attempt =>
    match op.runIn attempt s.env with
    | (.ok result, attempt, env) => keep result ({ s with env }.setAttempt id attempt)
    | (.error _, attempt, env) => { s with env }.setAttempt id attempt

/-- Puts a token away. -/
def keepToken (token : τ) (s : Session τ ω) : Session τ ω :=
  { s with tokens := s.tokens ++ [token] }

/-- Puts the result of a write phase away. -/
def keepDraft (id : UInt64) (entry : ω) (s : Session τ ω) : Session τ ω :=
  { s with drafts := Function.update s.drafts id (s.drafts id ++ [entry]) }

/-- Begins an attempt. -/
def stepBegin (s : Session τ ω) : Session τ ω :=
  match Op.begin.runIn s.env with
  | (.ok attempt, env) =>
    { { s with env }.setAttempt attempt.id attempt with
      drafts := Function.update s.drafts attempt.id [] }
  | (.error _, env) => { s with env }

/-- Commits an attempt. -/
def stepCommit (s : Session τ ω) (id : UInt64) : Session τ ω :=
  match s.attempts id with
  | none => s
  | some attempt =>
    match (Op.commit attempt).runIn s.env with
    | (.ok (.ok _, attempt), env) =>
      { { s with env }.setAttempt id attempt with log := s.log ++ [⟨s.table, s.drafts id⟩] }
    | (.ok (.error _, attempt), env) => { s with env }.setAttempt id attempt
    | (.error _, env) => { s with env }

/-- Aborts an attempt. -/
def stepAbort (s : Session τ ω) (id : UInt64) (reason : String) : Session τ ω :=
  match s.attempts id with
  | none => s
  | some attempt =>
    match (Op.abort attempt reason).runIn s.env with
    | (.ok attempt, env) => { s with env }.setAttempt id attempt
    | (.error _, env) => { s with env }

/-- One step of a run. -/
def step (s : Session τ ω) : Action τ ω → Session τ ω
  | .begin => s.stepBegin
  | .read id phase => s.inside id phase keepToken
  | .write id phase => s.inside id phase (keepDraft id)
  | .touch id op => s.inside id op fun _ changed => changed
  | .commit id => s.stepCommit id
  | .abort id reason => s.stepAbort id reason
  | .request op => { s with env := (op.runIn s.env).2 }

/-- The state after some steps. -/
def run (s : Session τ ω) (actions : List (Action τ ω)) : Session τ ω := actions.foldl step s

/-- Nothing was done yet, and the store is empty. -/
def fresh : Session τ ω := { env := { user := () } }

/-- A context that is never done. -/
def live : Context := (Context.background {}).1

/-! ## What the parts of a step change -/

@[simp] theorem attempts_setAttempt (s : Session τ ω) (id other : UInt64) (attempt : Attempt) :
    (s.setAttempt id attempt).attempts other =
      if other = id then some attempt else s.attempts other := by
  simp [setAttempt, Function.update_apply]

@[simp] theorem drafts_setAttempt (s : Session τ ω) (id : UInt64) (attempt : Attempt) :
    (s.setAttempt id attempt).drafts = s.drafts := rfl

end Session

end Shardwise
