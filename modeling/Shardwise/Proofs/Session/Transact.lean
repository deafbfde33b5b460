import Shardwise.Proofs.Session.Protocol

/-!
# Transactions are runs

`Op.transact` begins an attempt, runs an operation in it and commits it, again and
again while commits meet conflicts.  All of this is a run of a session, so what is
known of runs is known of the operations that bring a transaction of their own.

* `Protocol.Stepwise` says that what an operation does inside an attempt can be
  done in steps, and `Stepwise.phases` that a read phase with its write phase can.
* `Protocol.Renders` says that an operation outside attempts is a run, and that
  what it returns is what the run committed.
* `Stepwise.renders_transact` puts attempts together to a transaction.
-/

namespace Shardwise

@[simp] theorem Op.runIn_discard {υ α : Type} (op : Op υ α) (env : Env υ) :
    (discard op).runIn env =
      match op.runIn env with
      | (.ok _, env) => (.ok (), env)
      | (.error error, env) => (.error error, env) :=
  runIn_map (fun _ => ()) op env

namespace Session

variable {τ ω α : Type}

theorem inside_ok {s : Session τ ω} {id : UInt64} {op : TxOp Unit α}
    {keep : α → Session τ ω → Session τ ω} {attempt later : Attempt} {left : Env Unit} {value : α}
    (hheld : s.attempts id = some attempt)
    (hrun : op.runIn attempt s.env = (.ok value, later, left)) :
    s.inside id op keep = keep value ({ s with env := left }.setAttempt id later) := by
  simp only [inside, hheld, hrun]

theorem inside_error {s : Session τ ω} {id : UInt64} {op : TxOp Unit α}
    {keep : α → Session τ ω → Session τ ω} {attempt later : Attempt} {left : Env Unit}
    {error : Error} (hheld : s.attempts id = some attempt)
    (hrun : op.runIn attempt s.env = (.error error, later, left)) :
    s.inside id op keep = { s with env := left }.setAttempt id later := by
  simp only [inside, hheld, hrun]

theorem step_abort {s : Session τ ω} {id : UInt64} {attempt : Attempt}
    (hheld : s.attempts id = some attempt) (reason : String) :
    (s.step (.abort id reason)).env = ((Op.abort attempt reason).runIn s.env).2 ∧
      (s.step (.abort id reason)).log = s.log := by
  simp only [step, stepAbort, hheld]
  rcases (Op.abort attempt reason).runIn s.env with ⟨error | later, left⟩ <;> exact ⟨rfl, rfl⟩

theorem step_commit {s : Session τ ω} {id : UInt64} {attempt : Attempt}
    (hheld : s.attempts id = some attempt) :
    (s.step (.commit id)).env = ((Op.commit attempt).runIn s.env).2 ∧
      (s.step (.commit id)).committed = s.committed ++
        match (s.env.store.commit attempt).1 with
        | .ok _ => s.drafts id
        | .error _ => [] := by
  simp only [step, stepCommit, hheld, Op.runIn_commit]
  rcases s.env.store.commit attempt with ⟨error | version, later, store⟩
  · exact ⟨rfl, (List.append_nil _).symm⟩
  · exact ⟨rfl, by simp [committed]⟩

theorem run_append (s : Session τ ω) (first second : List (Action τ ω)) :
    s.run (first ++ second) = (s.run first).run second := by
  simp [run]

end Session

namespace Protocol

variable {τ ω α : Type}

theorem Permits.append {p : Protocol τ ω} {s : Session τ ω} {first second : List (Action τ ω)}
    (hfirst : p.Permits s first) (hsecond : p.Permits (s.run first) second) :
    p.Permits s (first ++ second) := by
  induction first generalizing s with
  | nil => exact hsecond
  | cons action more ih => exact ⟨hfirst.1, ih hfirst.2 hsecond⟩

/-! ## Inside an attempt -/

/-- What an operation does inside an attempt is done in steps as well.  No write
phase ran in the attempt before, and the results of those that ran after it are as
`made` says of the result. -/
def Stepwise (p : Protocol τ ω) (op : TxOp Unit α) (made : α → List ω → Prop) : Prop :=
  ∀ (s : Session τ ω) id attempt, s.attempts id = some attempt → s.drafts id = [] →
    ∃ actions, p.Permits s actions ∧ (s.run actions).log = s.log ∧
      (s.run actions).env = (op.runIn attempt s.env).2.2 ∧
      (s.run actions).attempts id = some (op.runIn attempt s.env).2.1 ∧
      ∀ value, (op.runIn attempt s.env).1 = .ok value → made value ((s.run actions).drafts id)

/-- A write phase is a step. -/
theorem step_write {p : Protocol τ ω} {op : TxOp Unit α} {entry : α → ω} {s : Session τ ω}
    (hwrites : p.Writes s.tokens (entry <$> op)) {id : UInt64} {attempt : Attempt}
    (hheld : s.attempts id = some attempt) (hnone : s.drafts id = []) :
    p.Allows s (.write id (entry <$> op)) ∧
      (s.step (.write id (entry <$> op))).log = s.log ∧
      (s.step (.write id (entry <$> op))).env = (op.runIn attempt s.env).2.2 ∧
      (s.step (.write id (entry <$> op))).attempts id = some (op.runIn attempt s.env).2.1 ∧
      ∀ value, (op.runIn attempt s.env).1 = .ok value →
        (s.step (.write id (entry <$> op))).drafts id = [entry value] := by
  rcases hrun : op.runIn attempt s.env with ⟨error | value, later, left⟩
  · have hmapped : (entry <$> op).runIn attempt s.env = (.error error, later, left) := by
      rw [TxOp.runIn_map, hrun]
    have hstep : s.step (.write id (entry <$> op)) =
        { s with env := left }.setAttempt id later := Session.inside_error hheld hmapped
    refine ⟨.write id hwrites ?_, ?_⟩
    · simp [hstep, hnone]
    · rw [hstep]
      exact ⟨rfl, rfl, by simp, fun _ h => by cases h⟩
  · have hmapped : (entry <$> op).runIn attempt s.env = (.ok (entry value), later, left) := by
      rw [TxOp.runIn_map, hrun]
    have hstep : s.step (.write id (entry <$> op)) = Session.keepDraft id (entry value)
        ({ s with env := left }.setAttempt id later) := Session.inside_ok hheld hmapped
    have hdrafts : (s.step (.write id (entry <$> op))).drafts id = [entry value] := by
      simp [hstep, Session.keepDraft, hnone]
    refine ⟨.write id hwrites (by simp [hdrafts]), ?_, ?_, ?_, ?_⟩
    · rw [hstep]
      rfl
    · rw [hstep]
      rfl
    · simp [hstep, Session.keepDraft]
    · rintro _ ⟨⟩
      exact hdrafts

/-- An operation that is one write phase. -/
theorem Stepwise.write {p : Protocol τ ω} {op : TxOp Unit α} {entry : α → ω}
    (hwrites : ∀ tokens, p.Writes tokens (entry <$> op)) :
    p.Stepwise op fun value entries => entries = [entry value] := by
  intro s id attempt hheld hnone
  obtain ⟨hallowed, hlog, henv, hattempt, hdrafts⟩ := step_write (hwrites _) hheld hnone
  exact ⟨[.write id (entry <$> op)], ⟨hallowed, trivial⟩, hlog, henv, hattempt, hdrafts⟩

/-- A read phase, and the write phase with what it leaves.  Callers hold it as a
token. -/
theorem Stepwise.phases {p : Protocol τ ω} {β : Type} {read : TxOp Unit β} {hold : β → τ}
    {write : β → TxOp Unit α} {entry : β → α → ω} (hreads : p.Reads (hold <$> read))
    (hwrites : ∀ tokens pending, hold pending ∈ tokens →
      p.Writes tokens (entry pending <$> write pending)) :
    p.Stepwise (read >>= write) fun value entries =>
      ∃ pending, entries = [entry pending value] := by
  intro s id attempt hheld hnone
  rw [TxOp.runIn_bind]
  have hmapped := TxOp.runIn_map hold read attempt s.env
  rcases hrun : read.runIn attempt s.env with ⟨error | pending, later, left⟩
  all_goals rw [hrun] at hmapped
  · have hstep : s.step (.read id (hold <$> read)) = { s with env := left }.setAttempt id later :=
      Session.inside_error hheld hmapped
    refine ⟨[.read id (hold <$> read)], ⟨.read id hreads, trivial⟩, ?_⟩
    show (s.step (.read id (hold <$> read))).log = _ ∧
      (s.step (.read id (hold <$> read))).env = _ ∧
      (s.step (.read id (hold <$> read))).attempts id = _ ∧ _
    rw [hstep]
    exact ⟨rfl, rfl, by simp, fun _ h => by cases h⟩
  · have hstep : s.step (.read id (hold <$> read)) = Session.keepToken (hold pending)
        ({ s with env := left }.setAttempt id later) := Session.inside_ok hheld hmapped
    have hlater : (s.step (.read id (hold <$> read))).attempts id = some later := by
      simp [hstep, Session.keepToken]
    have hdrafts : (s.step (.read id (hold <$> read))).drafts id = [] := by
      rw [hstep]
      exact hnone
    have henv : (s.step (.read id (hold <$> read))).env = left := by rw [hstep]; rfl
    have hlog : (s.step (.read id (hold <$> read))).log = s.log := by rw [hstep]; rfl
    have htoken : hold pending ∈ (s.step (.read id (hold <$> read))).tokens := by
      simp [hstep, Session.keepToken]
    obtain ⟨hallowed, hlogged, hleft, hattempt, hmade⟩ :=
      step_write (hwrites _ pending htoken) hlater hdrafts
    rw [henv] at hleft hattempt hmade
    refine ⟨[.read id (hold <$> read), .write id (entry pending <$> write pending)],
      ⟨.read id hreads, hallowed, trivial⟩, hlogged.trans hlog, hleft, hattempt, ?_⟩
    exact fun value hvalue => ⟨pending, hmade value hvalue⟩

/-! ## Outside attempts -/

/-- An operation outside attempts is a run: it leaves what the run leaves, and the
run commits what `made` says of its outcome. -/
def Renders (p : Protocol τ ω) (op : Op Unit α) (made : Except Error α → List ω → Prop) : Prop :=
  ∀ s : Session τ ω, ∃ actions entries, p.Permits s actions ∧
    (s.run actions).env = (op.runIn s.env).2 ∧
    (s.run actions).committed = s.committed ++ entries ∧ made (op.runIn s.env).1 entries

theorem Renders.mono {p : Protocol τ ω} {op : Op Unit α}
    {made more : Except Error α → List ω → Prop} (h : p.Renders op made)
    (himp : ∀ outcome entries, made outcome entries → more outcome entries) :
    p.Renders op more := by
  intro s
  obtain ⟨actions, entries, hpermits, henv, hcommitted, hmade⟩ := h s
  exact ⟨actions, entries, hpermits, henv, hcommitted, himp _ _ hmade⟩

/-- An operation that changes nothing is a run of no steps. -/
theorem Renders.of_env_eq (p : Protocol τ ω) {op : Op Unit α}
    (h : ∀ env, (op.runIn env).2 = env) : p.Renders op fun _ entries => entries = [] := by
  intro s
  exact ⟨[], [], trivial, (h s.env).symm, (List.append_nil _).symm, rfl⟩

theorem Renders.pause (p : Protocol τ ω) (delay : Nat) :
    p.Renders (Op.pause delay) fun _ entries => entries = [] := by
  intro s
  exact ⟨[.request (Op.pause delay)], [], ⟨.pause delay, trivial⟩, rfl,
    (List.append_nil _).symm, rfl⟩

/-- One operation after another is one run after another. -/
theorem Renders.bind {p : Protocol τ ω} {β : Type} {op : Op Unit α} {next : α → Op Unit β}
    {first : Except Error α → List ω → Prop} {second : α → Except Error β → List ω → Prop}
    {made : Except Error β → List ω → Prop} (h : p.Renders op first)
    (hnext : ∀ value entries, first (.ok value) entries → p.Renders (next value) (second value))
    (herror : ∀ error entries, first (.error error) entries → made (.error error) entries)
    (hvalue : ∀ value outcome entries more, first (.ok value) entries →
      second value outcome more → made outcome (entries ++ more)) :
    p.Renders (op >>= next) made := by
  intro s
  obtain ⟨actions, entries, hpermits, henv, hcommitted, hfirst⟩ := h s
  rw [Op.runIn_bind]
  rcases hrun : op.runIn s.env with ⟨error | value, left⟩
  · rw [hrun] at henv hfirst
    exact ⟨actions, entries, hpermits, henv, hcommitted, herror error entries hfirst⟩
  · rw [hrun] at henv hfirst
    obtain ⟨steps, more, hmore, hleft, hlater, hsecond⟩ :=
      hnext value entries hfirst (s.run actions)
    rw [henv] at hleft hsecond
    refine ⟨actions ++ steps, entries ++ more, hpermits.append hmore, ?_, ?_,
      hvalue value _ entries more hfirst hsecond⟩
    · rw [Session.run_append]
      exact hleft
    · rw [Session.run_append, hlater, hcommitted, List.append_assoc]

/-- The outcome of a transaction: what was made is committed with a result, and
nothing is without. -/
def allOrNothing (made : α → List ω → Prop) : Except Error α → List ω → Prop
  | .ok value, entries => made value entries
  | .error _, entries => entries = []

/-- The outcome of one attempt, where a conflict is a result. -/
def allOrConflict (made : α → List ω → Prop) : Except Error (Except Error α) → List ω → Prop
  | .ok outcome, entries => allOrNothing made outcome entries
  | .error _, entries => entries = []

/-- The end of an attempt after its operation: a failed one aborts it, if it is
still active, and otherwise it is committed. -/
def closing (attempt : Attempt) : Except Error α → Op Unit (Except Error α)
  | .error error => do
    if attempt.isActive then discard (Op.abort attempt error.message)
    throw error
  | .ok value => do
    let (committed, _) ← Op.commit attempt
    match committed with
    | .ok _ => return .ok value
    | .error error => if error.isConflict then return .error error else throw error

theorem tryOnce_eq (ctx : Context) (op : TxOp Unit α) :
    Op.tryOnce ctx op = (do
      Op.check ctx
      let attempt ← Op.begin
      let (outcome, later) ← op.runOn attempt
      closing later outcome) := rfl

/-- The end of an attempt is a step. -/
theorem closing_steps (p : Protocol τ ω) (made : α → List ω → Prop) {s : Session τ ω}
    {id : UInt64} {attempt : Attempt} (hheld : s.attempts id = some attempt)
    {outcome : Except Error α} (hmade : ∀ value, outcome = .ok value → made value (s.drafts id)) :
    ∃ actions entries, p.Permits s actions ∧
      (s.run actions).env = ((closing attempt outcome).runIn s.env).2 ∧
      (s.run actions).committed = s.committed ++ entries ∧
      allOrConflict made ((closing attempt outcome).runIn s.env).1 entries := by
  cases outcome with
  | error error =>
    cases hactive : attempt.isActive with
    | false =>
      refine ⟨[], [], trivial, ?_, (List.append_nil _).symm, ?_⟩ <;>
        simp [closing, hactive, Session.run, allOrConflict]
    | true =>
      obtain ⟨hleft, hlog⟩ := Session.step_abort hheld error.message
      refine ⟨[.abort id error.message], [], ⟨.abort _ _, trivial⟩, hleft.trans ?_, ?_, ?_⟩
      · cases habort : s.env.store.abort attempt error.message <;>
          simp [closing, hactive, habort]
      · rw [List.append_nil]
        exact congrArg (List.flatMap Commitment.entries) hlog
      · cases habort : s.env.store.abort attempt error.message <;>
          simp [closing, hactive, habort, allOrConflict]
  | ok value =>
    obtain ⟨hleft, hcommitted⟩ := Session.step_commit hheld
    refine ⟨[.commit id], _, ⟨.commit _, trivial⟩, hleft.trans ?_, hcommitted, ?_⟩
    all_goals
      rcases hcommit : s.env.store.commit attempt with ⟨error | version, later, store⟩
    · cases hconflict : error.isConflict <;> simp [closing, hcommit, hconflict]
    · simp [closing, hcommit]
    · cases hconflict : error.isConflict <;>
        simp [closing, hcommit, hconflict, allOrConflict, allOrNothing]
    · simpa [closing, hcommit, allOrConflict, allOrNothing] using hmade value rfl

/-- An attempt that begins, runs an operation and commits. -/
theorem Stepwise.renders_tryOnce {p : Protocol τ ω} {op : TxOp Unit α}
    {made : α → List ω → Prop} (h : p.Stepwise op made) (ctx : Context) :
    p.Renders (Op.tryOnce ctx op) (allOrConflict made) := by
  intro s
  rw [tryOnce_eq, Op.runIn_bind, Op.runIn_check]
  cases ctx.check s.env.flags s.env.elapsed with
  | error error => exact ⟨[], [], trivial, rfl, (List.append_nil _).symm, rfl⟩
  | ok _ =>
    dsimp only
    rw [Op.runIn_bind, Op.runIn_begin]
    rcases hbegin : s.env.store.begin with error | ⟨attempt, store⟩
    · exact ⟨[], [], trivial, rfl, (List.append_nil _).symm, rfl⟩
    · dsimp only
      have hbegun : s.step .begin = { { s with env := { s.env with store } }.setAttempt
          attempt.id attempt with drafts := Function.update s.drafts attempt.id [] } := by
        simp only [Session.step, Session.stepBegin, Op.runIn_begin, hbegin]
      have hstart : (s.step .begin).env = { s.env with store } := by
        rw [hbegun]
        rfl
      obtain ⟨actions, hpermits, hlog, henv, hattempt, hmade⟩ :=
        h (s.step .begin) attempt.id attempt (by simp [hbegun]) (by simp [hbegun])
      obtain ⟨last, entries, hlast, hleft, hcommitted, hclosed⟩ :=
        closing_steps p made hattempt hmade
      rw [hstart] at henv hleft hclosed
      rw [henv] at hleft hclosed
      refine ⟨.begin :: (actions ++ last), entries, ⟨.begin, hpermits.append hlast⟩, ?_, ?_, ?_⟩
      · show ((s.step .begin).run (actions ++ last)).env = _
        rw [Session.run_append, hleft, Op.runIn_bind, TxOp.runIn_runOn]
      · show ((s.step .begin).run (actions ++ last)).committed = _
        rw [Session.run_append, hcommitted, Session.committed, hlog, hbegun]
        rfl
      · rw [Op.runIn_bind, TxOp.runIn_runOn]
        exact hclosed

/-- What follows an attempt with a result. -/
theorem Renders.of_result (p : Protocol τ ω) (value : α) :
    p.Renders (pure value) fun outcome entries => outcome = .ok value ∧ entries = [] := by
  intro s
  exact ⟨[], [], trivial, rfl, (List.append_nil _).symm, rfl, rfl⟩

/-- Conflicts are tried again, each time as another attempt of the run. -/
theorem Stepwise.renders_transactWithin {p : Protocol τ ω} {op : TxOp Unit α}
    {made : α → List ω → Prop} (h : p.Stepwise op made) (policy : RetryPolicy) (ctx : Context)
    (retries : Nat) :
    p.Renders (Op.transactWithin policy ctx op retries) (allOrNothing made) := by
  -- After a result nothing happens, and after a conflict the next attempts decide.
  let second : Except Error α → Except Error α → List ω → Prop
    | .ok value, outcome, more => outcome = .ok value ∧ more = []
    | .error _, outcome, more => allOrNothing made outcome more
  have hjoin : ∀ value outcome entries more, allOrConflict made (.ok value) entries →
      second value outcome more → allOrNothing made outcome (entries ++ more) := by
    rintro (error | value) outcome entries more hfirst hsecond
    · obtain rfl : entries = [] := hfirst
      exact hsecond
    · obtain ⟨rfl, rfl⟩ := hsecond
      rw [List.append_nil]
      exact hfirst
  induction retries with
  | zero =>
    refine (h.renders_tryOnce ctx).bind (fun value _ _ => ?_) (fun _ _ h => h) hjoin
    cases value with
    | ok value => exact .of_result p value
    | error conflict =>
      intro s
      exact ⟨[], [], trivial, rfl, (List.append_nil _).symm, rfl⟩
  | succ retries ih =>
    refine (h.renders_tryOnce ctx).bind (fun value _ _ => ?_) (fun _ _ h => h) hjoin
    cases value with
    | ok value => exact .of_result p value
    | error conflict =>
      refine (Renders.pause p _).bind (fun _ _ _ => ih) (fun _ _ h => h) ?_
      rintro _ outcome entries more rfl hmore
      exact hmore

/-- What is added to a store error does not matter to a run. -/
theorem Renders.withContext {p : Protocol τ ω} {op : Op Unit α}
    {made : Except Error α → List ω → Prop} (h : p.Renders op made)
    (herror : ∀ error other entries, made (.error error) entries → made (.error other) entries)
    (operation owner : String) (key : DocKey) :
    p.Renders (Op.withContext operation owner key op) made := by
  intro s
  obtain ⟨actions, entries, hpermits, henv, hcommitted, hmade⟩ := h s
  refine ⟨actions, entries, hpermits, henv, hcommitted, ?_⟩
  rcases hrun : op.runIn s.env with ⟨error | value, left⟩
  · rw [hrun] at hmade
    rw [Op.runIn_withContext, hrun]
    exact herror error _ entries hmade
  · rw [hrun] at hmade
    rw [Op.runIn_withContext, hrun]
    exact hmade

/-- A transaction is a run that commits what the operation makes, or nothing. -/
theorem Stepwise.renders_transact {p : Protocol τ ω} {op : TxOp Unit α}
    {made : α → List ω → Prop} (h : p.Stepwise op made) (ctx : Context) :
    p.Renders (Op.transact ctx op) (allOrNothing made) := by
  intro s
  exact h.renders_transactWithin s.env.store.retry ctx s.env.store.retry.maxRetries s

end Protocol

end Shardwise
