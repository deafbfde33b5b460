import Shardwise.Proofs.Isolation.Handles
import Shardwise.Proofs.Store.Retries

/-!
# Where tokens come from

A write phase takes the token of a read phase.  `Desk` is a store with everything that
its callers hold: the attempts that they began, and the tokens that read phases left,
each with the phase and the attempt that it is from.  A desk calls an attempt by its
turn, which is the number of attempts that began before it in the store, so that no
two attempts have the same name even if the word that numbers them starts over.

`Desk.Step` is what callers do next, in any order: begin, commit and abort attempts,
run phases and other operations inside them, and make requests outside.  The attempts
of a transaction are among them (`Desk.reaches_transact`), those of transactions that
handles run themselves included (`Desk.reaches_handles`).

* `Desk.Inv` is what every run keeps: the numbers of attempts tell their turns, and
  the stamps of tokens are those of the attempts that they are from.
* `Desk.Reaches.guarded` is what follows: write phases accept the tokens of their own
  attempt, handle and width and no others, and write all or nothing.
-/

namespace Shardwise

variable {α : Type}

/-! ## Checks -/

namespace ShardGroup

variable {υ : Type} {group : ShardGroup} {ctx : Context} {attempt : Attempt} {env : Env υ}

/-- What follows the check of a read phase succeeds only in an active attempt. -/
theorem active_of_checkRead {next : Unit → TxOp υ α} {value : α}
    (h : ((group.checkRead ctx >>= next).runIn attempt env).1 = .ok value) :
    attempt.status = .active := by
  rw [TxOp.runIn_bind] at h
  rcases group.checkRead_cases ctx attempt env with ⟨error, hrun⟩ | ⟨-, hactive, -⟩
  · rw [hrun] at h
    cases h
  · exact hactive

/-- So does what follows the check of a write phase. -/
theorem active_of_checkWrite {stamp : Stamp} {next : Unit → TxOp υ α} {value : α}
    (h : ((group.checkWrite ctx stamp >>= next).runIn attempt env).1 = .ok value) :
    attempt.status = .active := by
  rw [TxOp.runIn_bind] at h
  rcases group.checkWrite_cases ctx stamp attempt env with ⟨error, hrun⟩ | ⟨-, hactive, -⟩
  · rw [hrun] at h
    cases h
  · exact hactive

end ShardGroup

theorem Coder.width_of_codeRead {coder : Coder} {ctx : Context} {width : CodeWidth}
    {attempt later : Attempt} {env left : Env Unit} {pending : PendingCode}
    (h : (coder.codeRead ctx width).runIn attempt env = (.ok pending, later, left)) :
    pending.width = width := by
  unfold codeRead at h
  obtain ⟨number, _, _, -, hrest⟩ := TxOp.runIn_bind_eq_ok.mp h
  obtain ⟨code, _, _, -, hlast⟩ := TxOp.runIn_bind_eq_ok.mp hrest
  cases hlast
  rfl

theorem Coder.active_of_codeWrite {coder : Coder} {ctx : Context} {width : CodeWidth}
    {attempt : Attempt} {env : Env Unit} {pending : PendingCode} {code : String}
    (h : ((coder.codeWrite ctx pending width).runIn attempt env).1 = .ok code) :
    attempt.status = .active := by
  rcases coder.numberWrite_cases ctx pending.number attempt env with ⟨error, hrun⟩ | ⟨hrun, -⟩
  · rw [codeWrite] at h
    split at h
    · cases h
    · rw [TxOp.runIn_bind, TxOp.runIn_discard, hrun] at h
      cases h
  · exact ShardGroup.active_of_checkWrite (congrArg Prod.fst hrun)

/-- The run behind a result that was put into another form. -/
theorem TxOp.run_of_map_eq_ok {β : Type} {f : α → β} {op : TxOp Unit α} {attempt : Attempt}
    {env : Env Unit} {result : β} (h : ((f <$> op).runIn attempt env).1 = .ok result) :
    ∃ value later left, op.runIn attempt env = (.ok value, later, left) ∧ f value = result := by
  obtain ⟨value, hvalue, hresult⟩ := TxOp.exists_of_map_eq_ok h
  exact ⟨value, _, _, Prod.ext hvalue rfl, hresult⟩

/-! ## Phases -/

/-- A read phase. -/
inductive ReadPhase where
  | increment (counter : Counter) (ctx : Context)
  | number (coder : Coder) (ctx : Context)
  | code (coder : Coder) (ctx : Context) (width : CodeWidth)
  | serial (serial : Serial) (ctx : Context)

namespace ReadPhase

def op : ReadPhase → TxOp Unit Pending
  | .increment counter ctx => .increment <$> counter.incrementRead ctx
  | .number coder ctx => .number <$> coder.numberRead ctx
  | .code coder ctx width => .code <$> coder.codeRead ctx width
  | .serial source ctx => .serial <$> source.numberRead ctx

def handle : ReadPhase → Handle
  | .increment counter _ => .counter counter
  | .number coder _ | .code coder _ _ => .coder coder
  | .serial source _ => .serial source

theorem reads (phase : ReadPhase) : phase.handle.Reads phase.op := by
  cases phase with
  | increment counter ctx => exact .increment counter ctx
  | number coder ctx => exact .number coder ctx
  | code coder ctx width => exact .code coder ctx width
  | serial source ctx => exact .serial source ctx

theorem readsOnly (phase : ReadPhase) : phase.op.ReadsOnly := by
  cases phase with
  | increment counter ctx => exact (counter.readsOnly_incrementRead ctx).map _
  | number coder ctx => exact (coder.readsOnly_numberRead ctx).map _
  | code coder ctx width => exact (coder.readsOnly_codeRead ctx width).map _
  | serial source ctx => exact (source.readsOnly_numberRead ctx).map _

/-- What a read phase leaves in the attempt of a number: a token of its own kind, width
and levels, with its stamp. -/
def Leaves (id : UInt64) : ReadPhase → Pending → Prop
  | .increment counter _, .increment pending =>
    pending.stamp = ⟨id, counter.group.collection, counter.group.owner⟩ ∧
      pending.shards.map LevelShard.level =
        (if counter.dateHierarchy then [.hour, .day, .month, .year] else []) ++ [.total]
  | .number coder _, .number pending =>
    pending.stamp = ⟨id, coder.group.collection, coder.group.owner⟩
  | .code coder _ width, .code pending =>
    pending.number.stamp = ⟨id, coder.group.collection, coder.group.owner⟩ ∧
      pending.width = width
  | .serial source _, .serial pending =>
    pending.stamp = ⟨id, source.collection, source.owner⟩
  | _, _ => False

variable {phase : ReadPhase} {attempt : Attempt} {env : Env Unit} {token : Pending}

theorem active_of_ok (h : (phase.op.runIn attempt env).1 = .ok token) :
    attempt.status = .active := by
  cases phase with
  | increment counter ctx =>
    obtain ⟨pending, later, left, hrun, -⟩ := TxOp.run_of_map_eq_ok h
    exact ShardGroup.active_of_checkRead (congrArg Prod.fst hrun)
  | number coder ctx =>
    obtain ⟨pending, later, left, hrun, -⟩ := TxOp.run_of_map_eq_ok h
    exact ShardGroup.active_of_checkRead (congrArg Prod.fst hrun)
  | code coder ctx width =>
    obtain ⟨pending, later, left, hrun, -⟩ := TxOp.run_of_map_eq_ok h
    exact ShardGroup.active_of_checkRead (congrArg Prod.fst (Coder.codeRead_eq_ok hrun).1)
  | serial source ctx =>
    obtain ⟨pending, later, left, hrun, -⟩ := TxOp.run_of_map_eq_ok h
    exact ShardGroup.active_of_checkRead (congrArg Prod.fst hrun)

/-- A read phase fails in an attempt that holds writes. -/
theorem writes_of_ok (h : (phase.op.runIn attempt env).1 = .ok token) : attempt.writes = [] := by
  by_contra hwrites
  obtain ⟨⟨error, herror⟩, -⟩ := phase.reads.first attempt env hwrites
  cases h.symm.trans herror

theorem leaves_of_ok (h : (phase.op.runIn attempt env).1 = .ok token) :
    phase.Leaves attempt.id token := by
  cases phase with
  | increment counter ctx =>
    obtain ⟨pending, later, left, hrun, rfl⟩ := TxOp.run_of_map_eq_ok h
    have hid := ((counter.readsOnly_incrementRead ctx).reads hrun).id
    have hplaces := counter.map_observe env.store.table pending.time pending.index
    rw [← (Counter.incrementRead_eq hrun).2.2] at hplaces
    have hlevels := congrArg (List.map Prod.fst) hplaces
    rw [List.map_map, List.map_map] at hlevels
    constructor
    · rw [(Counter.incrementRead_eq_ok hrun).1, ShardGroup.stamp, hid]
    · refine Eq.trans hlevels ?_
      cases counter.dateHierarchy <;> rfl
  | number coder ctx =>
    obtain ⟨pending, later, left, hrun, rfl⟩ := TxOp.run_of_map_eq_ok h
    have hid := ((coder.readsOnly_numberRead ctx).reads hrun).id
    show pending.stamp = _
    rw [(Coder.numberRead_eq_ok hrun).1, ShardGroup.stamp, hid]
  | code coder ctx width =>
    obtain ⟨pending, later, left, hrun, rfl⟩ := TxOp.run_of_map_eq_ok h
    have hid := ((coder.readsOnly_codeRead ctx width).reads hrun).id
    constructor
    · rw [(Coder.numberRead_eq_ok (Coder.codeRead_eq_ok hrun).1).1, ShardGroup.stamp, hid]
    · exact Coder.width_of_codeRead hrun
  | serial source ctx =>
    obtain ⟨pending, later, left, hrun, rfl⟩ := TxOp.run_of_map_eq_ok h
    have hid := ((source.readsOnly_numberRead ctx).reads hrun).id
    show pending.stamp = _
    rw [(Serial.numberRead_eq_ok hrun).1, ShardGroup.stamp, hid]
    rfl

end ReadPhase

/-- A write phase with its token. -/
inductive WritePhase where
  | increment (counter : Counter) (ctx : Context) (pending : PendingIncrement) (value : Int64)
  | number (coder : Coder) (ctx : Context) (pending : PendingNumber)
  | code (coder : Coder) (ctx : Context) (pending : PendingCode) (width : CodeWidth)
  | serial (serial : Serial) (ctx : Context) (pending : PendingSerial)

namespace WritePhase

def op : WritePhase → TxOp Unit Receipt
  | .increment counter ctx pending value =>
    (fun _ => .done) <$> counter.incrementWrite ctx pending value
  | .number coder ctx pending => .number <$> coder.numberWrite ctx pending
  | .code coder ctx pending width => .code <$> coder.codeWrite ctx pending width
  | .serial source ctx pending => .number <$> source.numberWrite ctx pending

def token : WritePhase → Pending
  | .increment _ _ pending _ => .increment pending
  | .number _ _ pending => .number pending
  | .code _ _ pending _ => .code pending
  | .serial _ _ pending => .serial pending

def handle : WritePhase → Handle
  | .increment counter _ _ _ => .counter counter
  | .number coder _ _ | .code coder _ _ _ => .coder coder
  | .serial source _ _ => .serial source

/-- What the write phase writes: for an increment each document of the token in its
order, and else one document. -/
def writes : WritePhase → List (DocKey × Write)
  | .increment counter _ pending value => counter.incrementWrites pending value
  | .number coder _ pending | .code coder _ ⟨pending, _, _⟩ _ => coder.numberWrites pending
  | .serial source _ pending =>
    [(source.key, ShardGroup.shardWrite pending.present
      { owner := source.owner, value := .int 1 })]

/-- The read phase is of the same kind and names, and of the same width. -/
def Continues : WritePhase → ReadPhase → Prop
  | .increment writer _ _ _, .increment reader _ => reader.site.identity = writer.site.identity
  | .number writer _ _, .number reader _ => reader.site.identity = writer.site.identity
  | .code writer _ _ width, .code reader _ width' =>
    reader.site.identity = writer.site.identity ∧ width' = width
  | .serial writer _ _, .serial reader _ => reader.site.identity = writer.site.identity
  | _, _ => False

variable (phase : WritePhase) (attempt : Attempt) (env : Env Unit)

/-- What a write phase checks before it writes: its token has the stamp of its own
handle and attempt and its width, and the attempt is active. -/
structure Checked : Prop where
  active : attempt.status = .active
  stamp : phase.token.stamp = phase.handle.site.group.stamp attempt
  width : ∀ coder ctx pending width, phase = .code coder ctx pending width →
    pending.width = width

/-- A write phase fails and changes nothing, or it makes all of its writes. -/
theorem op_cases :
    (∃ error, phase.op.runIn attempt env = (.error error, attempt, env)) ∨
      ∃ receipt, phase.op.runIn attempt env =
          (.ok receipt, { attempt with writes := attempt.writes ++ phase.writes }, env) ∧
        phase.Checked attempt := by
  cases phase with
  | increment counter ctx pending value =>
    rw [op, TxOp.runIn_map]
    rcases counter.incrementWrite_cases ctx pending value attempt env with
      ⟨error, hrun⟩ | ⟨hrun, hstamp, -⟩
    · rw [hrun]
      exact .inl ⟨error, rfl⟩
    · have hactive := ShardGroup.active_of_checkWrite (congrArg Prod.fst hrun)
      rw [hrun]
      exact .inr ⟨_, rfl, hactive, hstamp, by simp⟩
  | number coder ctx pending =>
    rw [op, TxOp.runIn_map]
    rcases coder.numberWrite_cases ctx pending attempt env with ⟨error, hrun⟩ | ⟨hrun, hstamp⟩
    · rw [hrun]
      exact .inl ⟨error, rfl⟩
    · have hactive := ShardGroup.active_of_checkWrite (congrArg Prod.fst hrun)
      rw [hrun]
      exact .inr ⟨_, rfl, hactive, hstamp, by simp⟩
  | code coder ctx pending width =>
    rw [op, TxOp.runIn_map]
    rcases coder.codeWrite_cases ctx pending width attempt env with
      ⟨error, hrun⟩ | ⟨hrun, hstamp, hwidth⟩
    · rw [hrun]
      exact .inl ⟨error, rfl⟩
    · have hactive := Coder.active_of_codeWrite (congrArg Prod.fst hrun)
      rw [hrun]
      refine .inr ⟨_, rfl, hactive, hstamp, ?_⟩
      rintro _ _ _ _ ⟨⟩
      exact hwidth
  | serial source ctx pending =>
    rw [op, TxOp.runIn_map]
    rcases source.numberWrite_cases ctx pending attempt env with ⟨error, hrun⟩ | ⟨hrun, hstamp⟩
    · rw [hrun]
      exact .inl ⟨error, rfl⟩
    · have hactive := ShardGroup.active_of_checkWrite (congrArg Prod.fst hrun)
      rw [hrun]
      exact .inr ⟨_, rfl, hactive, hstamp, by simp⟩

end WritePhase

/-! ## Desks -/

/-- A token, with the read phase that left it and the turn of the attempt in which that
ran. -/
structure Issue where
  turn : Nat
  phase : ReadPhase
  token : Pending

/-- A store and what its callers hold. -/
structure Desk where
  env : Env Unit
  /-- The attempts that were begun, by their turns. -/
  attempts : Nat → Option Attempt := fun _ => none
  /-- The tokens that read phases left. -/
  issued : List Issue := []

namespace Desk

/-- A new store. -/
def opened (env : Env Unit) (policy : RetryPolicy) : Desk where
  env := { env with store := { retry := policy } }

/-- The number of attempts that began in the store. -/
def started (desk : Desk) : Nat := desk.env.store.stats.started

/-- The desk after something happened inside an attempt. -/
def setAttempt (desk : Desk) (turn : Nat) (attempt : Attempt) (env : Env Unit) : Desk :=
  { desk with env, attempts := Function.update desk.attempts turn (some attempt) }

/-- Keeps the token of a read phase that succeeded. -/
def keep (desk : Desk) (turn : Nat) (phase : ReadPhase) : Except Error Pending → Desk
  | .ok token => { desk with issued := desk.issued ++ [⟨turn, phase, token⟩] }
  | .error _ => desk

theorem attempts_setAttempt (desk : Desk) (turn other : Nat) (attempt : Attempt)
    (env : Env Unit) : (desk.setAttempt turn attempt env).attempts other =
      if other = turn then some attempt else desk.attempts other :=
  Function.update_apply ..

/-- What callers do next. -/
inductive Step (desk : Desk) : Desk → Prop
  | begin {attempt : Attempt} {store : Store} (h : desk.env.store.begin = .ok (attempt, store)) :
      Step desk (desk.setAttempt desk.started attempt { desk.env with store })
  | read {turn : Nat} {attempt later : Attempt} {env : Env Unit} {outcome : Except Error Pending}
      (phase : ReadPhase) (hheld : desk.attempts turn = some attempt)
      (h : phase.op.runIn attempt desk.env = (outcome, later, env)) :
      Step desk ((desk.setAttempt turn later env).keep turn phase outcome)
  | write {turn : Nat} {attempt later : Attempt} {env : Env Unit} {outcome : Except Error Receipt}
      (phase : WritePhase) (hheld : desk.attempts turn = some attempt)
      (h : phase.op.runIn attempt desk.env = (outcome, later, env)) :
      Step desk (desk.setAttempt turn later env)
  /-- Any other operation inside an attempt.  It may make requests as well. -/
  | inside {α : Type} {op : TxOp Unit α} {turn : Nat} {attempt later : Attempt} {env : Env Unit}
      {outcome : Except Error α} (hop : op.Proper) (hheld : desk.attempts turn = some attempt)
      (h : op.runIn attempt desk.env = (outcome, later, env)) :
      Step desk (desk.setAttempt turn later env)
  | commit {turn : Nat} {attempt later : Attempt} {outcome : Except Error UInt64} {store : Store}
      (hheld : desk.attempts turn = some attempt)
      (h : desk.env.store.commit attempt = (outcome, later, store)) :
      Step desk (desk.setAttempt turn later { desk.env with store })
  | abort {turn : Nat} {attempt later : Attempt} {reason : String} {store : Store}
      (hheld : desk.attempts turn = some attempt)
      (h : desk.env.store.abort attempt reason = .ok (later, store)) :
      Step desk (desk.setAttempt turn later { desk.env with store })
  /-- An operation outside attempts.  Clocks may move meanwhile, and contexts may be
  cancelled. -/
  | request {α : Type} {op : Op Unit α} (hop : op.Drives) :
      Step desk { desk with env := (op.runIn desk.env).2 }

/-- The desks that runs lead to. -/
inductive Reaches (start : Desk) : Desk → Prop
  | start : Reaches start start
  | step {desk left : Desk} (before : Reaches start desk) (next : desk.Step left) :
      Reaches start left

theorem Reaches.trans {start midway desk : Desk} (h : start.Reaches midway)
    (h' : midway.Reaches desk) : start.Reaches desk := by
  induction h' with
  | start => exact h
  | step _ next ih => exact ih.step next

/-! ## Transactions -/

/-- What the operation does inside an attempt is a run.  It may run phases, do other
things inside its attempt, and make requests, one after the other. -/
def Plays (body : TxOp Unit α) : Prop :=
  ∀ (desk : Desk) turn attempt, desk.attempts turn = some attempt →
    ∃ later, desk.Reaches later ∧ later.env = (body.runIn attempt desk.env).2.2 ∧
      later.attempts turn = some (body.runIn attempt desk.env).2.1

namespace Plays

theorem read (phase : ReadPhase) : Plays phase.op := by
  intro desk turn attempt hheld
  rcases hrun : phase.op.runIn attempt desk.env with ⟨outcome, later, env⟩
  have hattempts := attempts_setAttempt desk turn turn later env
  rw [if_pos rfl] at hattempts
  refine ⟨_, Desk.Reaches.start.step (.read phase hheld hrun), ?_, ?_⟩
  · cases outcome <;> rfl
  · cases outcome <;> exact hattempts

theorem write (phase : WritePhase) : Plays phase.op := by
  intro desk turn attempt hheld
  rcases hrun : phase.op.runIn attempt desk.env with ⟨outcome, later, env⟩
  refine ⟨_, Desk.Reaches.start.step (.write phase hheld hrun), rfl, ?_⟩
  rw [attempts_setAttempt, if_pos rfl]

theorem of_proper {body : TxOp Unit α} (h : body.Proper) : Plays body := by
  intro desk turn attempt hheld
  rcases hrun : body.runIn attempt desk.env with ⟨outcome, later, env⟩
  refine ⟨_, Desk.Reaches.start.step (.inside h hheld hrun), rfl, ?_⟩
  rw [attempts_setAttempt, if_pos rfl]

theorem bind {β : Type} {body : TxOp Unit α} {next : α → TxOp Unit β} (h : Plays body)
    (hnext : ∀ value, Plays (next value)) : Plays (body >>= next) := by
  intro desk turn attempt hheld
  obtain ⟨midway, hmidway, henv, hattempt⟩ := h desk turn attempt hheld
  rw [TxOp.runIn_bind]
  rcases hrun : body.runIn attempt desk.env with ⟨error | value, between, env⟩
  · rw [hrun] at henv hattempt
    exact ⟨midway, hmidway, henv, hattempt⟩
  · rw [hrun] at henv hattempt
    obtain ⟨later, hlater, hleft⟩ := hnext value midway turn between hattempt
    rw [henv] at hleft
    exact ⟨later, hmidway.trans hlater, hleft⟩

/-- The form of the result does not matter. -/
theorem of_map {β : Type} {f : α → β} {body : TxOp Unit α} (h : Plays (f <$> body)) :
    Plays body := by
  intro desk turn attempt hheld
  obtain ⟨later, hlater, hleft⟩ := h desk turn attempt hheld
  refine ⟨later, hlater, ?_⟩
  rw [TxOp.runIn_map] at hleft
  rcases hrun : body.runIn attempt desk.env with ⟨error | value, between, env⟩
  · rw [hrun] at hleft
    exact hleft
  · rw [hrun] at hleft
    exact hleft

/-- A read phase and then the write phase of its token. -/
theorem phases {σ β : Type} {source : TxOp Unit σ} {sink : σ → TxOp Unit β}
    {token : σ → Pending} {receipt : β → Receipt} (reader : ReadPhase)
    (hread : reader.op = token <$> source) (writer : σ → WritePhase)
    (hwrite : ∀ pending, (writer pending).op = receipt <$> sink pending) :
    Plays (source >>= sink) := by
  apply bind
  · apply of_map
    rw [← hread]
    exact .read reader
  · intro pending
    apply of_map
    rw [← hwrite pending]
    exact .write (writer pending)

end Plays

/-- A call of a transaction: its attempt begins, and what the operation does is a
run. -/
theorem Plays.call {body : TxOp Unit α} (hbody : Plays body) {ctx : Context} {desk : Desk}
    {call : Call Unit α} (h : Op.Starts ctx body desk.env call) :
    (∃ midway turn, desk.Reaches midway ∧ midway.env = call.before ∧
        midway.attempts turn = some call.begun) ∧
      ∃ later turn, desk.Reaches later ∧ later.env = call.after ∧
        later.attempts turn = some call.later := by
  obtain ⟨-, hopen, rfl⟩ := h
  have hbegin := Desk.Reaches.start.step (Step.begin (Store.begin_open hopen))
  have hheld : (desk.setAttempt desk.started { id := desk.env.store.database.nextId }
      { desk.env with store := desk.env.store.begun }).attempts desk.started =
        some { id := desk.env.store.database.nextId } := by
    rw [attempts_setAttempt, if_pos rfl]
  obtain ⟨later, hlater, henv, hattempt⟩ := hbody _ _ _ hheld
  exact ⟨⟨_, _, hbegin, rfl, hheld⟩, later, _, hbegin.trans hlater, henv, hattempt⟩

/-- The calls of a transaction are made at desks of a run. -/
theorem reaches_of_transacts {policy : RetryPolicy} {ctx : Context} {body : TxOp Unit α}
    (hbody : Plays body) {left : Nat} {env final : Env Unit} {calls : List (Call Unit α)}
    {outcome : Except Error α} (h : Op.Transacts policy ctx body left env calls outcome final)
    {desk : Desk} (henv : desk.env = env) :
    (∃ later, desk.Reaches later ∧ later.env = final) ∧
      ∀ call ∈ calls, ∃ midway turn, desk.Reaches midway ∧ midway.env = call.before ∧
        midway.attempts turn = some call.begun := by
  induction h generalizing desk with
  | done | closed => exact ⟨⟨desk, .start, henv⟩, by simp⟩
  | @failed _ _ call error h hfailed =>
    obtain ⟨hbegins, later, turn, hlater, hafter, hheld⟩ := hbody.call (henv ▸ h)
    refine ⟨?_, List.forall_mem_singleton.mpr hbegins⟩
    cases hactive : call.later.isActive with
    | false => exact ⟨later, hlater, hafter⟩
    | true =>
      obtain ⟨aborted, habort⟩ := later.env.store.abort_active hactive error.message
      refine ⟨_, hlater.step (.abort hheld habort), ?_⟩
      rw [← hafter]
      rfl
  | committed h _ hcommit | refused h _ hcommit =>
    obtain ⟨hbegins, later, turn, hlater, hafter, hheld⟩ := hbody.call (henv ▸ h)
    refine ⟨⟨_, hlater.step (.commit hheld (hafter ▸ hcommit)), ?_⟩,
      List.forall_mem_singleton.mpr hbegins⟩
    rw [← hafter]
    rfl
  | @again left _ _ call _ _ _ store _ _ h _ hcommit _ _ ih =>
    obtain ⟨hbegins, later, turn, hlater, hafter, hheld⟩ := hbody.call (henv ▸ h)
    have hcommitted := hlater.step (.commit hheld (hafter ▸ hcommit))
    obtain ⟨paused, hpaused, hsame⟩ : ∃ paused, desk.Reaches paused ∧
        paused.env = call.paused store (policy.delay (policy.maxRetries - (left + 1))) := by
      refine ⟨_, hcommitted.step (.request
        (Op.Drives.pause (policy.delay (policy.maxRetries - (left + 1))))), ?_⟩
      rw [Call.paused, ← hafter]
      rfl
    obtain ⟨⟨last, hlast, hfinal⟩, hcalls⟩ := ih hsame
    refine ⟨⟨last, hpaused.trans hlast, hfinal⟩, List.forall_mem_cons.mpr ⟨hbegins, ?_⟩⟩
    intro other hother
    obtain ⟨midway, turn, hmidway, hbefore⟩ := hcalls other hother
    exact ⟨midway, turn, hpaused.trans hmidway, hbefore⟩

/-- What an operation outside attempts does is a run. -/
def Follows (desk : Desk) (op : Op Unit α) : Prop :=
  ∃ left, desk.Reaches left ∧ left.env = (op.runIn desk.env).2

/-- A transaction is a run, and each of its calls is made at a desk that holds its
attempt. -/
theorem reaches_transact {body : TxOp Unit α} (hbody : Plays body) (desk : Desk)
    (ctx : Context) :
    desk.Follows (Op.transact ctx body) ∧ ∃ calls,
      (Op.transact ctx body.noting).runIn (desk.env.noted []) =
        (((Op.transact ctx body).runIn desk.env).1,
          ((Op.transact ctx body).runIn desk.env).2.noted calls) ∧
      ∀ call ∈ calls, ∃ midway turn, desk.Reaches midway ∧ midway.env = call.before ∧
        midway.attempts turn = some call.begun := by
  obtain ⟨calls, htrace, hnoted⟩ := Op.transacts_noting desk.env.store.retry ctx body
    desk.env.store.retry.maxRetries desk.env
  obtain ⟨hleft, hcalls⟩ := reaches_of_transacts hbody htrace rfl
  exact ⟨hleft, calls, hnoted [], hcalls⟩

/-- So is what handles reserve in transactions of their own. -/
theorem reaches_handles (desk : Desk) (ctx : Context) :
    (∀ (counter : Counter) (value : Int64), desk.Follows (counter.increment ctx value)) ∧
      (∀ coder : Coder, desk.Follows (coder.number ctx)) ∧
      (∀ (coder : Coder) (width : CodeWidth), desk.Follows (coder.code ctx width)) ∧
      ∀ serial : Serial, desk.Follows (serial.next ctx) := by
  refine ⟨fun counter value => ?_, fun coder => ?_, fun coder width => ?_, fun serial => ?_⟩
  · exact (reaches_transact (Plays.phases (.increment counter ctx) rfl
      (fun pending => .increment counter ctx pending value) fun _ => rfl) desk ctx).1
  · exact (reaches_transact (Plays.phases (.number coder ctx) rfl
      (fun pending => .number coder ctx pending) fun _ => rfl) desk ctx).1
  · exact (reaches_transact (Plays.phases (.code coder ctx width) rfl
      (fun pending => .code coder ctx pending width) fun _ => rfl) desk ctx).1
  · exact (reaches_transact (Plays.phases (.serial serial ctx) rfl
      (fun pending => .serial serial ctx pending) fun _ => rfl) desk ctx).1

/-! ## What runs keep -/

/-- The numbers of attempts tell their turns, and so do the stamps of tokens. -/
structure Inv (desk : Desk) : Prop where
  next : desk.env.store.database.nextId = 1 + UInt64.ofNat desk.started
  held : ∀ turn attempt, desk.attempts turn = some attempt →
    turn < desk.started ∧ attempt.id = 1 + UInt64.ofNat turn
  issued : ∀ issue ∈ desk.issued, issue.turn < desk.started ∧
    issue.phase.Leaves (1 + UInt64.ofNat issue.turn) issue.token

variable {desk left : Desk}

/-- Requests go on with the numbers. -/
theorem Inv.of_runs (h : desk.Inv) {env : Env Unit} {events : List Event}
    (hruns : desk.env.store.Runs events env.store) : Inv { desk with env } := by
  obtain ⟨hstarted, hnext, -⟩ := hruns.numbered
  have hmore : desk.started ≤ started { desk with env } := by
    rw [started, started, hstarted]
    exact Nat.le_add_right _ _
  constructor
  case next =>
    rw [hnext, h.next, started, started, hstarted, UInt64.ofNat_add, UInt64.add_assoc]
  case held =>
    intro turn attempt hheld
    obtain ⟨hturn, hid⟩ := h.held turn attempt hheld
    exact ⟨Nat.lt_of_lt_of_le hturn hmore, hid⟩
  case issued =>
    intro issue hissue
    obtain ⟨hturn, hleaves⟩ := h.issued issue hissue
    exact ⟨Nat.lt_of_lt_of_le hturn hmore, hleaves⟩

/-- An attempt of some turn has the number that tells it. -/
theorem Inv.hold {env : Env Unit} (h : Inv { desk with env }) {turn : Nat} {attempt : Attempt}
    (hturn : turn < env.store.stats.started) (hid : attempt.id = 1 + UInt64.ofNat turn) :
    (desk.setAttempt turn attempt env).Inv := by
  refine ⟨h.next, ?_, h.issued⟩
  intro other held hother
  rw [attempts_setAttempt] at hother
  split at hother
  · rename_i heq
    cases hother
    rw [heq]
    exact ⟨hturn, hid⟩
  · exact h.held other held hother

/-- An attempt keeps its number, whatever happens in it. -/
theorem Inv.setAttempt (h : desk.Inv) {turn : Nat} {attempt later : Attempt} {env : Env Unit}
    {events : List Event} (hheld : desk.attempts turn = some attempt)
    (hid : later.id = attempt.id) (hruns : desk.env.store.Runs events env.store) :
    (desk.setAttempt turn later env).Inv := by
  have hmoved := h.of_runs hruns
  obtain ⟨hturn, hsame⟩ := hmoved.held turn attempt hheld
  exact hmoved.hold hturn (hid.trans hsame)

/-- A token that a read phase leaves has the stamp of its attempt. -/
theorem Inv.keep (h : desk.Inv) {turn : Nat} {phase : ReadPhase} {outcome : Except Error Pending}
    (hleaves : ∀ token, outcome = .ok token →
      turn < desk.started ∧ phase.Leaves (1 + UInt64.ofNat turn) token) :
    (desk.keep turn phase outcome).Inv := by
  cases outcome with
  | error error => exact h
  | ok token =>
    refine ⟨h.next, h.held, ?_⟩
    rw [Desk.keep, List.forall_mem_append, List.forall_mem_singleton]
    exact ⟨h.issued, hleaves token rfl⟩

/-- One step keeps the invariant. -/
theorem Inv.step (h : desk.Inv) (hstep : desk.Step left) : left.Inv := by
  cases hstep with
  | @begin attempt store hbegin =>
    have hruns := (Store.Step.begin hbegin).runs
    obtain ⟨-, rfl, rfl⟩ := Store.begin_eq_ok hbegin
    have hmoved : Inv { desk with env := { desk.env with store := desk.env.store.begun } } :=
      h.of_runs hruns
    exact hmoved.hold (Nat.lt_succ_self desk.started) h.next
  | @read turn attempt later env outcome phase hheld hrun =>
    have hstore := phase.readsOnly.store_eq hrun
    have hid := (phase.readsOnly.reads hrun).id
    have hruns : desk.env.store.Runs [] env.store := by
      rw [hstore]
      exact .start
    have hkept : (desk.setAttempt turn later env).Inv := h.setAttempt hheld hid hruns
    obtain ⟨hturn, hsame⟩ := h.held turn attempt hheld
    refine hkept.keep fun token houtcome => ?_
    have hok : (phase.op.runIn attempt desk.env).1 = .ok token := by rw [hrun, houtcome]
    rw [← hsame]
    refine ⟨?_, ReadPhase.leaves_of_ok hok⟩
    show turn < env.store.stats.started
    rw [hstore]
    exact hturn
  | @write turn attempt later env outcome phase hheld hrun =>
    rcases phase.op_cases attempt desk.env with ⟨error, hcase⟩ | ⟨receipt, hcase, -⟩
    · cases hcase.symm.trans hrun
      exact h.setAttempt hheld rfl .start
    · cases hcase.symm.trans hrun
      exact h.setAttempt hheld rfl .start
  | @inside _ op turn attempt later env outcome hop hheld hrun =>
    have hevolves := hop.evolves attempt desk.env
    obtain ⟨events, hruns⟩ := hop.drives attempt desk.env
    rw [hrun] at hevolves hruns
    exact h.setAttempt hheld hevolves.same.1 hruns
  | @commit turn attempt later outcome store hheld hcommit =>
    have hid : later.id = attempt.id := by
      rcases desk.env.store.commit_cases attempt with
        ⟨_, _, _, hfailed, -, rfl | ⟨reason, rfl⟩⟩ | ⟨_, _, hdone, -⟩
      · cases hfailed.symm.trans hcommit
        rfl
      · cases hfailed.symm.trans hcommit
        rfl
      · cases hdone.symm.trans hcommit
        rfl
    cases outcome with
    | error error => exact h.setAttempt hheld hid (Store.Step.fail hcommit).runs
    | ok version => exact h.setAttempt hheld hid (Store.Step.commit hcommit).runs
  | @abort turn attempt later reason store hheld habort =>
    have hid : later.id = attempt.id := by
      rcases desk.env.store.abort_cases attempt reason with ⟨error, hfailed⟩ | ⟨_, hdone, -⟩
      · cases hfailed.symm.trans habort
      · cases hdone.symm.trans habort
        rfl
    exact h.setAttempt hheld hid (Store.Step.abort habort).runs
  | request hop =>
    obtain ⟨events, hruns⟩ := hop desk.env
    exact h.of_runs hruns

/-- Every run keeps it. -/
theorem Reaches.inv {env : Env Unit} {policy : RetryPolicy}
    (h : (opened env policy).Reaches desk) : desk.Inv := by
  induction h with
  | start =>
    refine ⟨rfl, ?_, ?_⟩
    · intro turn attempt hheld
      cases hheld
    · intro issue hissue
      cases hissue
  | step _ next ih => exact ih.step next

/-! ## What follows for phases -/

/-- What phases do at a desk. -/
structure Guarded (desk : Desk) : Prop where
  /-- A write phase that succeeds continues the read phase that its token is from.  Both
  ran in the same attempt, as long as the word that numbers attempts lasts, and it takes
  operations. -/
  accepted : ∀ turn attempt, desk.attempts turn = some attempt → ∀ phase : WritePhase,
    ∀ issue ∈ desk.issued, issue.token = phase.token → ∀ receipt,
      (phase.op.runIn attempt desk.env).1 = .ok receipt →
        attempt.status = .active ∧ phase.Continues issue.phase ∧
          UInt64.ofNat issue.turn = UInt64.ofNat turn ∧
          (desk.started ≤ UInt64.size → issue.turn = turn)
  /-- Other tokens are rejected. -/
  rejected : ∀ turn attempt, desk.attempts turn = some attempt → ∀ phase : WritePhase,
    ∀ issue ∈ desk.issued, issue.token = phase.token →
      ¬ phase.Continues issue.phase ∨ issue.turn ≠ turn ∧ desk.started ≤ UInt64.size →
        ∃ error, phase.op.runIn attempt desk.env = (.error error, attempt, desk.env)
  /-- A write phase makes all of its writes, or none. -/
  written : ∀ (phase : WritePhase) attempt,
    (∃ error, phase.op.runIn attempt desk.env = (.error error, attempt, desk.env)) ∨
      ∃ receipt, phase.op.runIn attempt desk.env =
        (.ok receipt, { attempt with writes := attempt.writes ++ phase.writes }, desk.env)
  /-- The token of an increment has one document for each level, finest level first. -/
  levels : ∀ issue ∈ desk.issued, ∀ counter ctx, issue.phase = .increment counter ctx →
    ∃ pending, issue.token = .increment pending ∧ pending.shards.map LevelShard.level =
      (if counter.dateHierarchy then [.hour, .day, .month, .year] else []) ++ [.total]
  /-- A read phase writes nothing, and fails in an attempt that holds writes or takes no
  operations. -/
  read : ∀ (phase : ReadPhase) attempt,
    (phase.op.runIn attempt desk.env).2.1.writes = attempt.writes ∧
      (phase.op.runIn attempt desk.env).2.1.status = attempt.status ∧
      (attempt.writes ≠ [] ∨ attempt.status ≠ .active →
        ∃ error, (phase.op.runIn attempt desk.env).1 = .error error)

/-- Stamps tell attempt and names. -/
theorem identity_of_stamp (reader : Site) {writer : Site} {id : UInt64} {attempt : Attempt}
    {stamp : Stamp}
    (hleft : stamp = ⟨id, reader.group.collection, reader.group.owner⟩)
    (h : stamp = writer.group.stamp attempt) :
    reader.identity = writer.identity ∧ id = attempt.id := by
  obtain ⟨hid, hcollection, howner⟩ := Stamp.mk.inj (hleft.symm.trans h)
  exact ⟨Prod.ext hcollection howner, hid⟩

/-- A write phase that passes its checks continues the read phase that left its
token. -/
theorem continues_of_leaves {phase : WritePhase} {source : ReadPhase} {id : UInt64}
    {attempt : Attempt} (hleaves : source.Leaves id phase.token) (h : phase.Checked attempt) :
    phase.Continues source ∧ id = attempt.id := by
  cases source with
  | increment reader ctx =>
    cases phase with
    | increment writer ctx' pending value =>
      exact identity_of_stamp reader.site hleaves.1 h.stamp
    | number | code | serial => exact hleaves.elim
  | number reader ctx =>
    cases phase with
    | number writer ctx' pending =>
      exact identity_of_stamp reader.site hleaves h.stamp
    | increment | code | serial => exact hleaves.elim
  | code reader ctx width =>
    cases phase with
    | code writer ctx' pending width' =>
      have hwidth := h.width writer ctx' pending width' rfl
      obtain ⟨hidentity, hid⟩ := identity_of_stamp reader.site hleaves.1 h.stamp
      exact ⟨⟨hidentity, hleaves.2.symm.trans hwidth⟩, hid⟩
    | increment | number | serial => exact hleaves.elim
  | serial reader ctx =>
    cases phase with
    | serial writer ctx' pending =>
      exact identity_of_stamp reader.site hleaves h.stamp
    | increment | number | code => exact hleaves.elim

/-- Whatever callers do, phases are guarded. -/
theorem Reaches.guarded {env : Env Unit} {policy : RetryPolicy}
    (h : (opened env policy).Reaches desk) : desk.Guarded := by
  have hinv := h.inv
  have haccepted : ∀ turn attempt, desk.attempts turn = some attempt → ∀ phase : WritePhase,
      ∀ issue ∈ desk.issued, issue.token = phase.token → phase.Checked attempt →
        phase.Continues issue.phase ∧ UInt64.ofNat issue.turn = UInt64.ofNat turn ∧
          (desk.started ≤ UInt64.size → issue.turn = turn) := by
    intro turn attempt hheld phase issue hissue htoken hchecked
    obtain ⟨hturn, hid⟩ := hinv.held turn attempt hheld
    obtain ⟨hissued, hleaves⟩ := hinv.issued issue hissue
    rw [htoken] at hleaves
    obtain ⟨hcontinues, hsame⟩ := continues_of_leaves hleaves hchecked
    rw [hid, UInt64.add_right_inj] at hsame
    refine ⟨hcontinues, hsame, fun room => ?_⟩
    have hnat := congrArg UInt64.toNat hsame
    rwa [UInt64.toNat_ofNat_of_lt' (Nat.lt_of_lt_of_le hissued room),
      UInt64.toNat_ofNat_of_lt' (Nat.lt_of_lt_of_le hturn room)] at hnat
  constructor
  case accepted =>
    intro turn attempt hheld phase issue hissue htoken receipt hok
    rcases phase.op_cases attempt desk.env with ⟨error, hcase⟩ | ⟨_, -, hchecked⟩
    · rw [hcase] at hok
      cases hok
    · exact ⟨hchecked.active, haccepted turn attempt hheld phase issue hissue htoken hchecked⟩
  case rejected =>
    intro turn attempt hheld phase issue hissue htoken hother
    rcases phase.op_cases attempt desk.env with hrejected | ⟨_, -, hchecked⟩
    · exact hrejected
    · obtain ⟨hcontinues, -, hturn⟩ :=
        haccepted turn attempt hheld phase issue hissue htoken hchecked
      rcases hother with hnot | ⟨hne, room⟩
      · exact absurd hcontinues hnot
      · exact absurd (hturn room) hne
  case written =>
    intro phase attempt
    rcases phase.op_cases attempt desk.env with hfailed | ⟨receipt, hcase, -⟩
    · exact .inl hfailed
    · exact .inr ⟨receipt, hcase⟩
  case levels =>
    intro issue hissue counter ctx hphase
    obtain ⟨-, hleaves⟩ := hinv.issued issue hissue
    rw [hphase] at hleaves
    cases htoken : issue.token with
    | increment pending =>
      rw [htoken] at hleaves
      exact ⟨pending, rfl, hleaves.2⟩
    | number | code | serial =>
      rw [htoken] at hleaves
      exact hleaves.elim
  case read =>
    intro phase attempt
    have hreads := (phase.readsOnly attempt desk.env).2
    refine ⟨hreads.writes, hreads.status, fun hbad => ?_⟩
    cases hrun : (phase.op.runIn attempt desk.env).1 with
    | error error => exact ⟨error, rfl⟩
    | ok token =>
      rcases hbad with hwrites | hactive
      · exact absurd (ReadPhase.writes_of_ok hrun) hwrites
      · exact absurd (ReadPhase.active_of_ok hrun) hactive

/-! ## A run -/

/-- A serial. -/
def tickets : Serial := { collection := "serials", owner := "ticket" }

/-- Two attempts begin, and the read phase of a serial runs in the first one.  Its token
is good for that attempt only. -/
theorem guarded_tickets : ∃ desk attempt other issue pending,
    (opened { user := () } {}).Reaches desk ∧ desk.Guarded ∧
      desk.attempts 0 = some attempt ∧ desk.attempts 1 = some other ∧
      issue ∈ desk.issued ∧ issue.token = .serial pending ∧
      ((WritePhase.serial tickets Session.live pending).op.runIn attempt desk.env).1 =
        .ok (.number 1) ∧
      ∃ error, (WritePhase.serial tickets Session.live pending).op.runIn other desk.env =
        (.error error, other, desk.env) := by
  let first := (opened { user := () } {}).setAttempt 0 { id := 1 }
    { user := (), store := ({} : Store).begun }
  let second := first.setAttempt 1 { id := 2 }
    { user := (), store := ({} : Store).begun.begun }
  have hsecond : (opened { user := () } {}).Reaches second :=
    (Desk.Reaches.start.step (.begin rfl)).step (.begin rfl)
  obtain ⟨pending, later, env, hread⟩ : ∃ pending later env,
      (ReadPhase.serial tickets Session.live).op.runIn { id := 1 } second.env =
        (.ok (.serial pending), later, env) := ⟨_, _, _, rfl⟩
  have hheld : second.attempts 0 = some { id := 1 } := rfl
  have hreaches := hsecond.step (.read (.serial tickets Session.live) hheld hread)
  have hguarded := Reaches.guarded hreaches
  refine ⟨_, later, { id := 2 }, ⟨0, .serial tickets Session.live, .serial pending⟩, pending,
    hreaches, hguarded, rfl, rfl, List.mem_singleton_self _, rfl, ?_, ?_⟩
  · cases hread
    rfl
  · exact hguarded.rejected 1 { id := 2 } rfl (.serial tickets Session.live pending)
      ⟨0, .serial tickets Session.live, .serial pending⟩ (List.mem_singleton_self _) rfl
      (.inr ⟨Nat.zero_ne_one, by cases hread; decide⟩)

end Desk

end Shardwise
