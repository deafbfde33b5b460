import Shardwise.Proofs.Shards.Provenance
import Shardwise.Proofs.Store.Refusals

/-!
# Errands

An `Errand` is what a caller asks of a handle outside attempts.  It is run with a
context, as the read phases and the write phases inside attempts are.

Wherever they check it, all of them check the context before they touch the store or
the attempt: some look at the names of the handle before, one at the width of a code,
and those that are transactions leave the check to the store.  `Context.Idle` says
for each of them, and for the requests to the store, what follows for a context that
is done, and `Context.Done.idle` that it holds in every state.
-/

namespace Shardwise

variable {υ α β : Type}

/-! ## What is asked of handles -/

/-- What callers ask of a handle outside attempts. -/
inductive Errand : Type → Type where
  | increment (counter : Counter) (value : Int64) : Errand Unit
  | countAll (counter : Counter) : Errand Float
  | detailPeriod (counter : Counter) (level : Level) (since before : Instant) :
      Errand Counter.PeriodSums
  | countPeriod (counter : Counter) (level : Level) (since before : Instant) : Errand Float
  | number (coder : Coder) : Errand UInt64
  | code (coder : Coder) (width : CodeWidth) : Errand String
  | next (serial : Serial) : Errand UInt64
  | clear (serial : Serial) : Errand Unit
  | delete (handle : Handle) : Errand Bool
  | shardsCount (handle : Handle) : Errand Nat

/-- Removes all documents of a handle. -/
def Handle.delete (ctx : Context) : Handle → Op Unit Bool
  | .counter c => c.delete ctx
  | .coder c => c.delete ctx
  | .serial s => s.delete ctx

namespace Errand

def op (ctx : Context) : Errand α → Op Unit α
  | .increment counter value => counter.increment ctx value
  | .countAll counter => counter.countAll ctx
  | .detailPeriod counter level since before => counter.detailPeriod ctx level since before
  | .countPeriod counter level since before => counter.countPeriod ctx level since before
  | .number coder => coder.number ctx
  | .code coder width => coder.code ctx width
  | .next source => source.next ctx
  | .clear source => source.clear ctx
  | .delete handle => handle.delete ctx
  | .shardsCount handle => handle.site.group.shardsCount ctx

def handle : Errand α → Handle
  | .increment counter _ | .countAll counter | .detailPeriod counter _ _ _
  | .countPeriod counter _ _ _ => .counter counter
  | .number coder | .code coder _ => .coder coder
  | .next source | .clear source => .serial source
  | .delete handle | .shardsCount handle => handle

end Errand

/-- The errands are all operations of handles. -/
theorem Handle.offers_iff {handle : Handle} {op : Op Unit α} :
    handle.Offers op ↔ ∃ (errand : Errand α) (ctx : Context),
      errand.handle = handle ∧ errand.op ctx = op := by
  constructor
  · intro h
    cases h with
    | increment counter ctx value => exact ⟨.increment counter value, ctx, rfl, rfl⟩
    | countAll counter ctx => exact ⟨.countAll counter, ctx, rfl, rfl⟩
    | detailPeriod counter ctx level since before =>
      exact ⟨.detailPeriod counter level since before, ctx, rfl, rfl⟩
    | countPeriod counter ctx level since before =>
      exact ⟨.countPeriod counter level since before, ctx, rfl, rfl⟩
    | deleteCounter counter ctx => exact ⟨.delete (.counter counter), ctx, rfl, rfl⟩
    | number coder ctx => exact ⟨.number coder, ctx, rfl, rfl⟩
    | code coder ctx width => exact ⟨.code coder width, ctx, rfl, rfl⟩
    | deleteCoder coder ctx => exact ⟨.delete (.coder coder), ctx, rfl, rfl⟩
    | next source ctx => exact ⟨.next source, ctx, rfl, rfl⟩
    | clear source ctx => exact ⟨.clear source, ctx, rfl, rfl⟩
    | deleteSerial source ctx => exact ⟨.delete (.serial source), ctx, rfl, rfl⟩
    | shardsCount handle ctx => exact ⟨.shardsCount handle, ctx, rfl, rfl⟩
  · rintro ⟨errand, ctx, rfl, rfl⟩
    cases errand with
    | increment counter value => exact .increment counter ctx value
    | countAll counter => exact .countAll counter ctx
    | detailPeriod counter level since before => exact .detailPeriod counter ctx level since before
    | countPeriod counter level since before => exact .countPeriod counter ctx level since before
    | number coder => exact .number coder ctx
    | code coder width => exact .code coder ctx width
    | next source => exact .next source ctx
    | clear source => exact .clear source ctx
    | delete handle =>
      cases handle with
      | counter counter => exact .deleteCounter counter ctx
      | coder coder => exact .deleteCoder coder ctx
      | serial source => exact .deleteSerial source ctx
    | shardsCount handle => exact .shardsCount handle ctx

/-- The context of a read phase. -/
def ReadPhase.ctx : ReadPhase → Context
  | .increment _ ctx | .number _ ctx | .code _ ctx _ | .serial _ ctx => ctx

/-- The context of a write phase. -/
def WritePhase.ctx : WritePhase → Context
  | .increment _ ctx _ _ | .number _ ctx _ | .code _ ctx _ _ | .serial _ ctx _ => ctx

/-- A write phase of a code asks for the width of its token. -/
def WritePhase.Fitting : WritePhase → Prop
  | .code _ _ pending width => pending.width = width
  | .increment .. | .number .. | .serial .. => True

/-! ## Operations that decline -/

/-- The operation fails with one of some errors and changes nothing. -/
def Op.Declines (op : Op υ α) (env : Env υ) (errors : Error → Prop) : Prop :=
  ∃ error, op.runIn env = (.error error, env) ∧ errors error

/-- The operation fails with one of some errors and changes neither the attempt nor
anything else. -/
def TxOp.Declines (op : TxOp υ α) (attempt : Attempt) (env : Env υ) (errors : Error → Prop) :
    Prop :=
  ∃ error, op.runIn attempt env = (.error error, attempt, env) ∧ errors error

section

variable {env : Env υ} {attempt : Attempt} {errors : Error → Prop}

theorem Op.Declines.bind {op : Op υ α} (h : op.Declines env errors) (next : α → Op υ β) :
    (op >>= next).Declines env errors := by
  obtain ⟨error, hrun, herror⟩ := h
  refine ⟨error, ?_, herror⟩
  rw [runIn_bind, hrun]

theorem TxOp.Declines.bind {op : TxOp υ α} (h : op.Declines attempt env errors)
    (next : α → TxOp υ β) : (op >>= next).Declines attempt env errors := by
  obtain ⟨error, hrun, herror⟩ := h
  refine ⟨error, ?_, herror⟩
  rw [runIn_bind, hrun]

theorem TxOp.Declines.map {op : TxOp υ α} (h : op.Declines attempt env errors) (f : α → β) :
    (f <$> op).Declines attempt env errors := by
  obtain ⟨error, hrun, herror⟩ := h
  refine ⟨error, ?_, herror⟩
  rw [runIn_map, hrun]

end

namespace ShardGroup

/-- The error with which a group answers a context that is done: a usable one gives the
reason of the context. -/
def Answers (group : ShardGroup) (reason : String) (error : Error) : Prop :=
  group.Usable → error = .canceled reason

variable (group : ShardGroup) {ctx : Context} {env : Env υ} {attempt : Attempt} {reason : String}

theorem check_declines (h : ctx.check env.flags env.elapsed = .error (.canceled reason)) :
    (group.check ctx).Declines env (group.Answers reason) := by
  unfold check
  cases hproblem : group.problem? with
  | some problem =>
    refine ⟨_, rfl, fun husable => ?_⟩
    cases husable.problem?.symm.trans hproblem
  | none =>
    refine ⟨.canceled reason, ?_, fun _ => rfl⟩
    rw [Op.runIn_check, h]

theorem checkRead_declines (h : ctx.check env.flags env.elapsed = .error (.canceled reason)) :
    (group.checkRead ctx).Declines attempt env (group.Answers reason) := by
  obtain ⟨error, hrun, herror⟩ := group.check_declines h
  refine ⟨error, ?_, herror⟩
  rw [checkRead, TxOp.runIn_bind, TxOp.runIn_ofOp, hrun]

theorem checkWrite_declines (h : ctx.check env.flags env.elapsed = .error (.canceled reason))
    (stamp : Stamp) : (group.checkWrite ctx stamp).Declines attempt env (group.Answers reason) :=
  (group.checkRead_declines h).bind _

end ShardGroup

/-! ## Contexts that are done -/

section

variable {ctx : Context} {env : Env Unit} {reason : String}

theorem ReadPhase.declines (phase : ReadPhase) (attempt : Attempt)
    (h : phase.ctx.check env.flags env.elapsed = .error (.canceled reason)) :
    phase.op.Declines attempt env (phase.handle.site.group.Answers reason) := by
  cases phase with
  | increment counter ctx => exact ((counter.group.checkRead_declines h).bind _).map _
  | number coder ctx => exact ((coder.group.checkRead_declines h).bind _).map _
  | code coder ctx width => exact (((coder.group.checkRead_declines h).bind _).bind _).map _
  | serial source ctx => exact ((source.group.checkRead_declines h).bind _).map _

theorem WritePhase.declines (phase : WritePhase) (attempt : Attempt)
    (h : phase.ctx.check env.flags env.elapsed = .error (.canceled reason)) :
    phase.op.Declines attempt env fun error =>
      phase.Fitting → phase.handle.site.group.Answers reason error := by
  have hfits : ∀ {group : ShardGroup} {op : TxOp Unit Receipt},
      op.Declines attempt env (group.Answers reason) →
        op.Declines attempt env fun error => phase.Fitting → group.Answers reason error :=
    fun ⟨error, hrun, herror⟩ => ⟨error, hrun, fun _ => herror⟩
  cases phase with
  | increment counter ctx pending value =>
    exact hfits (((counter.group.checkWrite_declines h pending.stamp).bind _).map _)
  | number coder ctx pending =>
    exact hfits (((coder.group.checkWrite_declines h pending.stamp).bind _).map _)
  | serial source ctx pending =>
    exact hfits (((source.group.checkWrite_declines h pending.stamp).bind _).map _)
  | code coder ctx pending width =>
    -- The width is looked at first, and the names and the context after it.
    by_cases hwidth : pending.width = width
    · have hwrite : coder.codeWrite ctx pending width = (do
          discard (coder.numberWrite ctx pending.number)
          return pending.code : TxOp Unit String) := if_neg (not_not.mpr hwidth)
      rw [op, hwrite]
      exact hfits (((((coder.group.checkWrite_declines h _).bind _).map _).bind _).map _)
    · have hwrite : ∃ error, (coder.codeWrite ctx pending width : TxOp Unit String) = throw error :=
        ⟨_, if_pos hwidth⟩
      obtain ⟨error, hwrite⟩ := hwrite
      rw [op, hwrite]
      exact ⟨error, rfl, fun hfitting => absurd hfitting hwidth⟩

theorem Errand.declines (errand : Errand α)
    (h : ctx.check env.flags env.elapsed = .error (.canceled reason)) :
    (errand.op ctx).Declines env (errand.handle.site.group.Answers reason) := by
  have hrefuses : env.Refuses ctx (.canceled reason) := .inl h
  have htransact : ∀ {group : ShardGroup} (body : TxOp Unit α),
      (Op.transact ctx body).Declines env (group.Answers reason) :=
    fun body => ⟨_, hrefuses.transact body, fun _ => rfl⟩
  cases errand with
  | increment counter value => exact htransact _
  | countAll counter => exact (counter.group.check_declines h).bind _
  | detailPeriod counter level since before => exact (counter.group.check_declines h).bind _
  | countPeriod counter level since before =>
    exact ((counter.group.check_declines h).bind _).bind _
  | number coder => exact htransact _
  | code coder width => exact htransact _
  | next source => exact htransact _
  | clear source => exact (source.group.check_declines h).bind _
  | delete handle =>
    cases handle with
    | counter counter => exact (counter.group.check_declines h).bind _
    | coder coder => exact (coder.group.check_declines h).bind _
    | serial source => exact (source.group.check_declines h).bind _
  | shardsCount handle => exact (handle.site.group.check_declines h).bind _

end

namespace Context

/-- Nothing that takes the context has an effect: all of it fails, and nothing is
changed.  The reason is why the context is done; a handle gives it if it is usable, and
else it may complain about its names. -/
structure Idle (ctx : Context) (env : Env Unit) (reason : String) : Prop where
  get : ∀ key, (Op.get ctx key).runIn env = (.error (.canceled reason), env)
  query : ∀ collection field value,
    (Op.query ctx collection field value).runIn env = (.error (.canceled reason), env)
  delete : ∀ key, (Op.delete ctx key).runIn env = (.error (.canceled reason), env)
  transact : ∀ {α : Type} (body : TxOp Unit α),
    (Op.transact ctx body).runIn env = (.error (.canceled reason), env)
  /-- No call of the operation is noted. -/
  uncalled : ∀ {α : Type} (body : TxOp Unit α),
    (Op.transact ctx body.noting).runIn (env.noted []) = (.error (.canceled reason), env.noted [])
  read : ∀ (phase : ReadPhase) (attempt : Attempt), phase.ctx = ctx →
    ∃ error, phase.op.runIn attempt env = (.error error, attempt, env) ∧
      (phase.handle.site.group.Usable → error = .canceled reason)
  write : ∀ (phase : WritePhase) (attempt : Attempt), phase.ctx = ctx →
    ∃ error, phase.op.runIn attempt env = (.error error, attempt, env) ∧
      (phase.Fitting → phase.handle.site.group.Usable → error = .canceled reason)
  errand : ∀ {α : Type} (errand : Errand α),
    ∃ error, (errand.op ctx).runIn env = (.error error, env) ∧
      (errand.handle.site.group.Usable → error = .canceled reason)

/-- A context that is done has no effect, whatever the store, the attempt and the handle
are. -/
theorem Done.idle {ctx : Context} {env : Env Unit} (h : ctx.Done env.flags env.elapsed) :
    ∃ reason, ctx.Idle env reason := by
  obtain ⟨reason, hcheck⟩ := h.check
  have hrefuses : env.Refuses ctx (.canceled reason) := .inl hcheck
  refine ⟨reason, ?_⟩
  constructor
  case get =>
    exact hrefuses.get
  case query =>
    exact hrefuses.query
  case delete =>
    exact hrefuses.delete
  case transact =>
    exact fun body => hrefuses.transact body
  case uncalled =>
    exact fun body => hrefuses.transact_noting body []
  case read =>
    rintro phase attempt rfl
    exact phase.declines attempt hcheck
  case write =>
    rintro phase attempt rfl
    exact phase.declines attempt hcheck
  case errand =>
    exact fun errand => errand.declines hcheck

/-- A context ends with the one that it derives from. -/
theorem idle_child :
    ∃ reason, ((⟨⟨0, none⟩, []⟩ : Context).child { issued := 1 }).1.Idle
      { flags := { issued := 2, raised := [0] }, user := () } reason :=
  Done.idle ⟨⟨0, none⟩, List.mem_cons_of_mem _ List.mem_cons_self, .inl List.mem_cons_self⟩

end Context

end Shardwise
