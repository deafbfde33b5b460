import Shardwise.Proofs.Shards.Errands

/-!
# Closed stores

`Store.Frozen` says what can still become of a store that is closed: attempts that are
under way can be aborted, and nothing else is counted or changed.

`Op.Usual` lists what callers can do with a store, with attempts that they hold and with
handles, and `Env.Leads` is any sequence of it.  `Op.Usual.frozen` is what one step keeps
and `Env.Leads.frozen` what all of them keep; `Env.Rejects` is what all of them meet.

A store may also be closed by the operation of a transaction.  `TxOp.Sequel` is what such
an operation can still do, and `Op.Transacts.closing` says how the transaction ends: after
this call, with an error, and without a change.
-/

namespace Shardwise

variable {α β : Type}

/-! ## What stays as it is -/

namespace Store

/-- The store is closed, and but for aborted attempts and the retry policy it is as it
was. -/
structure Frozen (store left : Store) : Prop where
  closed : left.isOpen = false
  database : left.database = store.database
  started : left.stats.started = store.stats.started
  committed : left.stats.committed = store.stats.committed
  retried : left.stats.retried = store.stats.retried

variable {store midway left : Store}

theorem Frozen.refl (h : store.isOpen = false) : store.Frozen store := ⟨h, rfl, rfl, rfl, rfl⟩

theorem Frozen.trans (h : store.Frozen midway) (h' : midway.Frozen left) : store.Frozen left where
  closed := h'.closed
  database := h'.database.trans h.database
  started := h'.started.trans h.started
  committed := h'.committed.trans h.committed
  retried := h'.retried.trans h.retried

theorem frozen_close (store : Store) : store.Frozen store.close := ⟨rfl, rfl, rfl, rfl, rfl⟩

theorem frozen_countAborted (h : store.isOpen = false) : store.Frozen store.countAborted :=
  ⟨h, rfl, rfl, rfl, rfl⟩

theorem begin_closed (h : store.isOpen = false) :
    store.begin = .error (.ofStore "store is closed") := by
  rw [begin, ensureOpen_closed h]
  rfl

theorem insert_closed (h : store.isOpen = false) (key : DocKey) (document : Document) :
    store.insert key document = .error (.ofStore "store is closed") := by
  rw [insert, ensureOpen_closed h]
  rfl

end Store

/-! ## Handles of a closed store -/

section

variable {env : Env Unit}

/-- What follows the check of a group declines, and so does the whole. -/
theorem ShardGroup.check_bind_declines {group : ShardGroup} {ctx : Context}
    {next : Unit → Op Unit α}
    (h : (next ()).Declines env fun _ => True) :
    (group.check ctx >>= next).Declines env fun _ => True := by
  have hleft := group.check_env ctx env
  obtain ⟨error, hrun, -⟩ := h
  rcases hcheck : (group.check ctx).runIn env with ⟨problem | _, left⟩
  · rw [hcheck] at hleft
    obtain rfl : left = env := hleft
    exact ⟨problem, by rw [Op.runIn_bind, hcheck], trivial⟩
  · rw [hcheck] at hleft
    obtain rfl : left = env := hleft
    exact ⟨error, by rw [Op.runIn_bind, hcheck]; exact hrun, trivial⟩

theorem Op.Declines.withContext {op : Op Unit α} (h : op.Declines env fun _ => True)
    (operation owner : String) (key : DocKey) :
    (op.withContext operation owner key).Declines env fun _ => True := by
  obtain ⟨error, hrun, -⟩ := h
  refine ⟨error.withStoreContext operation owner key, ?_, trivial⟩
  rw [runIn_withContext, hrun, withStoreContext_error]

variable (hclosed : env.store.isOpen = false)

include hclosed

theorem Op.transact_declines (ctx : Context) (body : TxOp Unit α) :
    (Op.transact ctx body).Declines env fun _ => True := by
  obtain ⟨error, hrefuses⟩ := env.exists_refuses_closed hclosed ctx
  exact ⟨error, hrefuses.transact body, trivial⟩

theorem ShardGroup.owned_declines (group : ShardGroup) (ctx : Context) (operation : String) :
    (group.owned ctx operation).Declines env fun _ => True := by
  obtain ⟨error, hrefuses⟩ := env.exists_refuses_closed hclosed ctx
  exact Op.Declines.withContext ⟨error, hrefuses.query _ _ _, trivial⟩ _ _ _

theorem ShardGroup.deleteShards_declines (group : ShardGroup) (ctx : Context) (rounds : Nat) :
    (group.deleteShards ctx rounds).Declines env fun _ => True := by
  refine check_bind_declines ?_
  cases rounds with
  | zero => exact (group.owned_declines hclosed ctx _).bind _
  | succ rounds => exact (group.owned_declines hclosed ctx _).bind _

/-- An errand fails in a closed store and changes nothing. -/
theorem Errand.declines_closed (errand : Errand α) (ctx : Context) :
    (errand.op ctx).Declines env fun _ => True := by
  have hdocuments : ∀ (counter : Counter) (level : Level) (operation : String),
      (counter.levelDocuments ctx level operation).Declines env fun _ => True :=
    fun counter level operation => (counter.group.owned_declines hclosed ctx operation).bind _
  have hdetail : ∀ (counter : Counter) (level : Level) (since before : Instant),
      (counter.detailPeriod ctx level since before).Declines env fun _ => True := by
    intro counter level since before
    refine ShardGroup.check_bind_declines ?_
    show Op.Declines (if _ then _ else _) env _
    split
    · show Op.Declines (if _ then _ else _) env _
      split
      · exact (hdocuments counter level _).bind _
      · exact ⟨_, rfl, trivial⟩
    · exact ⟨_, rfl, trivial⟩
  cases errand with
  | increment | number | code | next => exact Op.transact_declines hclosed ctx _
  | countAll counter => exact ShardGroup.check_bind_declines ((hdocuments counter .total _).bind _)
  | detailPeriod counter level since before => exact hdetail counter level since before
  | countPeriod counter level since before => exact (hdetail counter level since before).bind _
  | clear source =>
    exact ShardGroup.check_bind_declines
      ((Op.transact_declines hclosed ctx (TxOp.delete source.key)).withContext _ _ _)
  | delete handle =>
    cases handle with
    | counter counter => exact counter.group.deleteShards_declines hclosed ctx _
    | coder coder => exact coder.group.deleteShards_declines hclosed ctx _
    | serial source => exact source.group.deleteShards_declines hclosed ctx _
  | shardsCount handle =>
    exact ShardGroup.check_bind_declines ((handle.site.group.owned_declines hclosed ctx _).bind _)

end

/-! ## What callers do -/

/-- What is done inside an attempt: reads, changes of the attempt alone, and the phases
of handles. -/
inductive TxOp.Usual : {α : Type} → TxOp Unit α → Prop
  | get (key : DocKey) : Usual (TxOp.get key)
  | change (request : Attempt → Except Error Attempt) : Usual (TxOp.change request)
  | read (phase : ReadPhase) : Usual phase.op
  | write (phase : WritePhase) : Usual phase.op

/-- What callers do with a store, with any attempts and with handles. -/
inductive Op.Usual : {α : Type} → Op Unit α → Prop
  | begin : Usual Op.begin
  | commit (attempt : Attempt) : Usual (Op.commit attempt)
  | abort (attempt : Attempt) (reason : String) : Usual (Op.abort attempt reason)
  | insert (key : DocKey) (document : Document) : Usual (Op.insert key document)
  | close : Usual (Op.change fun store => .ok store.close)
  | configure (retry : RetryPolicy) : Usual (Op.change fun store => .ok { store with retry })
  | get (ctx : Context) (key : DocKey) : Usual (Op.get ctx key)
  | query (ctx : Context) (collection field : String) (value : Value) :
      Usual (Op.query ctx collection field value)
  | delete (ctx : Context) (key : DocKey) : Usual (Op.delete ctx key)
  | transact {α : Type} (ctx : Context) (body : TxOp Unit α) : Usual (Op.transact ctx body)
  | inside {α : Type} {op : TxOp Unit α} (h : op.Usual) (attempt : Attempt) :
      Usual (op.runOn attempt)
  | errand {α : Type} (errand : Errand α) (ctx : Context) : Usual (errand.op ctx)
  /-- The clocks are moved, time passes, contexts are cancelled, and random numbers come
  up. -/
  | surround (change : Env Unit → Env Unit) (h : ∀ env, (change env).store = env.store) :
      Usual (Op.surround change)

/-- What the operation of a transaction can do in a sequence. -/
inductive TxOp.Sequel : {α : Type} → TxOp Unit α → Prop
  | ofExcept {α : Type} (outcome : Except Error α) : Sequel (TxOp.ofExcept outcome)
  | inside {α : Type} {op : TxOp Unit α} (h : op.Usual) : Sequel op
  | outside {α : Type} {op : Op Unit α} (h : op.Usual) : Sequel (TxOp.ofOp op)
  | bind {α β : Type} {op : TxOp Unit α} {next : α → TxOp Unit β} (h : Sequel op)
      (hnext : ∀ value, Sequel (next value)) : Sequel (op >>= next)

/-- What callers do leads from one environment to another. -/
inductive Env.Leads (start : Env Unit) : Env Unit → Prop
  | start : Leads start start
  | step {α : Type} {env : Env Unit} {op : Op Unit α} (before : Leads start env)
      (h : op.Usual) : Leads start (op.runIn env).2

/-- What is done inside an attempt leaves the store as it is. -/
theorem TxOp.Usual.store_eq {op : TxOp Unit α} (h : op.Usual) (attempt : Attempt)
    (env : Env Unit) : (op.runIn attempt env).2.2.store = env.store := by
  cases h with
  | get key => exact (ReadsOnly.get key attempt env).1
  | change request =>
    rw [runIn_change]
    cases request attempt <;> rfl
  | read phase => exact (phase.readsOnly attempt env).1
  | write phase =>
    rcases phase.op_cases attempt env with ⟨error, hrun⟩ | ⟨receipt, hrun, -⟩ <;> rw [hrun]

/-- One step in a closed store. -/
theorem Op.Usual.frozen {op : Op Unit α} (h : op.Usual) {env : Env Unit}
    (hclosed : env.store.isOpen = false) : env.store.Frozen (op.runIn env).2.store := by
  have hrefuses := env.exists_refuses_closed hclosed
  have hsame := Store.Frozen.refl hclosed
  cases h with
  | begin =>
    rw [runIn_begin, Store.begin_closed hclosed]
    exact hsame
  | commit attempt =>
    rw [runIn_commit, Store.commit_closed hclosed]
    exact hsame
  | abort attempt reason =>
    rw [runIn_abort]
    rcases habort : env.store.abort attempt reason with error | ⟨aborted, left⟩
    · exact hsame
    · rw [Store.abort_eq_ok habort]
      exact Store.frozen_countAborted hclosed
  | insert key document =>
    rw [Op.insert, runIn_change, Store.insert_closed hclosed]
    exact hsame
  | close => exact env.store.frozen_close
  | configure retry => exact ⟨hclosed, rfl, rfl, rfl, rfl⟩
  | get ctx key =>
    obtain ⟨error, hrefuses⟩ := hrefuses ctx
    rw [hrefuses.get]
    exact hsame
  | query ctx collection field value =>
    obtain ⟨error, hrefuses⟩ := hrefuses ctx
    rw [hrefuses.query]
    exact hsame
  | delete ctx key =>
    obtain ⟨error, hrefuses⟩ := hrefuses ctx
    rw [hrefuses.delete]
    exact hsame
  | transact ctx body =>
    obtain ⟨error, hrefuses⟩ := hrefuses ctx
    rw [hrefuses.transact]
    exact hsame
  | inside h attempt =>
    rw [TxOp.runIn_runOn, h.store_eq]
    exact hsame
  | errand errand ctx =>
    obtain ⟨error, hrun, -⟩ := errand.declines_closed hclosed ctx
    rw [hrun]
    exact hsame
  | surround change h =>
    show env.store.Frozen (change env).store
    rw [h]
    exact hsame

/-- Every sequence of steps from a closed store. -/
theorem Env.Leads.frozen {env later : Env Unit} (h : env.Leads later)
    (hclosed : env.store.isOpen = false) : env.store.Frozen later.store := by
  induction h with
  | start => exact .refl hclosed
  | step before h ih => exact ih.trans (h.frozen ih.closed)

/-- What the operation of a transaction does after the store was closed. -/
theorem TxOp.Sequel.frozen {op : TxOp Unit α} (h : op.Sequel) (attempt : Attempt) {env : Env Unit}
    (hclosed : env.store.isOpen = false) :
    env.store.Frozen (op.runIn attempt env).2.2.store := by
  induction h generalizing attempt env with
  | ofExcept outcome => exact .refl hclosed
  | inside h =>
    rw [h.store_eq]
    exact .refl hclosed
  | outside h => exact h.frozen hclosed
  | @bind _ _ op next _ _ ih ihnext =>
    have hfirst := ih attempt hclosed
    rw [runIn_bind]
    rcases hop : op.runIn attempt env with ⟨error | value, between, midway⟩
    · rw [hop] at hfirst
      exact hfirst
    · rw [hop] at hfirst
      exact hfirst.trans (ihnext value between hfirst.closed)

/-! ## A transaction whose operation closes the store -/

/-- A call after which the store is closed is the last one.  The transaction fails, and
nothing has changed since the store was as in `midway`. -/
structure Call.Closes (call : Call Unit α) (calls : List (Call Unit α)) (midway : Env Unit)
    (outcome : Except Error α) (final : Env Unit) : Prop where
  last : calls.getLast? = some call
  frozen : midway.store.Frozen final.store
  /-- If the operation itself does not fail, then the store does. -/
  failed : ∃ error, outcome = .error error ∧
    ∀ result, call.outcome = .ok result → error = .ofStore "store is closed"

theorem Op.Transacts.closing {policy : RetryPolicy} {ctx : Context} {body : TxOp Unit α}
    {left : Nat} {env final : Env Unit} {calls : List (Call Unit α)} {outcome : Except Error α}
    (h : Transacts policy ctx body left env calls outcome final) {call : Call Unit α}
    (hcall : call ∈ calls) (hclosed : call.after.store.isOpen = false) :
    call.Closes calls call.after outcome final := by
  induction h with
  | done | closed => cases hcall
  | @failed _ _ other error h hfailed =>
    obtain rfl := List.mem_singleton.mp hcall
    constructor
    case last =>
      rfl
    case frozen =>
      cases call.later.isActive with
      | true => exact Store.frozen_countAborted hclosed
      | false => exact .refl hclosed
    case failed =>
      refine ⟨error, rfl, fun result hresult => ?_⟩
      cases hfailed.symm.trans hresult
  | committed h hvalue hcommit =>
    obtain rfl := List.mem_singleton.mp hcall
    cases (Store.commit_closed hclosed _).symm.trans hcommit
  | refused h hvalue hcommit hlast =>
    obtain rfl := List.mem_singleton.mp hcall
    cases (Store.commit_closed hclosed _).symm.trans hcommit
    exact ⟨rfl, .refl hclosed, _, rfl, fun _ _ => rfl⟩
  | again h hvalue hcommit hconflict more ih =>
    rcases List.mem_cons.mp hcall with rfl | hcall
    · -- A closed store gives no conflict, so that this is not the last call.
      cases (Store.commit_closed hclosed _).symm.trans hcommit
      cases hconflict
    · obtain ⟨hlast, hfrozen, hfailed⟩ := ih hcall
      refine ⟨?_, hfrozen, hfailed⟩
      rw [List.getLast?_cons, hlast]
      rfl

/-! ## Closing -/

/-- A store that is closed takes no requests. -/
structure Env.Rejects (env : Env Unit) : Prop where
  begin : Op.begin.runIn env = (.error (.ofStore "store is closed"), env)
  insert : ∀ key document,
    (Op.insert key document).runIn env = (.error (.ofStore "store is closed"), env)
  commit : ∀ attempt, (Op.commit attempt).runIn env =
    (.ok (.error (.ofStore "store is closed"), attempt), env)
  get : ∀ (ctx : Context) key, ¬ ctx.Done env.flags env.elapsed →
    (Op.get ctx key).runIn env = (.error (.ofStore "store is closed"), env)
  query : ∀ (ctx : Context) collection field value, ¬ ctx.Done env.flags env.elapsed →
    (Op.query ctx collection field value).runIn env = (.error (.ofStore "store is closed"), env)
  delete : ∀ (ctx : Context) key, ¬ ctx.Done env.flags env.elapsed →
    (Op.delete ctx key).runIn env = (.error (.ofStore "store is closed"), env)
  transact : ∀ {α : Type} (ctx : Context) (body : TxOp Unit α), ¬ ctx.Done env.flags env.elapsed →
    (Op.transact ctx body).runIn env = (.error (.ofStore "store is closed"), env)

theorem Env.rejects_of_closed {env : Env Unit} (h : env.store.isOpen = false) : env.Rejects := by
  have hrefuses : ∀ ctx : Context, ¬ ctx.Done env.flags env.elapsed →
      env.Refuses ctx (.ofStore "store is closed") :=
    fun ctx hlive => .inr ⟨Context.check_eq_ok_iff.mpr hlive, Store.ensureOpen_closed h⟩
  constructor
  case begin =>
    rw [Op.runIn_begin, Store.begin_closed h]
  case insert =>
    intro key document
    rw [Op.insert, Op.runIn_change, Store.insert_closed h]
  case commit =>
    intro attempt
    rw [Op.runIn_commit, Store.commit_closed h]
  case get =>
    exact fun ctx key hlive => (hrefuses ctx hlive).get key
  case query =>
    exact fun ctx collection field value hlive => (hrefuses ctx hlive).query collection field value
  case delete =>
    exact fun ctx key hlive => (hrefuses ctx hlive).delete key
  case transact =>
    exact fun ctx body hlive => (hrefuses ctx hlive).transact body

/-- Closing a store freezes it: whatever callers do afterwards, it stays closed with the
documents, the versions and the counts that it had, and takes no requests.  The same holds
from within a transaction, whose operation closes the store with `first` and goes on with
`next`. -/
theorem Env.close_freezes (env : Env Unit) :
    (∀ later, Leads { env with store := env.store.close } later →
      env.store.Frozen later.store ∧ later.Rejects) ∧
    ∀ {α β : Type} (ctx : Context) (first : TxOp Unit β) (next : β → TxOp Unit α),
      (∀ value, (next value).Sequel) →
      ∃ calls outcome final,
        (Op.transact ctx (first >>= next)).runIn env = (outcome, final) ∧
        (Op.transact ctx (first >>= next).noting).runIn (env.noted []) =
          (outcome, final.noted calls) ∧
        ∀ call ∈ calls, ∀ value between midway,
          first.runIn call.begun call.before = (.ok value, between, midway) →
          midway.store.isOpen = false → call.Closes calls midway outcome final := by
  constructor
  · intro later hleads
    have hfrozen := hleads.frozen rfl
    exact ⟨env.store.frozen_close.trans hfrozen, rejects_of_closed hfrozen.closed⟩
  · intro α β ctx first next hnext
    obtain ⟨calls, htrace, hnoted⟩ :=
      Op.transacts_noting env.store.retry ctx (first >>= next) env.store.retry.maxRetries env
    refine ⟨calls, _, _, rfl, hnoted [], fun call hcall value between midway hfirst hclosed => ?_⟩
    have hafter : call.after = ((next value).runIn between midway).2.2 := by
      rw [htrace.ran call hcall, TxOp.call, TxOp.runIn_bind, hfirst]
    have hrest := (hnext value).frozen between hclosed
    rw [← hafter] at hrest
    obtain ⟨hlast, hfrozen, hfailed⟩ := htrace.closing hcall hrest.closed
    exact ⟨hlast, hrest.trans hfrozen, hfailed⟩

/-- An attempt that began before the store was closed can be aborted afterwards, and an
operation that closes the store is called once. -/
theorem Env.close_freezes_underway :
    (∃ later, Leads { store := (Store.begun {}).close, user := () } later ∧
      later.store.stats.aborted = 1 ∧ (Store.begun {}).Frozen later.store ∧ later.Rejects) ∧
    ∃ (calls : List (Call Unit (Option Document))) (outcome : Except Error (Option Document))
        (final : Env Unit), calls.length = 1 ∧
      ∀ call ∈ calls, call.Closes calls call.after outcome final := by
  constructor
  · have hleads : Leads { store := (Store.begun {}).close, user := () } _ :=
      .step .start (.abort { id := 1 } "late")
    exact ⟨_, hleads, rfl, (close_freezes { store := Store.begun {}, user := () }).1 _ hleads⟩
  · obtain ⟨calls, outcome, final, -, hnoted, hcloses⟩ :=
      (close_freezes { user := () }).2 ⟨⟨0, none⟩, []⟩
        (TxOp.ofOp (Op.change fun store => .ok store.close)) (fun _ => TxOp.get Store.crate)
        (fun _ => .inside (.get _))
    have hcalls : [TxOp.call _ { id := 1 } { store := Store.begun {}, user := () }] = calls :=
      congrArg (fun left => left.2.user.2) hnoted
    refine ⟨calls, outcome, final, congrArg List.length hcalls.symm, fun call hcall => ?_⟩
    have hmem := hcall
    rw [← hcalls, List.mem_singleton] at hmem
    subst hmem
    exact hcloses _ hcall () _ _ rfl rfl

end Shardwise
