import Shardwise.Proofs.Session.Transact
import Shardwise.Proofs.Shards.Coder
import Shardwise.Proofs.Shards.Counter.Course
import Shardwise.Proofs.Shards.Serial

/-!
# Operations with a transaction of their own

Serials, coders and counters offer their two phases as one operation as well, which
brings its own transaction and tries again after conflicts.  Each of these
operations is a run of the protocol of its primitive, whatever happened before, and
it commits exactly what it returns, or nothing when it fails.  What is known of all
runs therefore covers callers that use them, one by one or among attempts of
others.

* `Serial.renders_next`, `Serial.renders_clear` and `Serial.renders_delete` are
  about serials.
* `Coder.renders_number` and `Coder.renders_code` are about coders.
* `Counter.renders_increment` is about counters.
-/

namespace Shardwise

/-- Checks change nothing. -/
theorem Protocol.Renders.check {τ ω : Type} (p : Protocol τ ω) (group : ShardGroup)
    (ctx : Context) :
    p.Renders (group.check ctx) fun _ entries => entries = [] := by
  refine .of_env_eq p fun env => ?_
  unfold ShardGroup.check
  cases group.problem? <;> rfl

open Protocol (allOrNothing)

/-! ## Serials -/

namespace Serial

/-- A number that is reserved in a transaction of its own is the one that the
transaction commits. -/
theorem renders_next {serial handle : Serial} (hsame : serial.Same handle) (ctx : Context) :
    serial.protocol.Renders (handle.next ctx) (allOrNothing fun n entries =>
      ∃ token : PendingSerial, entries = [.number n token.present]) := by
  apply Protocol.Stepwise.renders_transact
  have hreads : serial.protocol.Reads (id <$> handle.numberRead ctx) := by
    rw [id_map]
    exact ⟨handle, ctx, hsame, rfl⟩
  refine .phases hreads fun tokens token htoken => ?_
  exact .inl ⟨handle, ctx, hsame, token, htoken, rfl⟩

/-- Starting over commits one removal. -/
theorem renders_clear {serial handle : Serial} (hsame : serial.Same handle) (ctx : Context) :
    serial.protocol.Renders (handle.clear ctx)
      (allOrNothing fun _ entries => entries = [.cleared]) := by
  have hdelete : serial.protocol.Renders
      (Op.transact ctx (TxOp.delete handle.key : TxOp Unit Unit))
      (allOrNothing fun _ entries => entries = [.cleared]) := by
    rw [hsame.key_eq]
    have hwrites : ∀ tokens, serial.protocol.Writes tokens
        ((fun _ => SerialEvent.cleared) <$> TxOp.delete serial.key) := fun _ => .inr rfl
    exact (Protocol.Stepwise.write hwrites).renders_transact ctx
  refine (Protocol.Renders.check serial.protocol handle.group ctx).bind
    (fun _ _ _ => Protocol.Renders.withContext hdelete (fun _ _ _ h => h) _ _ _) (fun _ _ h => h) ?_
  rintro _ outcome entries more rfl hmore
  exact hmore

/-- The removal of one document inside an attempt is a step.  Only that of the
serial's own document counts as one of the serial. -/
theorem delete_step (serial : Serial) (key : DocKey) {s : Session PendingSerial SerialEvent}
    {id : UInt64} {attempt : Attempt} (hheld : s.attempts id = some attempt)
    (hdrafts : key = serial.key → s.drafts id = []) :
    ∃ action, serial.protocol.Allows s action ∧ (s.step action).log = s.log ∧
      (s.step action).env = ((TxOp.delete key : TxOp Unit Unit).runIn attempt s.env).2.2 ∧
      (s.step action).attempts id =
        some ((TxOp.delete key : TxOp Unit Unit).runIn attempt s.env).2.1 ∧
      (((TxOp.delete key : TxOp Unit Unit).runIn attempt s.env).1 = .ok () →
        (s.step action).drafts id = if key = serial.key then [.cleared] else s.drafts id) := by
  by_cases hkey : key = serial.key
  · subst hkey
    have hwrites : serial.protocol.Writes s.tokens
        ((fun _ => SerialEvent.cleared) <$> TxOp.delete serial.key) := .inr rfl
    obtain ⟨hallowed, hlog, henv, hattempt, hmade⟩ :=
      Protocol.step_write hwrites hheld (hdrafts rfl)
    rw [if_pos rfl]
    exact ⟨_, hallowed, hlog, henv, hattempt, hmade ()⟩
  · refine ⟨.touch id (TxOp.delete key), .delete id hkey, ?_⟩
    rw [if_neg hkey]
    rcases hrun : (TxOp.delete key : TxOp Unit Unit).runIn attempt s.env with
      ⟨error | value, later, left⟩
    · have hstep : s.step (.touch id (TxOp.delete key)) =
          { s with env := left }.setAttempt id later := by
        simp only [Session.step, Session.inside_error hheld hrun]
      rw [hstep]
      exact ⟨rfl, rfl, by simp, fun h => by cases h⟩
    · have hstep : s.step (.touch id (TxOp.delete key)) =
          { s with env := left }.setAttempt id later := by
        simp only [Session.step, Session.inside_ok hheld hrun]
      rw [hstep]
      exact ⟨rfl, rfl, by simp, fun _ => rfl⟩

/-- The removal of some documents inside an attempt. -/
theorem stepwise_deleteAll (serial : Serial) {keys : List DocKey} (hkeys : keys.Nodup) :
    serial.protocol.Stepwise (keys.forM TxOp.delete) fun _ entries =>
      entries = if serial.key ∈ keys then [.cleared] else [] := by
  -- The attempt has seen the removals before, which leaves room for the serial's own.
  suffices h : ∀ (s : Session PendingSerial SerialEvent) id attempt,
      s.attempts id = some attempt → (serial.key ∈ keys → s.drafts id = []) →
      ∃ actions, serial.protocol.Permits s actions ∧ (s.run actions).log = s.log ∧
        (s.run actions).env = ((keys.forM TxOp.delete : TxOp Unit Unit).runIn attempt s.env).2.2 ∧
        (s.run actions).attempts id =
          some ((keys.forM TxOp.delete : TxOp Unit Unit).runIn attempt s.env).2.1 ∧
        (((keys.forM TxOp.delete : TxOp Unit Unit).runIn attempt s.env).1 = .ok () →
          (s.run actions).drafts id =
            if serial.key ∈ keys then [.cleared] else s.drafts id) by
    intro s id attempt hheld hnone
    obtain ⟨actions, hpermits, hlog, henv, hattempt, hmade⟩ := h s id attempt hheld fun _ => hnone
    refine ⟨actions, hpermits, hlog, henv, hattempt, fun value hvalue => ?_⟩
    rw [hmade hvalue, hnone]
  induction keys with
  | nil =>
    intro s id attempt hheld _
    exact ⟨[], trivial, rfl, rfl, hheld, fun _ => rfl⟩
  | cons key keys ih =>
    intro s id attempt hheld hdrafts
    rw [List.nodup_cons] at hkeys
    have hcons : ((key :: keys).forM TxOp.delete : TxOp Unit Unit) =
        TxOp.delete key >>= fun _ => keys.forM TxOp.delete := rfl
    rw [hcons, TxOp.runIn_bind]
    obtain ⟨action, hallowed, hlog, henv, hattempt, hmade⟩ :=
      serial.delete_step key hheld fun hkey => hdrafts (hkey ▸ List.mem_cons_self)
    rcases hrun : (TxOp.delete key : TxOp Unit Unit).runIn attempt s.env with
      ⟨error | value, later, left⟩
    · rw [hrun] at henv hattempt
      exact ⟨[action], ⟨hallowed, trivial⟩, hlog, henv, hattempt, fun h => by cases h⟩
    · rw [hrun] at henv hattempt hmade
      have hmade := hmade rfl
      have hnext : serial.key ∈ keys → (s.step action).drafts id = [] := by
        intro hmem
        have hne : key ≠ serial.key := fun heq => hkeys.1 (heq ▸ hmem)
        rw [hmade, if_neg hne]
        exact hdrafts (List.mem_cons_of_mem _ hmem)
      obtain ⟨actions, hpermits, hlogged, hleft, hattempts, hlast⟩ :=
        ih hkeys.2 (s.step action) id later hattempt hnext
      rw [henv] at hleft hattempts hlast
      refine ⟨action :: actions, ⟨hallowed, hpermits⟩, hlogged.trans hlog, hleft, hattempts,
        fun hok => (hlast hok).trans ?_⟩
      rw [hmade]
      by_cases hkey : key = serial.key
      · have habsent : serial.key ∉ keys := hkey ▸ hkeys.1
        simp [hkey, habsent]
      · simp [hkey, Ne.symm hkey]

/-- A batch of removals commits at most one that counts as the serial's. -/
theorem renders_deleteBatch (serial : Serial) (group : ShardGroup) (ctx : Context)
    (first : DocKey) {keys : List DocKey} (hkeys : keys.Nodup) :
    serial.protocol.Renders (group.deleteBatch ctx first keys) fun _ entries =>
      ∀ event ∈ entries, event = .cleared := by
  refine Protocol.Renders.withContext ?_ (fun _ _ _ h => h) _ _ _
  refine ((serial.stepwise_deleteAll hkeys).renders_transact ctx).mono ?_
  rintro (error | value) entries hmade
  · obtain rfl : entries = [] := hmade
    simp
  · obtain rfl : entries = if serial.key ∈ keys then [.cleared] else [] := hmade
    split <;> simp

/-- The removal of all documents of an owner commits removals. -/
theorem renders_deleteRounds (serial : Serial) (group : ShardGroup) (ctx : Context)
    (rounds : Nat) :
    serial.protocol.Renders (group.deleteRounds ctx rounds) fun _ entries =>
      ∀ event ∈ entries, event = .cleared := by
  have howned : serial.protocol.Renders (group.owned ctx "delete_shards") fun outcome entries =>
      entries = [] ∧ ∀ found, outcome = .ok found → (found.map Prod.fst).Nodup := by
    intro s
    rcases group.owned_cases ctx "delete_shards" s.env with ⟨error, hrun⟩ | hrun
    · rw [hrun]
      exact ⟨[], [], trivial, rfl, (List.append_nil _).symm, rfl, fun _ h => by cases h⟩
    · rw [hrun]
      refine ⟨[], [], trivial, rfl, (List.append_nil _).symm, rfl, ?_⟩
      rintro _ ⟨⟩
      exact Table.nodup_scan _ _ _ _
  induction rounds with
  | zero =>
    refine howned.bind (fun found _ _ => .of_result serial.protocol _) ?_ ?_
    · rintro error entries ⟨rfl, -⟩
      simp
    · rintro found outcome entries more ⟨rfl, -⟩ ⟨-, rfl⟩
      simp
  | succ rounds ih =>
    refine howned.bind (fun found _ hfound => (?_ : serial.protocol.Renders _
      fun _ entries => ∀ event ∈ entries, event = .cleared)) ?_ ?_
    · cases htake : found.take (group.numShards + 1) with
      | nil =>
        refine (Protocol.Renders.of_result serial.protocol true).mono ?_
        rintro outcome entries ⟨-, rfl⟩
        simp
      | cons entry more =>
        have hkeys : ((entry :: more).map Prod.fst).Nodup := by
          rw [← htake]
          exact (hfound.2 found rfl).sublist ((List.take_sublist _ _).map _)
        refine (serial.renders_deleteBatch group ctx entry.1 hkeys).bind (fun _ _ _ => ih)
          (fun _ _ h => h) ?_
        intro _ outcome entries rest hbatch hrest event hevent
        exact (List.mem_append.mp hevent).elim (hbatch event) (hrest event)
    · rintro error entries ⟨rfl, -⟩
      simp
    · rintro found outcome entries more ⟨rfl, -⟩ hmore
      exact hmore

/-- The removal of all documents of a serial commits removals. -/
theorem renders_delete (serial handle : Serial) (ctx : Context) :
    serial.protocol.Renders (handle.delete ctx) fun _ entries =>
      ∀ event ∈ entries, event = .cleared := by
  refine (Protocol.Renders.check serial.protocol handle.group ctx).bind
    (fun _ _ _ => serial.renders_deleteRounds handle.group ctx handle.maxDeleteRounds) ?_ ?_
  · rintro error entries rfl
    simp
  · rintro _ outcome entries more rfl hmore
    exact hmore

end Serial

/-! ## Coders -/

namespace Coder

/-- A number that is reserved in a transaction of its own is the one that the
transaction commits. -/
theorem renders_number {coder handle : Coder} (hgroup : handle.group = coder.group)
    (ctx : Context) :
    coder.protocol.Renders (handle.number ctx) (allOrNothing fun n entries =>
      ∃ token : PendingNumber, entries = [⟨token.index, n, none⟩]) := by
  apply Protocol.Stepwise.renders_transact
  have hreads : coder.protocol.Reads (Sum.inl <$> handle.numberRead ctx) :=
    ⟨handle, ctx, hgroup, .inl rfl⟩
  refine .phases hreads fun tokens token htoken => ?_
  exact ⟨handle, ctx, hgroup, .inl ⟨token, htoken, rfl⟩⟩

/-- The same for a code. -/
theorem renders_code {coder handle : Coder} (hgroup : handle.group = coder.group)
    (ctx : Context) (width : CodeWidth) :
    coder.protocol.Renders (handle.code ctx width) (allOrNothing fun code entries =>
      ∃ token : PendingCode,
        entries = [⟨token.number.index, token.number.number, some (width, code)⟩]) := by
  apply Protocol.Stepwise.renders_transact
  have hreads : coder.protocol.Reads (Sum.inr <$> handle.codeRead ctx width) :=
    ⟨handle, ctx, hgroup, .inr ⟨width, rfl⟩⟩
  refine .phases hreads fun tokens token htoken => ?_
  exact ⟨handle, ctx, hgroup, .inr ⟨token, width, htoken, rfl⟩⟩

end Coder

/-! ## Counters -/

/-- An increment in a transaction of its own commits the number that it adds. -/
theorem Counter.renders_increment {counter handle : Counter} (hsame : counter.Same handle)
    (ctx : Context) (value : Int64) :
    counter.protocol.Renders (handle.increment ctx value) (allOrNothing fun _ entries =>
      ∃ token : PendingIncrement, entries = [token.increment value]) := by
  apply Protocol.Stepwise.renders_transact
  have hreads : counter.protocol.Reads (id <$> handle.incrementRead ctx) := by
    rw [id_map]
    exact ⟨handle, ctx, hsame, rfl⟩
  refine .phases hreads fun tokens token htoken => ?_
  exact ⟨handle, ctx, hsame, token, htoken, value, rfl⟩

end Shardwise
