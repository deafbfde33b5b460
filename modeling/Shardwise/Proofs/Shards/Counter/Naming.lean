import Shardwise.Proofs.Shards.Counter.Course
import Shardwise.Proofs.Shards.Owners
import Shardwise.Proofs.Shards.Removals

/-!
# Who names the owner of a counter

A sum over all increments is made of the documents that name the owner, under
whatever key they lie.  The counter itself names its owner in its shards only, but
others may store the name elsewhere in the collection, and such documents are then
added up with the shards.

* `Counter.Undisputed` says of a table that only shards name the owner, and
  `Counter.Spares` of a step that nobody else stores the name.
* `Counter.Guarded` is the invariant of the runs of such steps, with
  `Counter.Guarded.step` for one step and `Counter.undisputed_of_reachesBy` for all.
-/

namespace Shardwise

namespace Counter

open Session

/-! ## Shards and strangers -/

/-- Queries by owner find shards only. -/
def Undisputed (counter : Counter) (table : Table) : Prop :=
  ∀ key, counter.group.Finds table key → counter.Owns key

/-- Nobody sets or inserts fields that name the owner in the collection.  The phases
of the counter are no such steps. -/
def Spares (counter : Counter) (action : Action PendingIncrement Increment) : Prop :=
  ∀ key fields, action.Puts key fields → key.collection = counter.group.collection →
    ¬ (Document.mk fields).names counter.group.owner = true

/-- Moving the clock and the like stores nothing. -/
theorem spares_surround (counter : Counter) {change : Env Unit → Env Unit}
    (h : ∀ env, (change env).store = env.store) :
    counter.Spares (.request (Op.surround change)) := by
  intro key fields hputs
  generalize heq : (Action.request (Op.surround change) :
    Action PendingIncrement Increment) = action at hputs
  cases hputs with
  | set => cases heq
  | insert key document =>
    -- Seen from an empty store, an insertion leaves a document.
    have hleft := congrArg (fun op => (op.runIn { user := () }).2.store.table.get? key)
      (Action.request.inj heq)
    have hnone : ((Op.surround change).runIn { user := () }).2.store.table.get? key = none :=
      congrArg (fun store : Store => store.table.get? key) (h { user := () })
    have hsome : ((Op.insert key document).runIn ({ user := () } : Env Unit)).2.store.table.get?
        key = some ⟨1, document⟩ := (Table.get?_put ..).trans (if_pos rfl)
    cases hnone.symm.trans (hleft.trans hsome)

/-- If the write puts the owner's name into a document of the collection, then into
a shard. -/
def Proper (counter : Counter) (entry : DocKey × Write) : Prop :=
  entry.1.collection = counter.group.collection → entry.2.Names counter.group.owner →
    counter.Owns entry.1

/-- All that a write phase writes is under the keys of shards. -/
theorem Placed.proper {counter : Counter} {token : PendingIncrement}
    (h : counter.Placed token) (value : Int64) :
    ∀ entry ∈ counter.incrementWrites token value, counter.Proper entry := by
  intro entry hentry _ _
  obtain ⟨shard, hshard, rfl⟩ := List.mem_map.mp hentry
  exact ⟨shard.level, token.time, token.index, (of_places h hshard).2⟩

/-! ## The invariant -/

/-- What a run keeps in which nobody else stores the owner's name. -/
structure Guarded (counter : Counter) (s : Session PendingIncrement Increment) : Prop where
  undisputed : counter.Undisputed s.table
  buffered : ∀ id attempt, s.attempts id = some attempt →
    ∀ entry ∈ attempt.writes, counter.Proper entry
  placed : ∀ token ∈ s.tokens, counter.Placed token

namespace Guarded

variable {counter : Counter} {s : Session PendingIncrement Increment}

theorem of_starts (h : counter.protocol.Starts s) (hundisputed : counter.Undisputed s.table) :
    counter.Guarded s := by
  refine ⟨hundisputed, fun id attempt hheld => ?_, by simp [h.tokens]⟩
  simp [h.attempts] at hheld

/-- The surroundings of the table don't matter. -/
theorem of_table_eq (h : counter.Guarded s) {env : Env Unit} (htable : env.store.table = s.table) :
    counter.Guarded { s with env } := by
  refine ⟨?_, h.buffered, h.placed⟩
  show counter.Undisputed env.store.table
  rw [htable]
  exact h.undisputed

/-- One document changes, and does not name the owner then. -/
theorem of_kept (h : counter.Guarded s) {env : Env Unit} (key : DocKey)
    (hkept : ∀ other, key ≠ other → env.store.table.get? other = s.table.get? other)
    (hkey : ¬ counter.group.Finds env.store.table key) : counter.Guarded { s with env } := by
  refine ⟨fun other hfinds => ?_, h.buffered, h.placed⟩
  have hne : key ≠ other := by
    rintro rfl
    exact hkey hfinds
  exact h.undisputed other ((ShardGroup.Finds.congr (hkept other hne)).mp hfinds)

theorem setAttempt (h : counter.Guarded s) (id : UInt64) (later : Attempt)
    (hlater : ∀ entry ∈ later.writes, counter.Proper entry) :
    counter.Guarded (s.setAttempt id later) := by
  refine ⟨h.undisputed, fun other held hheld => ?_, h.placed⟩
  rw [attempts_setAttempt] at hheld
  split at hheld
  · cases hheld
    exact hlater
  · exact h.buffered other held hheld

/-- An operation inside an attempt that leaves the table, and of which every write
is proper. -/
theorem inside (h : counter.Guarded s) {id : UInt64} {attempt later : Attempt} {env : Env Unit}
    (hheld : s.attempts id = some attempt) (hstore : env.store = s.env.store)
    (hlater : ∀ entry ∈ later.writes, entry ∈ attempt.writes ∨ counter.Proper entry) :
    counter.Guarded ({ s with env }.setAttempt id later) := by
  refine (h.of_table_eq (congrArg Store.table hstore)).setAttempt id later fun entry hentry => ?_
  rcases hlater entry hentry with hold | hnew
  · exact h.buffered id attempt hheld entry hold
  · exact hnew

/-! ## One lemma for each step -/

theorem stepBegin (h : counter.Guarded s) : counter.Guarded s.stepBegin := by
  rcases s.stepBegin_cases with hsame | ⟨env, hdb, hstep⟩
  · rw [hsame]
    exact h
  · have htable : env.store.table = s.table := by
      rw [Store.table, hdb]
      rfl
    rw [hstep]
    have hset := (h.of_table_eq htable).setAttempt s.db.nextId { id := s.db.nextId }
      fun _ hentry => absurd hentry List.not_mem_nil
    exact ⟨hset.undisputed, hset.buffered, hset.placed⟩

theorem stepCommit (h : counter.Guarded s) (id : UInt64) : counter.Guarded (s.stepCommit id) := by
  rcases s.stepCommit_cases id with
    hsame | ⟨attempt, hheld, env, ⟨changed, hdb, hchanged, hstep⟩ | ⟨hcommits, hstep⟩⟩
  · rw [hsame]
    exact h
  · rw [hstep]
    refine (h.of_table_eq (congrArg Database.table hdb)).setAttempt id changed ?_
    rcases hchanged with rfl | ⟨reason, rfl⟩
    · exact h.buffered id _ hheld
    · exact fun _ hentry => absurd hentry List.not_mem_nil
  · rw [hstep]
    have hwrites := h.buffered id attempt hheld
    have hleft : counter.Guarded { s with env } := by
      refine ⟨fun key hfinds => ?_, h.buffered, h.placed⟩
      rcases hcommits.names hfinds.2 with hbefore | ⟨write, hwrite, hput⟩
      · exact h.undisputed key ⟨hfinds.1, hbefore⟩
      · exact hwrites (key, write) hwrite hfinds.1 hput
    have hset := hleft.setAttempt id { attempt with status := .committed } hwrites
    exact ⟨hset.undisputed, hset.buffered, hset.placed⟩

theorem stepAbort (h : counter.Guarded s) (id : UInt64) (reason : String) :
    counter.Guarded (s.stepAbort id reason) := by
  rcases s.stepAbort_cases id reason with hsame | ⟨attempt, hheld, env, hdb, hstep⟩
  · rw [hsame]
    exact h
  · rw [hstep]
    exact (h.of_table_eq (congrArg Database.table hdb)).setAttempt id _
      fun _ hentry => absurd hentry List.not_mem_nil

theorem stepRead (h : counter.Guarded s) (id : UInt64) {phase : TxOp Unit PendingIncrement}
    (hphase : counter.protocol.Reads phase) : counter.Guarded (s.step (.read id phase)) := by
  rw [Session.step]
  rcases s.inside_cases id phase Session.keepToken with
    hsame | ⟨attempt, hheld, outcome, later, left, hrun, hstep⟩
  · rw [hsame]
    exact h
  · rw [hstep]
    obtain ⟨hstore, hreads, htoken⟩ := counter.law.read hphase hrun
    have hset : counter.Guarded ({ s with env := left }.setAttempt id later) :=
      h.inside hheld hstore fun entry hentry => .inl (hreads.writes ▸ hentry)
    cases outcome with
    | error error => exact hset
    | ok token =>
      obtain ⟨-, ⟨hplaced, -⟩, -⟩ := htoken token rfl
      refine ⟨hset.undisputed, hset.buffered, fun other hother => ?_⟩
      rcases List.mem_append.mp hother with hold | hnew
      · exact hset.placed other hold
      · rw [List.mem_singleton.mp hnew]
        exact hplaced

theorem stepWrite (h : counter.Guarded s) (id : UInt64) {phase : TxOp Unit Increment}
    (hphase : counter.protocol.Writes s.tokens phase) :
    counter.Guarded (s.step (.write id phase)) := by
  rw [Session.step]
  rcases s.inside_cases id phase (Session.keepDraft id) with
    hsame | ⟨attempt, hheld, outcome, later, left, hrun, hstep⟩
  · rw [hsame]
    exact h
  · rw [hstep]
    obtain ⟨hstore, hcases⟩ := counter.law.write hphase hrun
    rcases hcases with ⟨⟨error, rfl⟩, rfl⟩ | ⟨increment, writes, rfl, rfl, hbacked⟩
    · exact h.inside hheld hstore fun entry hentry => .inl hentry
    · obtain ⟨token, htoken, value, -, -, -, rfl⟩ := hbacked
      have hset : counter.Guarded ({ s with env := left }.setAttempt id { attempt with
          writes := attempt.writes ++ counter.incrementWrites token value }) :=
        h.inside hheld hstore fun entry hentry => (List.mem_append.mp hentry).imp_right
          ((h.placed token htoken).proper value entry)
      exact ⟨hset.undisputed, hset.buffered, hset.placed⟩

/-- A request of others to an attempt, which buffers a proper write. -/
theorem stepChange (h : counter.Guarded s) (id : UInt64)
    {request : Attempt → Except Error Attempt}
    (hrequest : ∀ attempt later, request attempt = .ok later → ∃ entry, counter.Proper entry ∧
      later = { attempt with writes := attempt.writes ++ [entry] }) :
    counter.Guarded (s.step (.touch id (TxOp.change request))) := by
  rcases s.step_change_cases id request with hsame | ⟨attempt, hheld, later, hlater, hstep⟩
  · rw [hsame]
    exact h
  · rw [hstep]
    refine h.inside hheld rfl fun entry hentry => ?_
    rcases hlater with rfl | hlater
    · exact .inl hentry
    · obtain ⟨last, hproper, rfl⟩ := hrequest attempt later hlater
      rcases List.mem_append.mp hentry with hold | hlast
      · exact .inl hold
      · rw [List.mem_singleton.mp hlast]
        exact .inr hproper

theorem stepGet (h : counter.Guarded s) (id : UInt64) (key : DocKey) :
    counter.Guarded (s.step (.touch id ((fun _ => ()) <$> TxOp.get key))) := by
  rcases s.step_get_cases id key with hsame | ⟨attempt, hheld, later, hreads, hstep⟩
  · rw [hsame]
    exact h
  · rw [hstep]
    exact h.inside hheld rfl fun entry hentry => .inl (hreads.writes ▸ hentry)

theorem stepInsert (h : counter.Guarded s) {key : DocKey} {document : Document}
    (hspares : key.collection = counter.group.collection →
      ¬ document.names counter.group.owner = true) :
    counter.Guarded (s.step (.request (Op.insert key document))) := by
  rcases s.step_insert_cases key document with hsame | ⟨env, hdb, hstep⟩
  · rw [hsame]
    exact h
  · rw [hstep]
    have hput : ∀ other, env.store.table.get? other =
        if key = other then some ⟨s.db.version + 1, document⟩ else s.table.get? other := by
      intro other
      rw [Store.table, hdb]
      exact Table.get?_put ..
    refine h.of_kept key (fun other hne => (hput other).trans (if_neg hne)) ?_
    rintro ⟨hcollection, made, hmade, hnames⟩
    rw [Table.document?, hput, if_pos rfl] at hmade
    cases hmade
    exact hspares hcollection hnames

theorem stepRemove (h : counter.Guarded s) (ctx : Context) (key : DocKey) :
    counter.Guarded (s.step (.request (Op.delete ctx key))) := by
  rcases s.step_remove_cases ctx key with hsame | ⟨env, hdb, hstep⟩
  · rw [hsame]
    exact h
  · rw [hstep]
    have hremoved : ∀ other, env.store.table.get? other =
        if key = other then none else s.table.get? other := by
      intro other
      rw [Store.table, hdb]
      exact Table.get?_remove ..
    refine h.of_kept key (fun other hne => (hremoved other).trans (if_neg hne)) ?_
    exact fun hfinds => hfinds.get? ((hremoved key).trans (if_pos rfl))

/-! ## The step lemma -/

/-- Every step that spares the owner keeps the invariant. -/
theorem step {action : Action PendingIncrement Increment} (h : counter.Guarded s)
    (allowed : counter.protocol.Allows s action) (spares : counter.Spares action) :
    counter.Guarded (s.step action) := by
  cases allowed with
  | begin => exact h.stepBegin
  | read id hphase => exact h.stepRead id hphase
  | write id hphase _ => exact h.stepWrite id hphase
  | commit id => exact h.stepCommit id
  | abort id reason => exact h.stepAbort id reason
  | get id key => exact h.stepGet id key
  | @set id key fields merge hkey =>
    refine h.stepChange id fun attempt later hlater => ⟨(key, .set fields merge), ?_, ?_⟩
    · intro hcollection hnames
      exact absurd hnames (spares _ _ (.set id key fields merge) hcollection)
    · exact (Attempt.buffer_eq_ok hlater).2
  | @increment id key field delta hkey =>
    refine h.stepChange id fun attempt later hlater => ⟨(key, .increment field delta), ?_, ?_⟩
    · rintro - ⟨-, rfl⟩
      cases (Attempt.increment_eq_ok hlater).1
    · exact (Attempt.increment_eq_ok hlater).2.2
  | @delete id key hkey =>
    refine h.stepChange id fun attempt later hlater => ⟨(key, .delete), ?_, ?_⟩
    · exact fun _ hnames => hnames.elim
    · exact (Attempt.buffer_eq_ok hlater).2
  | @insert key document hkey => exact h.stepInsert (spares _ _ (.insert key document))
  | @remove ctx key hkey => exact h.stepRemove ctx key
  | close => exact h.of_table_eq rfl
  | pause delay => exact h.of_table_eq rfl
  | surround change hstore => exact h.of_table_eq (congrArg Store.table (hstore s.env))

end Guarded

/-- In every state of a run in which nobody else stores the owner's name, only
shards name the owner. -/
theorem undisputed_of_reachesBy {counter : Counter} {start s : Session PendingIncrement Increment}
    (hstart : counter.protocol.Starts start) (hundisputed : counter.Undisputed start.table)
    (h : counter.protocol.ReachesBy counter.Spares start s) : counter.Undisputed s.table :=
  (h.rec_steps (motive := counter.Guarded) (.of_starts hstart hundisputed)
    fun allowed spares hguarded => hguarded.step allowed spares).undisputed

end Counter

end Shardwise
