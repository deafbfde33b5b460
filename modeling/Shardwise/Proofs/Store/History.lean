import Shardwise.Proofs.Store.Operations

/-!
# The history of a store

A store changes only by requests: attempts begin, commit and are aborted, documents
are inserted and removed, the store is closed.  `Store.Step` is one request that the
store takes, together with the events that others can tell from it, and `Store.Runs`
is any sequence of them with their history.  An attempt that is committed may come
from anywhere and hold any writes, so attempts interleave in every order.

* `Store.Runs.numbered` says that attempts are numbered one after the other, and
  `Store.Runs.nextId_notMem` that the next number was never given out.
* `Op.Drives` and `TxOp.Proper` are the operations that do to a store what requests
  do, and nothing else.  A sequence of such operations is one again.
-/

namespace Shardwise

/-- What others can tell from a request that a store took. -/
inductive Event where
  /-- An attempt began. -/
  | began (id : UInt64)
  /-- A document was stored outside attempts. -/
  | inserted (key : DocKey) (document : Document)
  /-- A document was removed outside attempts, if there was one. -/
  | removed (key : DocKey)
  /-- An attempt with some writes was committed. -/
  | committed (writes : List (DocKey × Write))

namespace Event

/-- The numbers of the attempts that began, the earliest first. -/
def numbers (events : List Event) : List UInt64 :=
  events.filterMap fun event =>
    match event with
    | .began id => some id
    | _ => none

@[simp] theorem numbers_append (first second : List Event) :
    numbers (first ++ second) = numbers first ++ numbers second :=
  List.filterMap_append

end Event

namespace Store

/-- One request that a store takes, and its events.  Other requests fail and leave
the store as it is. -/
inductive Step : Store → List Event → Store → Prop
  | begin {store left : Store} {attempt : Attempt} (h : store.begin = .ok (attempt, left)) :
      Step store [.began attempt.id] left
  | insert {store left : Store} {key : DocKey} {document : Document}
      (h : store.insert key document = .ok left) : Step store [.inserted key document] left
  | delete {store left : Store} {key : DocKey} (h : store.delete key = .ok left) :
      Step store [.removed key] left
  | commit {store left : Store} {attempt committed : Attempt} {version : UInt64}
      (h : store.commit attempt = (.ok version, committed, left)) :
      Step store [.committed attempt.writes] left
  /-- A commit that fails may count the attempt as aborted. -/
  | fail {store left : Store} {attempt changed : Attempt} {error : Error}
      (h : store.commit attempt = (.error error, changed, left)) : Step store [] left
  | abort {store left : Store} {attempt aborted : Attempt} {reason : String}
      (h : store.abort attempt reason = .ok (aborted, left)) : Step store [] left
  | close (store : Store) : Step store [] store.close
  | retry (store : Store) : Step store [] store.countRetried

/-- The stores that requests lead to, with the events of the way. -/
inductive Runs (start : Store) : List Event → Store → Prop
  | start : Runs start [] start
  | step {events more : List Event} {store left : Store} (before : Runs start events store)
      (next : Step store more left) : Runs start (events ++ more) left

variable {store midway left : Store} {events more : List Event}

theorem Runs.trans (h : Runs store events midway) (h' : Runs midway more left) :
    Runs store (events ++ more) left := by
  induction h' with
  | start => rwa [List.append_nil]
  | step _ next ih =>
    rw [← List.append_assoc]
    exact ih.step next

theorem Step.runs (h : Step store events left) : Runs store events left := Runs.start.step h

/-! ## What requests do -/

/-- The store after an attempt has begun. -/
def begun (store : Store) : Store :=
  { store with
    database := { store.database with nextId := store.database.nextId + 1 }
    stats := { store.stats with started := store.stats.started + 1 } }

/-- Attempts begin in an open store, with the next number. -/
theorem begin_eq_ok {attempt : Attempt} (h : store.begin = .ok (attempt, left)) :
    store.isOpen = true ∧ attempt = { id := store.database.nextId } ∧ left = store.begun := by
  unfold begin ensureOpen at h
  cases hopen : store.isOpen with
  | false =>
    rw [hopen] at h
    cases h
  | true =>
    rw [hopen] at h
    cases h
    exact ⟨rfl, rfl, by rw [begun, hopen]⟩

theorem begin_open (h : store.isOpen = true) :
    store.begin = .ok ({ id := store.database.nextId }, store.begun) := by
  rw [begin, ensureOpen, h, begun, h]
  rfl

theorem ensureOpen_eq_ok (h : store.ensureOpen = .ok ()) : store.isOpen = true := by
  cases hopen : store.isOpen with
  | false =>
    rw [ensureOpen, hopen] at h
    cases h
  | true => rfl

/-- An insertion changes the database alone. -/
theorem insert_eq_ok {key : DocKey} {document : Document}
    (h : store.insert key document = .ok left) :
    left = { store with database := { store.database with
      version := store.database.version + 1
      table := store.table.put key document (store.database.version + 1) } } := by
  unfold insert ensureOpen at h
  cases hopen : store.isOpen <;> rw [hopen] at h <;> cases h
  rw [← hopen]
  rfl

/-- So does a removal, if there is something to remove. -/
theorem delete_eq_ok {key : DocKey} (h : store.delete key = .ok left) :
    (left = store ∧ store.table.get? key = none) ∨
      left = { store with database := { store.database with
        version := store.database.version + 1, table := store.table.remove key } } := by
  unfold delete ensureOpen at h
  cases hopen : store.isOpen with
  | false =>
    rw [hopen] at h
    cases h
  | true =>
    rw [hopen] at h
    cases hstored : store.table.get? key with
    | none =>
      simp only [hstored] at h
      cases h
      exact .inl ⟨rfl, rfl⟩
    | some stored =>
      simp only [hstored] at h
      cases h
      rw [← hopen]
      exact .inr rfl

/-- A commit begins no attempts. -/
theorem commit_numbers (store : Store) (attempt : Attempt) :
    (store.commit attempt).2.2.stats.started = store.stats.started ∧
      (store.commit attempt).2.2.database.nextId = store.database.nextId := by
  constructor
  · unfold commit ensureOpen
    cases store.isOpen with
    | false => rfl
    | true =>
      dsimp only [if_true]
      rcases store.database.commit attempt with ⟨error | version, changed, left⟩
      · cases error <;> rfl
      · rfl
  · rcases store.commit_cases attempt with
      ⟨error, changed, left, hcommit, hsame, -⟩ | ⟨version, left, hcommit, -, hcommits⟩
    · rw [hcommit]
      exact congrArg Database.nextId hsame
    · rw [hcommit]
      exact hcommits.nextId

/-- An abort is counted, and nothing else happens to the store. -/
theorem abort_eq_ok {attempt aborted : Attempt} {reason : String}
    (h : store.abort attempt reason = .ok (aborted, left)) : left = store.countAborted := by
  unfold abort at h
  cases hmark : attempt.markAborted reason with
  | error error =>
    rw [hmark] at h
    cases h
  | ok later =>
    rw [hmark] at h
    cases h
    rfl

/-- An abort of an active attempt succeeds. -/
theorem abort_active (store : Store) {attempt : Attempt} (h : attempt.isActive = true)
    (reason : String) :
    ∃ aborted, store.abort attempt reason = .ok (aborted, store.countAborted) := by
  have hstatus : attempt.status = .active := by
    rw [Attempt.isActive] at h
    exact eq_of_beq h
  rw [abort, Attempt.markAborted, hstatus]
  exact ⟨_, rfl⟩

/-! ## Numbers of attempts -/

/-- A request begins an attempt with the next number, or none. -/
theorem Step.numbered (h : Step store events left) :
    (Event.numbers events = [store.database.nextId] ∧
        left.stats.started = store.stats.started + 1 ∧
        left.database.nextId = store.database.nextId + 1) ∨
      (Event.numbers events = [] ∧ left.stats.started = store.stats.started ∧
        left.database.nextId = store.database.nextId) := by
  cases h with
  | begin h =>
    obtain ⟨-, rfl, rfl⟩ := begin_eq_ok h
    exact .inl ⟨rfl, rfl, rfl⟩
  | insert h =>
    rw [insert_eq_ok h]
    exact .inr ⟨rfl, rfl, rfl⟩
  | delete h =>
    rcases delete_eq_ok h with ⟨rfl, -⟩ | rfl <;> exact .inr ⟨rfl, rfl, rfl⟩
  | @commit _ attempt _ _ h | @fail _ attempt _ _ h =>
    have hnumbers := store.commit_numbers attempt
    rw [h] at hnumbers
    exact .inr ⟨rfl, hnumbers⟩
  | abort h =>
    rw [abort_eq_ok h]
    exact .inr ⟨rfl, rfl, rfl⟩
  | close | retry => exact .inr ⟨rfl, rfl, rfl⟩

/-- Attempts are counted, and numbered one after the other. -/
theorem Runs.numbered (h : Runs store events left) :
    left.stats.started = store.stats.started + (Event.numbers events).length ∧
      left.database.nextId =
        store.database.nextId + UInt64.ofNat (Event.numbers events).length ∧
      Event.numbers events = (List.range (Event.numbers events).length).map fun turn =>
        store.database.nextId + UInt64.ofNat turn := by
  induction h with
  | start => exact ⟨rfl, (UInt64.add_zero _).symm, rfl⟩
  | @step events more midway left before next ih =>
    obtain ⟨hstarted, hnext, hnumbers⟩ := ih
    rw [Event.numbers_append, List.length_append]
    rcases next.numbered with ⟨hmore, hstarted', hnext'⟩ | ⟨hmore, hstarted', hnext'⟩
    · rw [hmore, hstarted', hnext', hstarted, hnext, List.length_singleton, UInt64.ofNat_add,
        List.range_succ, List.map_append, ← hnumbers]
      exact ⟨rfl, UInt64.add_assoc _ _ _, by simp⟩
    · rw [hmore, hstarted', hnext', List.append_nil]
      exact ⟨hstarted, hnext, hnumbers⟩

/-- The next number was never given out, as long as the word that counts attempts
lasts. -/
theorem Runs.nextId_notMem (h : Runs store events left)
    (room : (Event.numbers events).length < UInt64.size) :
    left.database.nextId ∉ Event.numbers events := by
  obtain ⟨-, hnext, hnumbers⟩ := h.numbered
  intro hmem
  rw [hnumbers, List.mem_map] at hmem
  obtain ⟨turn, hturn, heq⟩ := hmem
  rw [List.mem_range] at hturn
  rw [hnext, UInt64.add_right_inj] at heq
  have hnat := congrArg UInt64.toNat heq
  rw [UInt64.toNat_ofNat_of_lt' (Nat.lt_trans hturn room), UInt64.toNat_ofNat_of_lt' room] at hnat
  omega

end Store

/-! ## Operations that make requests -/

/-- What becomes of an attempt by reads and writes. -/
inductive Attempt.Evolves (attempt : Attempt) : Attempt → Prop
  | refl : Evolves attempt attempt
  | get {between later : Attempt} {table : Table} {key : DocKey} {read : Option Document}
      (before : Evolves attempt between) (h : between.get table key = .ok (read, later)) :
      Evolves attempt later
  | buffer {between later : Attempt} {key : DocKey} {write : Write}
      (before : Evolves attempt between) (h : between.buffer key write = .ok later) :
      Evolves attempt later

namespace Attempt.Evolves

variable {attempt between later : Attempt}

theorem trans (h : attempt.Evolves between) (h' : between.Evolves later) :
    attempt.Evolves later := by
  induction h' with
  | refl => exact h
  | get _ hget ih => exact ih.get hget
  | buffer _ hbuffer ih => exact ih.buffer hbuffer

/-- Number and status stay as they are. -/
theorem same (h : attempt.Evolves later) :
    later.id = attempt.id ∧ later.status = attempt.status := by
  induction h with
  | refl => exact ⟨rfl, rfl⟩
  | get _ hget ih =>
    obtain ⟨-, -, -, ⟨hid, hstatus, -⟩, -⟩ := get_eq_ok hget
    exact ⟨hid.trans ih.1, hstatus.trans ih.2⟩
  | buffer _ hbuffer ih =>
    obtain ⟨-, rfl⟩ := buffer_eq_ok hbuffer
    exact ih

end Attempt.Evolves

variable {υ α β : Type}

/-- What the operation does to the store is a sequence of requests. -/
def Op.Drives (op : Op υ α) : Prop :=
  ∀ env : Env υ, ∃ events, env.store.Runs events (op.runIn env).2.store

namespace Op.Drives

/-- An operation that leaves the store as it is. -/
theorem of_store_eq {op : Op υ α} (h : ∀ env, (op.runIn env).2.store = env.store) :
    op.Drives := by
  intro env
  rw [h env]
  exact ⟨[], .start⟩

theorem bind {op : Op υ α} {next : α → Op υ β} (h : op.Drives)
    (hnext : ∀ value, (next value).Drives) : (op >>= next).Drives := by
  intro env
  obtain ⟨events, hevents⟩ := h env
  rw [runIn_bind]
  rcases hop : op.runIn env with ⟨error | value, midway⟩
  · rw [hop] at hevents
    exact ⟨events, hevents⟩
  · rw [hop] at hevents
    obtain ⟨more, hmore⟩ := hnext value midway
    exact ⟨events ++ more, hevents.trans hmore⟩

theorem insert (key : DocKey) (document : Document) :
    (Op.insert key document : Op υ Unit).Drives := by
  intro env
  rw [Op.insert, runIn_change]
  cases h : env.store.insert key document with
  | error error => exact ⟨[], .start⟩
  | ok left => exact ⟨_, (Store.Step.insert h).runs⟩

end Op.Drives

/-- The operation changes its own attempt by reads and writes alone, and the store by
any requests. -/
structure TxOp.Proper (op : TxOp υ α) : Prop where
  evolves : ∀ (attempt : Attempt) (env : Env υ), attempt.Evolves (op.runIn attempt env).2.1
  drives : ∀ (attempt : Attempt) (env : Env υ), ∃ events,
    env.store.Runs events (op.runIn attempt env).2.2.store

namespace TxOp.Proper

theorem ofOp {op : Op υ α} (h : op.Drives) : (TxOp.ofOp op).Proper :=
  ⟨fun _ _ => .refl, fun _ env => h env⟩

theorem pure (value : α) : (Pure.pure value : TxOp υ α).Proper :=
  ⟨fun _ _ => .refl, fun _ _ => ⟨[], .start⟩⟩

/-- An operation that leaves the store as it is. -/
theorem of_store_eq {op : TxOp υ α}
    (hattempt : ∀ (attempt : Attempt) (env : Env υ), attempt.Evolves (op.runIn attempt env).2.1)
    (hstore : ∀ (attempt : Attempt) (env : Env υ),
      (op.runIn attempt env).2.2.store = env.store) : op.Proper := by
  constructor
  · exact hattempt
  · intro attempt env
    rw [hstore attempt env]
    exact ⟨[], .start⟩

theorem get (key : DocKey) : (TxOp.get key : TxOp υ (Option Document)).Proper := by
  apply of_store_eq <;> intro attempt env <;> rw [runIn_get] <;>
    rcases h : attempt.get env.store.table key with error | ⟨read, later⟩
  · exact .refl
  · exact Attempt.Evolves.refl.get h
  · rfl
  · rfl

theorem buffer (key : DocKey) (write : Write) :
    (TxOp.change (·.buffer key write) : TxOp υ Unit).Proper := by
  apply of_store_eq <;> intro attempt env <;> rw [runIn_change] <;>
    rcases h : attempt.buffer key write with error | later
  · exact .refl
  · exact Attempt.Evolves.refl.buffer h
  · rfl
  · rfl

theorem bind {op : TxOp υ α} {next : α → TxOp υ β} (h : op.Proper)
    (hnext : ∀ value, (next value).Proper) : (op >>= next).Proper := by
  constructor
  · intro attempt env
    have hfirst := h.evolves attempt env
    rw [runIn_bind]
    rcases hop : op.runIn attempt env with ⟨error | value, between, midway⟩
    · rw [hop] at hfirst
      exact hfirst
    · rw [hop] at hfirst
      exact hfirst.trans ((hnext value).evolves between midway)
  · intro attempt env
    obtain ⟨events, hfirst⟩ := h.drives attempt env
    rw [runIn_bind]
    rcases hop : op.runIn attempt env with ⟨error | value, between, midway⟩
    · rw [hop] at hfirst
      exact ⟨events, hfirst⟩
    · rw [hop] at hfirst
      obtain ⟨more, hmore⟩ := (hnext value).drives between midway
      exact ⟨events ++ more, hfirst.trans hmore⟩

end TxOp.Proper

end Shardwise
