import Shardwise.Proofs.Store.Version
import Shardwise.Store.Request

/-!
# Operations that only read

`TxOp.ReadsOnly` says that an operation inside an attempt leaves the store as it
is, and that all it does to the attempt is to record versions.  A sequence of such
operations is one again (`ReadsOnly.bind`), whether or not it fails on the way, so
that a read phase is checked part by part.

`TxOp.runIn_bind_eq_ok` takes a sequence that succeeded apart.
-/

namespace Shardwise

/-- No two entries of a table have the same key. -/
theorem Table.nodup_toList (table : Table) : (table.toList.map Prod.fst).Nodup := by
  rw [toList, Std.ExtTreeMap.map_fst_toList_eq_keys]
  exact Std.ExtTreeMap.nodup_keys

/-- No two documents of a scan have the same key. -/
theorem Table.nodup_scan (table : Table) (collection field : String) (value : Value) :
    ((table.scan collection field value).map Prod.fst).Nodup := by
  rw [scan, List.map_map]
  exact table.nodup_toList.sublist (List.filter_sublist.map _)

@[simp] theorem withStoreContext_ok {α : Type} (operation owner : String) (key : DocKey)
    (value : α) : withStoreContext operation owner key (.ok value) = .ok value := rfl

@[simp] theorem withStoreContext_error {α : Type} (operation owner : String) (key : DocKey)
    (error : Error) : withStoreContext operation owner key (.error error : Except Error α) =
      .error (error.withStoreContext operation owner key) := rfl

/-- A sequence succeeds when both of its parts do. -/
theorem Op.runIn_bind_eq_ok {υ α β : Type} {op : Op υ α} {next : α → Op υ β} {env left : Env υ}
    {result : β} :
    (op >>= next).runIn env = (.ok result, left) ↔
      ∃ value midway, op.runIn env = (.ok value, midway) ∧
        (next value).runIn midway = (.ok result, left) := by
  rw [runIn_bind]
  rcases op.runIn env with ⟨error | value, midway⟩
  · simp
  · constructor
    · intro h
      exact ⟨value, midway, rfl, h⟩
    · rintro ⟨_, _, heq, h⟩
      cases heq
      exact h

namespace TxOp

variable {υ α β : Type}

/-! ## Sequences that succeed -/

/-- A sequence succeeds when both of its parts do. -/
theorem runIn_bind_eq_ok {op : TxOp υ α} {next : α → TxOp υ β} {attempt later : Attempt}
    {env left : Env υ} {result : β} :
    (op >>= next).runIn attempt env = (.ok result, later, left) ↔
      ∃ value between midway, op.runIn attempt env = (.ok value, between, midway) ∧
        (next value).runIn between midway = (.ok result, later, left) := by
  rw [runIn_bind]
  rcases op.runIn attempt env with ⟨error | value, between, midway⟩
  · simp
  · constructor
    · intro h
      exact ⟨value, between, midway, rfl, h⟩
    · rintro ⟨_, _, _, heq, h⟩
      cases heq
      exact h

theorem runIn_ofExcept_eq_ok {outcome : Except Error α} {attempt later : Attempt}
    {env left : Env υ} {result : α} :
    (ofExcept outcome).runIn attempt env = (.ok result, later, left) ↔
      outcome = .ok result ∧ later = attempt ∧ left = env := by
  rw [runIn_ofExcept]
  constructor
  · intro h
    cases h
    exact ⟨rfl, rfl, rfl⟩
  · rintro ⟨rfl, rfl, rfl⟩
    rfl

/-- What is added to a store error does not matter to success. -/
theorem runIn_withContext_eq_ok {operation owner : String} {key : DocKey} {op : TxOp υ α}
    {attempt later : Attempt} {env left : Env υ} {result : α} :
    (withContext operation owner key op).runIn attempt env = (.ok result, later, left) ↔
      op.runIn attempt env = (.ok result, later, left) := by
  rw [runIn_withContext]
  rcases op.runIn attempt env with ⟨error | value, between, midway⟩ <;> simp

/-- A result in another form is there when the result is. -/
theorem runIn_map_eq_ok {f : α → β} {op : TxOp υ α} {attempt later : Attempt}
    {env left : Env υ} {result : β} :
    (f <$> op).runIn attempt env = (.ok result, later, left) ↔
      ∃ value, op.runIn attempt env = (.ok value, later, left) ∧ f value = result := by
  rw [runIn_map]
  rcases op.runIn attempt env with ⟨error | value, between, midway⟩
  · simp
  · constructor
    · intro h
      cases h
      exact ⟨value, rfl, rfl⟩
    · rintro ⟨_, heq, rfl⟩
      cases heq
      rfl

theorem exists_of_map_eq_ok {f : α → β} {op : TxOp υ α} {attempt : Attempt} {env : Env υ}
    {result : β} (h : ((f <$> op).runIn attempt env).1 = .ok result) :
    ∃ value, (op.runIn attempt env).1 = .ok value ∧ f value = result := by
  rw [runIn_map] at h
  rcases hrun : op.runIn attempt env with ⟨error | value, later, left⟩ <;> rw [hrun] at h
  · cases h
  · exact ⟨value, rfl, Except.ok.inj h⟩

@[simp] theorem runIn_discard (op : TxOp υ α) (attempt : Attempt) (env : Env υ) :
    (discard op).runIn attempt env =
      match op.runIn attempt env with
      | (.ok _, attempt, env) => (.ok (), attempt, env)
      | (.error error, attempt, env) => (.error error, attempt, env) :=
  runIn_map (fun _ => ()) op attempt env

/-- A read that succeeds returns the document that is in the table. -/
theorem runIn_get_eq_ok {key : DocKey} {attempt later : Attempt} {env left : Env υ}
    {read : Option Document} (h : (get key).runIn attempt env = (.ok read, later, left)) :
    left = env ∧ read = env.store.table.document? key ∧
      ∃ version, later.reads[key]? = some version := by
  rw [runIn_get] at h
  rcases hget : attempt.get env.store.table key with error | ⟨document, changed⟩
  · rw [hget] at h
    cases h
  · rw [hget] at h
    cases h
    obtain ⟨-, -, hread, -, hrecorded⟩ := Attempt.get_eq_ok hget
    exact ⟨rfl, hread, hrecorded⟩

/-! ## Operations that only read -/

/-- The operation leaves the store as it is, and what it does to the attempt is
reading. -/
def ReadsOnly (op : TxOp υ α) : Prop :=
  ∀ attempt env, (op.runIn attempt env).2.2.store = env.store ∧
    Attempt.Reads env.store.table attempt (op.runIn attempt env).2.1

theorem ReadsOnly.store_eq {op : TxOp υ α} (h : op.ReadsOnly) {attempt later : Attempt}
    {env left : Env υ} {outcome : Except Error α}
    (hrun : op.runIn attempt env = (outcome, later, left)) : left.store = env.store := by
  have hstore := (h attempt env).1
  rwa [hrun] at hstore

theorem ReadsOnly.reads {op : TxOp υ α} (h : op.ReadsOnly) {attempt later : Attempt}
    {env left : Env υ} {outcome : Except Error α}
    (hrun : op.runIn attempt env = (outcome, later, left)) :
    Attempt.Reads env.store.table attempt later := by
  have hreads := (h attempt env).2
  rwa [hrun] at hreads

/-- An operation that leaves store and attempt as they are. -/
theorem ReadsOnly.of_eq {op : TxOp υ α}
    (h : ∀ attempt env, (op.runIn attempt env).2.1 = attempt ∧
      (op.runIn attempt env).2.2.store = env.store) : op.ReadsOnly := by
  intro attempt env
  obtain ⟨hattempt, hstore⟩ := h attempt env
  refine ⟨hstore, ?_⟩
  rw [hattempt]
  exact .refl _ _

theorem ReadsOnly.pure (value : α) : ReadsOnly (pure value : TxOp υ α) :=
  .of_eq fun _ _ => ⟨rfl, rfl⟩

theorem ReadsOnly.ofExcept (outcome : Except Error α) :
    ReadsOnly (ofExcept outcome : TxOp υ α) :=
  .of_eq fun _ _ => ⟨rfl, rfl⟩

theorem ReadsOnly.attempt : ReadsOnly (attempt : TxOp υ Attempt) :=
  .of_eq fun _ _ => ⟨rfl, rfl⟩

theorem ReadsOnly.env : ReadsOnly (env : TxOp υ (Env υ)) :=
  .of_eq fun _ _ => ⟨rfl, rfl⟩

theorem ReadsOnly.check (ctx : Context) : ReadsOnly (check ctx : TxOp υ Unit) :=
  .of_eq fun _ _ => ⟨rfl, rfl⟩

theorem ReadsOnly.pickShard (numShards : Nat) : ReadsOnly (pickShard numShards : TxOp υ Nat) :=
  .of_eq fun attempt env => by rw [runIn_pickShard]; exact ⟨rfl, rfl⟩

theorem ReadsOnly.get (key : DocKey) : ReadsOnly (get key : TxOp υ (Option Document)) := by
  intro attempt env
  rw [runIn_get]
  rcases hget : attempt.get env.store.table key with error | ⟨document, changed⟩
  · exact ⟨rfl, .refl _ _⟩
  · obtain ⟨-, -, -, hreads, -⟩ := Attempt.get_eq_ok hget
    exact ⟨rfl, hreads⟩

theorem ReadsOnly.withContext {op : TxOp υ α} (h : op.ReadsOnly) (operation owner : String)
    (key : DocKey) : ReadsOnly (withContext operation owner key op) := by
  intro attempt env
  rw [runIn_withContext]
  exact h attempt env

theorem ReadsOnly.bind {op : TxOp υ α} {next : α → TxOp υ β} (h : op.ReadsOnly)
    (hnext : ∀ value, (next value).ReadsOnly) : ReadsOnly (op >>= next) := by
  intro attempt env
  rw [runIn_bind]
  obtain ⟨hstore, hreads⟩ := h attempt env
  rcases hop : op.runIn attempt env with ⟨error | value, between, midway⟩
  · rw [hop] at hstore hreads
    exact ⟨hstore, hreads⟩
  · rw [hop] at hstore hreads
    obtain ⟨hstore', hreads'⟩ := hnext value between midway
    have htable : midway.store.table = env.store.table := congrArg Store.table hstore
    rw [htable] at hreads'
    exact ⟨hstore'.trans hstore, hreads.trans hreads'⟩

theorem ReadsOnly.map {op : TxOp υ α} (h : op.ReadsOnly) (f : α → β) :
    ReadsOnly (f <$> op) := by
  intro attempt env
  rw [runIn_map]
  rcases hop : op.runIn attempt env with ⟨error | value, between, midway⟩ <;>
    simpa only [hop] using h attempt env

end TxOp

end Shardwise
