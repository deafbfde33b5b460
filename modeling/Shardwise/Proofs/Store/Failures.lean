import Shardwise.Proofs.Store.Operations

/-!
# How operations fail

`FailsIn errors` says of a result that it is none of the errors left out.  It goes over
to sequences of steps, so that the errors of an operation are those of its parts
(`Op.FailsIn`, `TxOp.FailsIn`).

What is computed from documents fails only because of the data (`Error.OfData`).  A
commit adds conflicts and attempts that were not active, and in an open store none of
its errors is one of the store (`Store.commit_failsIn`).
-/

namespace Shardwise

variable {υ α β : Type} {errors more : Error → Prop}

/-- If the outcome is an error, then it is one of these. -/
def FailsIn (errors : Error → Prop) (outcome : Except Error α) : Prop :=
  ∀ error, outcome = .error error → errors error

namespace FailsIn

theorem ok (value : α) : FailsIn errors (.ok value : Except Error α) := by
  rintro error ⟨⟩

theorem error {error : Error} (h : errors error) :
    FailsIn errors (.error error : Except Error α) := by
  rintro _ ⟨⟩
  exact h

theorem mono {outcome : Except Error α} (h : FailsIn errors outcome)
    (hmore : ∀ error, errors error → more error) : FailsIn more outcome :=
  fun error herror => hmore error (h error herror)

theorem bind {outcome : Except Error α} {next : α → Except Error β} (h : FailsIn errors outcome)
    (hnext : ∀ value, FailsIn errors (next value)) : FailsIn errors (outcome >>= next) := by
  cases outcome with
  | error reason => exact .error (h reason rfl)
  | ok value => exact hnext value

theorem map {outcome : Except Error α} (h : FailsIn errors outcome) (f : α → β) :
    FailsIn errors (outcome.map f) := by
  cases outcome with
  | error reason => exact .error (h reason rfl)
  | ok value => exact .ok (f value)

theorem foldlM {step : β → α → Except Error β} (h : ∀ made item, FailsIn errors (step made item))
    (items : List α) (made : β) : FailsIn errors (items.foldlM step made) := by
  induction items generalizing made with
  | nil => exact .ok made
  | cons item items ih =>
    rw [List.foldlM_cons]
    exact (h made item).bind ih

end FailsIn

/-! ## Data -/

namespace Error

/-- The error is about a field, an argument or the size of a number. -/
def OfData : Error → Prop
  | .typeMismatch .. | .invalidInput .. | .capacityExceeded .. => True
  | _ => False

/-- The error is none of the store. -/
def NotStore (error : Error) : Prop := error.isStoreError = false

theorem OfData.notStore {error : Error} (h : error.OfData) : error.NotStore := by
  cases error <;> first | rfl | cases h

theorem OfData.isConflict {error : Error} (h : error.OfData) : error.isConflict = false := by
  cases error <;> first | rfl | cases h

end Error

theorem Document.field_failsIn (document : Document) (name : String) :
    FailsIn Error.OfData (document.field name) := by
  unfold field
  split
  · exact .ok _
  · exact .error trivial

namespace Value

theorem toFloat_failsIn (value : Value) (field : String) :
    FailsIn Error.OfData (value.toFloat field) := by
  unfold toFloat
  split
  · exact .ok _
  · exact .ok _
  · split
    · exact .ok _
    · exact .error trivial
  · exact .error trivial

theorem toUInt64_failsIn (value : Value) (field : String) :
    FailsIn Error.OfData (value.toUInt64 field) := by
  unfold toUInt64
  split
  · exact .ok _
  · exact .error trivial

theorem add_failsIn (value delta : Value) (field : String) :
    FailsIn Error.OfData (value.add delta field) := by
  unfold add
  split
  · exact .ok _
  · exact (toFloat_failsIn value field).bind fun x =>
      (toFloat_failsIn delta field).bind fun y => .ok _

end Value

namespace Database

theorem applyWrite_failsIn (current : Option Document) (write : Write) :
    FailsIn Error.OfData (applyWrite current write) := by
  cases write with
  | set fields merge => cases current <;> cases merge <;> exact .ok _
  | delete => exact .ok none
  | increment field delta =>
    refine .map ?_ _
    split
    · split
      · exact Value.add_failsIn _ delta field
      · exact .ok delta
    · exact .ok delta

theorem stage_failsIn (table : Table) (writes : List (DocKey × Write)) :
    FailsIn Error.OfData (stage table writes) := by
  refine .foldlM (fun staged write => ?_) writes ∅
  exact (applyWrite_failsIn _ write.2).bind fun made => .ok (staged.insert write.1 made)

end Database

theorem CommitError.toError_validationFailed (conflicts : List Conflict) :
    (CommitError.validationFailed conflicts).toError.NotStore := rfl

/-- In an open store a commit gives no store error. -/
theorem Store.commit_failsIn {store : Store} (h : store.isOpen = true) (attempt : Attempt) :
    FailsIn Error.NotStore (store.commit attempt).1 := by
  by_cases hactive : attempt.status = .active
  · by_cases hvalid : Database.conflicts store.database.table attempt = []
    · cases hstage : Database.stage store.database.table attempt.writes with
      | error error =>
        have hcommit := Database.commit_unstaged hactive hvalid hstage
        rw [commit_failed h (by simp) hcommit]
        exact .error (Database.stage_failsIn _ _ error hstage).notStore
      | ok staged =>
        rw [commit_ok h (Database.commit_staged hactive hvalid hstage)]
        exact .ok _
    · rw [commit_failed h (by simp) (Database.commit_conflicting hactive hvalid)]
      exact .error (CommitError.toError_validationFailed _)
  · rw [commit_invalid h (Database.commit_inactive hactive)]
    exact .error rfl

/-! ## Operations -/

namespace Op

/-- Every error of the operation is one of these. -/
def FailsIn (errors : Error → Prop) (op : Op υ α) : Prop :=
  ∀ env, Shardwise.FailsIn errors (op.runIn env).1

namespace FailsIn

theorem ofExcept {outcome : Except Error α} (h : Shardwise.FailsIn errors outcome) :
    (Op.ofExcept outcome : Op υ α).FailsIn errors := fun _ => h

theorem mono {op : Op υ α} (h : op.FailsIn errors) (hmore : ∀ error, errors error → more error) :
    op.FailsIn more := fun env => (h env).mono hmore

/-- What follows has to fail so after the results that there are. -/
theorem bind_of_ok {op : Op υ α} {next : α → Op υ β} (h : op.FailsIn errors)
    (hnext : ∀ env value, (op.runIn env).1 = .ok value → (next value).FailsIn errors) :
    (op >>= next).FailsIn errors := by
  intro env
  rw [runIn_bind]
  rcases hop : op.runIn env with ⟨error | value, midway⟩
  · exact .error (h env error (by rw [hop]))
  · exact hnext env value (by rw [hop]) midway

theorem bind {op : Op υ α} {next : α → Op υ β} (h : op.FailsIn errors)
    (hnext : ∀ value, (next value).FailsIn errors) : (op >>= next).FailsIn errors :=
  h.bind_of_ok fun _ value _ => hnext value

theorem pure (value : α) : (Pure.pure value : Op υ α).FailsIn errors := .ofExcept (.ok value)

/-- An operation that fails in some case. -/
theorem guard (p : Prop) [Decidable p] {error : Error} (herror : errors error)
    {next : Unit → Op υ α} (h : (next ()).FailsIn errors) :
    (if p then next () else (throw error : Op υ Unit) >>= next).FailsIn errors := by
  split
  · exact h
  · exact .bind (.ofExcept (.error herror)) fun _ => h

end FailsIn

end Op

namespace TxOp

/-- Every error of the operation is one of these. -/
def FailsIn (errors : Error → Prop) (op : TxOp υ α) : Prop :=
  ∀ attempt env, Shardwise.FailsIn errors (op.runIn attempt env).1

namespace FailsIn

theorem ofExcept {outcome : Except Error α} (h : Shardwise.FailsIn errors outcome) :
    (TxOp.ofExcept outcome : TxOp υ α).FailsIn errors := fun _ _ => h

theorem ofOp {op : Op υ α} (h : op.FailsIn errors) : (TxOp.ofOp op).FailsIn errors :=
  fun _ env => h env

theorem mono {op : TxOp υ α} (h : op.FailsIn errors)
    (hmore : ∀ error, errors error → more error) : op.FailsIn more :=
  fun attempt env => (h attempt env).mono hmore

theorem bind {op : TxOp υ α} {next : α → TxOp υ β} (h : op.FailsIn errors)
    (hnext : ∀ value, (next value).FailsIn errors) : (op >>= next).FailsIn errors := by
  intro attempt env
  rw [runIn_bind]
  rcases hop : op.runIn attempt env with ⟨error | value, between, midway⟩
  · exact .error (h attempt env error (by rw [hop]))
  · exact hnext value between midway

theorem map {op : TxOp υ α} (h : op.FailsIn errors) (f : α → β) : (f <$> op).FailsIn errors := by
  intro attempt env
  rw [runIn_map]
  rcases hop : op.runIn attempt env with ⟨error | value, between, midway⟩
  · exact .error (h attempt env error (by rw [hop]))
  · exact .ok (f value)

theorem pure (value : α) : (Pure.pure value : TxOp υ α).FailsIn errors := .ofExcept (.ok value)

theorem attempt : (TxOp.attempt : TxOp υ Attempt).FailsIn errors := fun _ _ => .ok _

theorem pickShard (numShards : Nat) : (TxOp.pickShard numShards : TxOp υ Nat).FailsIn errors := by
  intro attempt env
  rw [runIn_pickShard]
  exact .ok _

theorem forM {γ : Type} {op : γ → TxOp υ Unit} (h : ∀ item, (op item).FailsIn errors)
    (items : List γ) : (items.forM op).FailsIn errors := by
  induction items with
  | nil => exact .pure ()
  | cons item items ih => exact (h item).bind fun _ => ih

/-- An operation that fails in some case. -/
theorem guard (p : Prop) [Decidable p] {error : Error} (herror : errors error)
    {next : Unit → TxOp υ α} (h : (next ()).FailsIn errors) :
    (if p then (throw error : TxOp υ Unit) >>= next else next ()).FailsIn errors := by
  split
  · exact .bind (.ofExcept (.error herror)) fun _ => h
  · exact h

end FailsIn

end TxOp

end Shardwise
