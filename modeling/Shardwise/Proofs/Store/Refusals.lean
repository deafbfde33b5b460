import Shardwise.Proofs.Context
import Shardwise.Proofs.Store.Retries

/-!
# Refused requests

The store takes a request when its context is not done and the store is open.
`Env.Refuses` is the reason when it does not, where the context comes first.  A refused
request fails with this reason and changes nothing; a refused transaction does not call
its operation, whatever that is (`Refuses.transact`, `Refuses.transact_noting`).
-/

namespace Shardwise

variable {υ α : Type}

/-- The reason why no request with the context is taken. -/
def Env.Refuses (env : Env υ) (ctx : Context) (error : Error) : Prop :=
  ctx.check env.flags env.elapsed = .error error ∨
    ctx.check env.flags env.elapsed = .ok () ∧ env.store.ensureOpen = .error error

theorem Store.ensureOpen_closed {store : Store} (h : store.isOpen = false) :
    store.ensureOpen = .error (.ofStore "store is closed") := by
  rw [ensureOpen, h]
  rfl

namespace Env

variable {env : Env υ} {ctx : Context}

/-- A request with a context that is done is refused for that. -/
theorem refuses_done (h : ctx.Done env.flags env.elapsed) :
    ∃ reason, env.Refuses ctx (.canceled reason) := by
  obtain ⟨reason, hcheck⟩ := h.check
  exact ⟨reason, .inl hcheck⟩

/-- A closed store refuses every request. -/
theorem refuses_closed (h : env.store.isOpen = false) (ctx : Context) :
    (ctx.Done env.flags env.elapsed ∧ ∃ reason, env.Refuses ctx (.canceled reason)) ∨
      (¬ ctx.Done env.flags env.elapsed ∧ env.Refuses ctx (.ofStore "store is closed")) := by
  rcases ctx.check_cases env.flags env.elapsed with ⟨hdone, -⟩ | ⟨hlive, hcheck⟩
  · exact .inl ⟨hdone, refuses_done hdone⟩
  · exact .inr ⟨hlive, .inr ⟨hcheck, Store.ensureOpen_closed h⟩⟩

theorem exists_refuses_closed (h : env.store.isOpen = false) (ctx : Context) :
    ∃ error, env.Refuses ctx error := by
  rcases env.refuses_closed h ctx with ⟨-, reason, hrefuses⟩ | ⟨-, hrefuses⟩ <;>
    exact ⟨_, hrefuses⟩

end Env

namespace Env.Refuses

variable {env : Env υ} {ctx : Context} {error : Error}

/-- A request that asks the store once. -/
theorem ask (h : env.Refuses ctx error) {request : Store → Except Error α}
    (hrequest : env.store.ensureOpen = .error error → request env.store = .error error) :
    (Op.check ctx >>= fun _ => Op.ask request).runIn env = (.error error, env) := by
  rw [Op.runIn_bind, Op.runIn_check]
  rcases h with hdone | ⟨hlive, hclosed⟩
  · rw [hdone]
  · rw [hlive]
    dsimp only
    rw [Op.runIn_ask, hrequest hclosed]

theorem get (h : env.Refuses ctx error) (key : DocKey) :
    (Op.get ctx key).runIn env = (.error error, env) := by
  apply h.ask
  intro hclosed
  rw [Store.get, hclosed]
  rfl

theorem query (h : env.Refuses ctx error) (collection field : String) (value : Value) :
    (Op.query ctx collection field value).runIn env = (.error error, env) := by
  apply h.ask
  intro hclosed
  rw [Store.query, hclosed]
  rfl

theorem delete (h : env.Refuses ctx error) (key : DocKey) :
    (Op.delete ctx key).runIn env = (.error error, env) := by
  rw [Op.delete, Op.runIn_bind, Op.runIn_check]
  rcases h with hdone | ⟨hlive, hclosed⟩
  · rw [hdone]
  · have hdelete : env.store.delete key = .error error := by
      rw [Store.delete, hclosed]
      rfl
    rw [hlive]
    dsimp only
    rw [Op.runIn_change, hdelete]

/-- A refused transaction leaves everything as it is, whatever its operation does. -/
theorem transact (h : env.Refuses ctx error) (body : TxOp υ α) :
    (Op.transact ctx body).runIn env = (.error error, env) := by
  have htry : (Op.tryOnce ctx body).runIn env = ((.error error : Except Error α).map .ok, env) := by
    rcases h with hdone | ⟨hlive, hclosed⟩
    · exact Op.runIn_tryOnce_done hdone body
    · exact Op.runIn_tryOnce_closed hlive hclosed body
  exact Op.transactWithin_done htry env.store.retry.maxRetries

/-- It makes no call of the operation. -/
theorem transact_noting (h : env.Refuses ctx error) (body : TxOp υ α) (calls : List (Call υ α)) :
    (Op.transact ctx body.noting).runIn (env.noted calls) = (.error error, env.noted calls) := by
  have hnoted : (env.noted calls).Refuses ctx error := h
  exact hnoted.transact body.noting

end Env.Refuses

end Shardwise
