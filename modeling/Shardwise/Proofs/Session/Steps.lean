import Shardwise.Proofs.Session.Basic
import Shardwise.Proofs.Store.Version

/-!
# What a step comes to

A step may be refused, by a closed store, by the status of an attempt or because there is
no such attempt, and then the session stays as it is.  Otherwise it changes the store, one
attempt, or both.  Each lemma here lists the outcomes of one kind of step, as far as
invariants need them; what a property does with them is then a case analysis that does
not open the step again.

* `Session.stepBegin_cases`, `stepCommit_cases` and `stepAbort_cases` are about the life
  of an attempt.
* `Session.inside_cases` is about any operation inside an attempt, and
  `step_change_cases` and `step_get_cases` are those that are no phases.
* `Session.step_insert_cases` and `step_remove_cases` are about documents that are stored
  and removed outside attempts.
-/

namespace Shardwise

namespace Session

variable {τ ω α : Type} (s : Session τ ω)

/-! ## The life of an attempt -/

/-- The new attempt has the next number, and no drafts yet. -/
theorem stepBegin_cases :
    s.stepBegin = s ∨
      ∃ env : Env Unit, env.store.database = { s.db with nextId := s.db.nextId + 1 } ∧
        s.stepBegin = { ({ s with env } : Session τ ω).setAttempt s.db.nextId
            { id := s.db.nextId } with drafts := Function.update s.drafts s.db.nextId [] } := by
  unfold stepBegin
  rw [Op.runIn_begin]
  unfold Store.begin Store.ensureOpen
  cases s.env.store.isOpen with
  | false => exact .inl rfl
  | true => exact .inr ⟨_, rfl, rfl⟩

/-- A commit that fails leaves the documents, and one that succeeds is logged. -/
theorem stepCommit_cases (id : UInt64) :
    s.stepCommit id = s ∨
      ∃ attempt, s.attempts id = some attempt ∧ ∃ env : Env Unit,
        (∃ changed, env.store.database = s.db ∧
          (changed = attempt ∨ ∃ reason, changed = Database.aborted attempt reason) ∧
            s.stepCommit id = ({ s with env } : Session τ ω).setAttempt id changed) ∨
        Database.Commits s.db attempt env.store.database ∧
          s.stepCommit id = { ({ s with env } : Session τ ω).setAttempt id
              { attempt with status := .committed } with
            log := s.log ++ [⟨s.table, s.drafts id⟩] } := by
  unfold stepCommit
  cases hheld : s.attempts id with
  | none => exact .inl rfl
  | some attempt =>
    refine .inr ⟨attempt, rfl, ?_⟩
    dsimp only
    rw [Op.runIn_commit]
    rcases s.env.store.commit_cases attempt with
      ⟨error, changed, left, hcommit, hdb, hchanged⟩ | ⟨version, left, hcommit, -, hcommits⟩
    · rw [hcommit]
      exact ⟨{ s.env with store := left }, .inl ⟨changed, hdb, hchanged, rfl⟩⟩
    · rw [hcommit]
      exact ⟨{ s.env with store := left }, .inr ⟨hcommits, rfl⟩⟩

theorem stepAbort_cases (id : UInt64) (reason : String) :
    s.stepAbort id reason = s ∨
      ∃ attempt, s.attempts id = some attempt ∧
        ∃ env : Env Unit, env.store.database = s.db ∧
          s.stepAbort id reason =
            ({ s with env } : Session τ ω).setAttempt id (Database.aborted attempt reason) := by
  unfold stepAbort
  cases hheld : s.attempts id with
  | none => exact .inl rfl
  | some attempt =>
    dsimp only
    rw [Op.runIn_abort]
    rcases s.env.store.abort_cases attempt reason with ⟨error, habort⟩ | ⟨left, habort, hdb⟩
    · rw [habort]
      exact .inl rfl
    · rw [habort]
      exact .inr ⟨attempt, rfl, { s.env with store := left }, hdb, rfl⟩

/-! ## Operations inside an attempt -/

/-- The attempt is what the operation leaves, and the result is put away if there is
one. -/
theorem inside_cases (id : UInt64) (op : TxOp Unit α) (keep : α → Session τ ω → Session τ ω) :
    s.inside id op keep = s ∨
      ∃ attempt, s.attempts id = some attempt ∧ ∃ outcome later left,
        op.runIn attempt s.env = (outcome, later, left) ∧ s.inside id op keep =
          match outcome with
          | .ok value => keep value (({ s with env := left } : Session τ ω).setAttempt id later)
          | .error _ => ({ s with env := left } : Session τ ω).setAttempt id later := by
  unfold inside
  cases hheld : s.attempts id with
  | none => exact .inl rfl
  | some attempt =>
    refine .inr ⟨attempt, rfl, ?_⟩
    dsimp only
    rcases op.runIn attempt s.env with ⟨error | value, later, left⟩
    · exact ⟨_, later, left, rfl, rfl⟩
    · exact ⟨_, later, left, rfl, rfl⟩

/-- A request that changes the attempt only. -/
theorem step_change_cases (id : UInt64) (request : Attempt → Except Error Attempt) :
    s.step (.touch id (TxOp.change request)) = s ∨
      ∃ attempt, s.attempts id = some attempt ∧ ∃ later,
        (later = attempt ∨ request attempt = .ok later) ∧
          s.step (.touch id (TxOp.change request)) = s.setAttempt id later := by
  simp only [step, inside]
  cases hheld : s.attempts id with
  | none => exact .inl rfl
  | some attempt =>
    refine .inr ⟨attempt, rfl, ?_⟩
    dsimp only
    rw [TxOp.runIn_change]
    cases hlater : request attempt with
    | error error => exact ⟨attempt, .inl rfl, rfl⟩
    | ok later => exact ⟨later, .inr rfl, rfl⟩

theorem step_get_cases (id : UInt64) (key : DocKey) :
    s.step (.touch id ((fun _ => ()) <$> TxOp.get key)) = s ∨
      ∃ attempt, s.attempts id = some attempt ∧ ∃ later,
        Attempt.Reads s.table attempt later ∧
          s.step (.touch id ((fun _ => ()) <$> TxOp.get key)) = s.setAttempt id later := by
  simp only [step, inside]
  cases hheld : s.attempts id with
  | none => exact .inl rfl
  | some attempt =>
    refine .inr ⟨attempt, rfl, ?_⟩
    dsimp only
    rw [TxOp.runIn_map, TxOp.runIn_get]
    rcases hget : attempt.get s.env.store.table key with error | ⟨document, later⟩
    · exact ⟨attempt, .refl _ _, rfl⟩
    · obtain ⟨-, -, -, hreads, -⟩ := Attempt.get_eq_ok hget
      exact ⟨later, hreads, rfl⟩

/-! ## Documents outside attempts -/

theorem step_insert_cases (key : DocKey) (document : Document) :
    s.step (.request (Op.insert key document)) = s ∨
      ∃ env : Env Unit, env.store.database = { s.db with
          version := s.db.version + 1,
          table := s.db.table.put key document (s.db.version + 1) } ∧
        s.step (.request (Op.insert key document)) = { s with env } := by
  simp only [step, Op.insert, Op.runIn_change]
  unfold Store.insert Store.ensureOpen
  cases s.env.store.isOpen with
  | false => exact .inl rfl
  | true => exact .inr ⟨_, rfl, rfl⟩

/-- Only a document that is there is removed. -/
theorem step_remove_cases (ctx : Context) (key : DocKey) :
    s.step (.request (Op.delete ctx key)) = s ∨
      ∃ env : Env Unit, env.store.database = { s.db with
          version := s.db.version + 1, table := s.db.table.remove key } ∧
        s.step (.request (Op.delete ctx key)) = { s with env } := by
  simp only [step, Op.delete, Op.runIn_bind, Op.runIn_check, Op.runIn_change]
  cases ctx.check s.env.flags s.env.elapsed with
  | error error => exact .inl rfl
  | ok _ =>
    dsimp only
    unfold Store.delete Store.ensureOpen
    cases s.env.store.isOpen with
    | false => exact .inl rfl
    | true =>
      cases s.env.store.table.get? key with
      | none => exact .inl rfl
      | some stored => exact .inr ⟨_, rfl, rfl⟩

end Session

end Shardwise
