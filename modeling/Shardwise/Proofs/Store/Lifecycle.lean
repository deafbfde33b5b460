import Mathlib.Logic.Relation
import Shardwise.Proofs.Store.Operations

/-!
# The life of an attempt

An attempt is active, then validating, then committed, and it can be aborted as long as it is
not committed.  Every operation on it checks the status for itself, and commits look at what
the attempt read and wrote, so what an attempt holds has to stay what it was however the
operations are mixed.

* `Attempt.Request` is one operation on an attempt, and `Request.op` runs it.  Each operation
  finds the store in a state of its own, so the documents may change in any way between two of
  them.
* `Attempt.Step` lists what an operation can do, and `Request.step` says that there is nothing
  else.
* `Attempt.Continues` is what remains so over any number of operations: each step keeps it
  (`Step.continues`), and it goes on from step to step (`Continues.trans`).
* `Attempt.lifecycle` is the result.
-/

namespace Shardwise

/-- One change of status. -/
inductive Status.Next : Status → Status → Prop
  | validating : Next .active .validating
  | committed : Next .validating .committed
  | aborted {status : Status} (reason : String)
      (h : status = .active ∨ status = .validating) : Next status (.aborted reason)

/-- The status is the last one of an attempt. -/
def Status.IsFinal (status : Status) : Prop :=
  status = .committed ∨ ∃ reason, status = .aborted reason

namespace Status

open Relation (ReflTransGen)

variable {status next later : Status}

theorem Next.not_isFinal (h : status.Next next) : ¬ status.IsFinal := by
  unfold IsFinal
  cases h with
  | validating | committed => simp
  | aborted reason h => rcases h with h | h <;> simp [h]

theorem eq_of_isFinal (h : ReflTransGen Next status later) (hfinal : status.IsFinal) :
    later = status := by
  rcases h.cases_head with hsame | ⟨next, hnext, -⟩
  · exact hsame.symm
  · exact absurd hfinal hnext.not_isFinal

/-- No status leads back to the active one. -/
theorem ne_active (h : ReflTransGen Next status later) (hstatus : status ≠ .active) :
    later ≠ .active := by
  rcases h.cases_tail with hsame | ⟨next, -, hnext⟩
  · exact hsame ▸ hstatus
  · cases hnext <;> simp

end Status

/-- Commits the attempt to the database, and keeps what is left of both. -/
def TxOp.commit {υ : Type} : TxOp υ Unit := do
  let env ← env
  let (outcome, left, database) := env.store.database.commit (← attempt)
  setAttempt left
  ofOp (Op.setEnv { env with store := { env.store with database } })
  ofExcept ((outcome.mapError CommitError.toError).map fun _ => ())

@[simp] theorem TxOp.runIn_commit {υ : Type} (attempt : Attempt) (env : Env υ) :
    TxOp.commit.runIn attempt env =
      match env.store.database.commit attempt with
      | (outcome, left, database) =>
        ((outcome.mapError CommitError.toError).map fun _ => (), left,
          { env with store := { env.store with database } }) := by
  rcases h : env.store.database.commit attempt with ⟨outcome, left, database⟩
  simp [TxOp.commit, h]

namespace Attempt

/-! ## Operations -/

/-- An operation on an attempt. -/
inductive Request where
  | get (key : DocKey)
  | set (key : DocKey) (fields : Fields) (merge : Bool)
  | increment (key : DocKey) (field : String) (delta : Value)
  | delete (key : DocKey)
  | markValidating
  | markCommitted
  | markAborted (reason : String)
  /-- The database commits the attempt. -/
  | commit
  /-- The database aborts the attempt. -/
  | abort (reason : String)

namespace Request

/-- What an operation does; what a read finds is left out. -/
def op : Request → TxOp Unit Unit
  | .get key => discard (TxOp.get key)
  | .set key fields merge => TxOp.set key fields merge
  | .increment key field delta => TxOp.increment key field delta
  | .delete key => TxOp.delete key
  | .markValidating => TxOp.change (·.markValidating)
  | .markCommitted => TxOp.change (·.markCommitted)
  | .markAborted reason => TxOp.change (·.markAborted reason)
  | .commit => TxOp.commit
  | .abort reason => TxOp.change (·.markAborted reason)

/-- The write that an operation asks for. -/
def write? : Request → Option (DocKey × Write)
  | .set key fields merge => some (key, .set fields merge)
  | .increment key field delta => some (key, .increment field delta)
  | .delete key => some (key, .delete)
  | _ => none

/-- The attempt that an operation leaves. -/
def leaves (request : Request) (env : Env Unit) (attempt : Attempt) : Attempt :=
  (request.op.runIn attempt env).2.1

end Request

/-- The attempt after some operations, each with what it finds around it. -/
def follow (attempt : Attempt) (steps : List (Env Unit × Request)) : Attempt :=
  steps.foldl (fun attempt step => step.2.leaves step.1 attempt) attempt

/-! ## What one operation can do -/

/-- What an operation can make of an attempt. -/
inductive Step (attempt : Attempt) : Request → Attempt → Prop
  | stay (request : Request) : Step attempt request attempt
  /-- Reads a document before the first write. -/
  | read {key : DocKey} (version : UInt64) (hactive : attempt.status = .active)
      (hwrites : attempt.writes = []) :
      Step attempt (.get key)
        { attempt with reads := attempt.reads.insertIfNew key version }
  | write {request : Request} {entry : DocKey × Write} (hactive : attempt.status = .active)
      (h : request.write? = some entry) :
      Step attempt request { attempt with writes := attempt.writes ++ [entry] }
  | validate (hactive : attempt.status = .active) :
      Step attempt .markValidating { attempt with status := .validating }
  | finish (hvalidating : attempt.status = .validating) :
      Step attempt .markCommitted { attempt with status := .committed }
  /-- A commit validates the attempt first. -/
  | commit (hactive : attempt.status = .active) :
      Step attempt .commit { attempt with status := .committed }
  /-- A commit that fails has a reason of its own. -/
  | abort {request : Request} {reason : String}
      (h : request = .commit ∨ request = .markAborted reason ∨ request = .abort reason)
      (hopen : attempt.status = .active ∨ attempt.status = .validating) :
      Step attempt request (Database.aborted attempt reason)

variable {attempt midway later changed : Attempt} {request : Request} {env : Env Unit}

theorem get_active (hactive : attempt.status = .active) (hwrites : attempt.writes = [])
    (table : Table) (key : DocKey) :
    attempt.get table key = .ok (table.document? key,
      { attempt with reads := attempt.reads.insertIfNew key (table.versionOf key) }) := by
  simp only [get, ensureActive_eq_ok.mpr hactive, hwrites]
  rfl

theorem markCommitted_eq_ok (h : attempt.markCommitted = .ok changed) :
    attempt.status = .validating ∧ changed = { attempt with status := .committed } := by
  unfold markCommitted at h
  split at h
  · rename_i hvalidating
    exact ⟨hvalidating, (Except.ok.inj h).symm⟩
  · simp at h

theorem markAborted_eq_ok {reason : String} (h : attempt.markAborted reason = .ok changed) :
    (attempt.status = .active ∨ attempt.status = .validating) ∧
      changed = Database.aborted attempt reason := by
  unfold markAborted at h
  split at h
  · rename_i hactive
    exact ⟨.inl hactive, (Except.ok.inj h).symm⟩
  · rename_i hvalidating
    exact ⟨.inr hvalidating, (Except.ok.inj h).symm⟩
  · simp at h

/-- A change leaves the attempt changed, or as it was. -/
theorem step_change {f : Attempt → Except Error Attempt}
    (h : ∀ changed, f attempt = .ok changed → Step attempt request changed) :
    Step attempt request ((TxOp.change f).runIn attempt env).2.1 := by
  rw [TxOp.runIn_change]
  cases hchange : f attempt with
  | error error => exact .stay request
  | ok changed => exact h changed hchange

theorem step_buffer {key : DocKey} {write : Write} (hrequest : request.write? = some (key, write))
    (h : attempt.buffer key write = .ok changed) : Step attempt request changed := by
  obtain ⟨hactive, hchanged⟩ := buffer_eq_ok h
  rw [hchanged]
  exact .write hactive hrequest

/-- An operation does one of the things that operations do. -/
theorem Request.step (request : Request) (env : Env Unit) (attempt : Attempt) :
    Step attempt request (request.leaves env attempt) := by
  unfold leaves
  cases request with
  | get key =>
    simp only [op, TxOp.runIn_discard, TxOp.runIn_get]
    rcases hget : attempt.get env.store.table key with error | ⟨found, changed⟩
    · exact .stay _
    · obtain ⟨hactive, hwrites, -⟩ := get_eq_ok hget
      rw [get_active hactive hwrites] at hget
      cases hget
      exact .read _ hactive hwrites
  | set key fields merge => exact step_change fun changed h => step_buffer rfl h
  | delete key => exact step_change fun changed h => step_buffer rfl h
  | increment key field delta =>
    refine step_change fun changed h => ?_
    unfold Attempt.increment at h
    split at h
    · exact step_buffer rfl h
    · simp at h
  | markValidating =>
    refine step_change fun changed h => ?_
    rw [Database.markValidating_eq] at h
    split at h
    · rename_i hactive
      rw [← Except.ok.inj h]
      exact .validate hactive
    · simp at h
  | markCommitted =>
    refine step_change fun changed h => ?_
    obtain ⟨hvalidating, hchanged⟩ := markCommitted_eq_ok h
    rw [hchanged]
    exact .finish hvalidating
  | markAborted reason | abort reason =>
    refine step_change fun changed h => ?_
    obtain ⟨hopen, hchanged⟩ := markAborted_eq_ok h
    rw [hchanged]
    exact .abort (by simp) hopen
  | commit =>
    simp only [op, TxOp.runIn_commit]
    rcases env.store.database.commit_cases attempt with
      ⟨error, reason, hcommit, -⟩ | ⟨error, reason, hcommit, -, hactive⟩ |
        ⟨version, left, hcommit, hcommits⟩
    · rw [hcommit]
      exact .stay _
    · rw [hcommit]
      exact .abort (.inl rfl) (.inl hactive)
    · rw [hcommit]
      exact .commit hcommits.active

/-- An operation changes the status at most once, but for a commit, which passes through
validation. -/
theorem Step.status (h : Step attempt request later) :
    later.status = attempt.status ∨ attempt.status.Next later.status ∨
      request = .commit ∧ ∃ midway, attempt.status.Next midway ∧ midway.Next later.status := by
  cases h with
  | stay | read | write => exact .inl rfl
  | validate hactive =>
    rw [hactive]
    exact .inr (.inl .validating)
  | finish hvalidating =>
    rw [hvalidating]
    exact .inr (.inl .committed)
  | commit hactive =>
    rw [hactive]
    exact .inr (.inr ⟨rfl, .validating, .validating, .committed⟩)
  | abort _ hopen => exact .inr (.inl (.aborted _ hopen))

/-! ## What remains so -/

/-- What is so of an attempt after any number of operations. -/
structure Continues (attempt later : Attempt) : Prop where
  id : later.id = attempt.id
  status : Relation.ReflTransGen Status.Next attempt.status later.status
  /-- A version that was recorded stays the recorded one. -/
  reads : ∀ (key : DocKey) (version : UInt64), attempt.reads[key]? = some version →
    later.reads[key]? = some version
  /-- Nothing is recorded after the first write, or once the attempt is not active. -/
  sealed : attempt.writes ≠ [] ∨ attempt.status ≠ .active → later.reads = attempt.reads
  /-- Writes are added at the end, unless the attempt is aborted meanwhile. -/
  writes : later.isAborted = attempt.isAborted → attempt.writes <+: later.writes
  /-- Writes are added while the attempt is active. -/
  idle : attempt.status ≠ .active → later.isAborted = attempt.isAborted →
    later.writes = attempt.writes
  /-- An attempt that is aborted loses its writes. -/
  dropped : attempt.isAborted = false → later.isAborted = true → later.writes = []

theorem isAborted_iff : attempt.isAborted = true ↔ ∃ reason, attempt.status = .aborted reason := by
  unfold isAborted
  cases attempt.status <;> simp

theorem isAborted_of_open (h : attempt.status = .active ∨ attempt.status = .validating) :
    attempt.isAborted = false := by
  unfold isAborted
  rcases h with h | h <;> rw [h]

theorem Continues.refl (attempt : Attempt) : Continues attempt attempt where
  id := rfl
  status := .refl
  reads := fun _ _ h => h
  sealed := fun _ => rfl
  writes := fun _ => List.prefix_rfl
  idle := fun _ _ => rfl
  dropped := fun hbefore hafter => by simp [hbefore] at hafter

/-- What is aborted stays aborted. -/
theorem Continues.isAborted (h : Continues attempt later) (haborted : attempt.isAborted = true) :
    later.isAborted = true := by
  rw [isAborted_iff] at haborted ⊢
  obtain ⟨reason, hreason⟩ := haborted
  exact ⟨reason, (Status.eq_of_isFinal h.status (.inr ⟨reason, hreason⟩)).trans hreason⟩

/-- What is not aborted at the end was not aborted on the way. -/
theorem Continues.isAborted_eq (h : Continues attempt midway) (h' : Continues midway later)
    (hsame : later.isAborted = attempt.isAborted) : midway.isAborted = attempt.isAborted := by
  cases hbefore : attempt.isAborted with
  | true => exact h.isAborted hbefore
  | false =>
    rw [hbefore] at hsame
    rw [← Bool.not_eq_true] at hsame ⊢
    exact fun haborted => hsame (h'.isAborted haborted)

/-- What is sealed stays sealed. -/
theorem Continues.sealed_midway (h : Continues attempt midway)
    (hsealed : attempt.writes ≠ [] ∨ attempt.status ≠ .active) :
    midway.writes ≠ [] ∨ midway.status ≠ .active := by
  by_cases hactive : attempt.status = .active
  · have hwrites := hsealed.resolve_right (fun hother => hother hactive)
    cases haborted : midway.isAborted with
    | true =>
      obtain ⟨reason, hreason⟩ := isAborted_iff.mp haborted
      exact .inr (by simp [hreason])
    | false =>
      have hkept := h.writes (haborted.trans (isAborted_of_open (.inl hactive)).symm)
      exact .inl (hkept.ne_nil hwrites)
  · exact .inr (Status.ne_active h.status hactive)

theorem Continues.trans (h : Continues attempt midway) (h' : Continues midway later) :
    Continues attempt later where
  id := h'.id.trans h.id
  status := h.status.trans h'.status
  reads := fun key version hread => h'.reads key version (h.reads key version hread)
  sealed := fun hsealed => (h'.sealed (h.sealed_midway hsealed)).trans (h.sealed hsealed)
  writes := fun hsame => by
    have hmidway := h.isAborted_eq h' hsame
    exact (h.writes hmidway).trans (h'.writes (hsame.trans hmidway.symm))
  idle := fun hidle hsame => by
    have hmidway := h.isAborted_eq h' hsame
    have hidle' : midway.status ≠ .active := Status.ne_active h.status hidle
    rw [h'.idle hidle' (hsame.trans hmidway.symm), h.idle hidle hmidway]
  dropped := fun hbefore hafter => by
    cases haborted : midway.isAborted with
    | false => exact h'.dropped haborted hafter
    | true =>
      obtain ⟨reason, hreason⟩ := isAborted_iff.mp haborted
      rw [h'.idle (by simp [hreason]) (hafter.trans haborted.symm), h.dropped hbefore haborted]

/-- A version that is recorded is kept when others are recorded. -/
theorem getElem?_insertIfNew {reads : Std.ExtTreeMap DocKey UInt64} {key other : DocKey}
    {version recorded : UInt64} (h : reads[other]? = some recorded) :
    (reads.insertIfNew key version)[other]? = some recorded := by
  rw [getElem?_record, if_neg, h]
  intro hnew
  rw [hnew.1] at hnew
  simp [h] at hnew

/-- Another status that does not abort leaves the rest as it is. -/
theorem continues_of_status {status : Status}
    (h : Relation.ReflTransGen Status.Next attempt.status status)
    (hstatus : ∀ reason, status ≠ .aborted reason) :
    Continues attempt { attempt with status } where
  id := rfl
  status := h
  reads := fun _ _ hread => hread
  sealed := fun _ => rfl
  writes := fun _ => List.prefix_rfl
  idle := fun _ _ => rfl
  dropped := fun _ hafter => by
    obtain ⟨reason, hreason⟩ := isAborted_iff.mp hafter
    exact absurd hreason (hstatus reason)

theorem Step.continues (h : Step attempt request later) : Continues attempt later := by
  cases h with
  | stay => exact Continues.refl attempt
  | read version hactive hwrites =>
    refine ⟨rfl, .refl, fun other recorded hread => getElem?_insertIfNew hread, ?_,
      fun _ => List.prefix_rfl, fun _ _ => rfl, fun hbefore hafter => ?_⟩
    · simp [hactive, hwrites]
    · exact absurd (hafter.symm.trans hbefore) (by simp)
  | write hactive _ =>
    refine ⟨rfl, .refl, fun _ _ hread => hread, fun _ => rfl, fun _ => List.prefix_append _ _,
      fun hidle => absurd hactive hidle, fun hbefore hafter => ?_⟩
    exact absurd (hafter.symm.trans hbefore) (by simp)
  | validate hactive =>
    refine continues_of_status ?_ (by simp)
    rw [hactive]
    exact .single .validating
  | finish hvalidating =>
    refine continues_of_status ?_ (by simp)
    rw [hvalidating]
    exact .single .committed
  | commit hactive =>
    refine continues_of_status ?_ (by simp)
    rw [hactive]
    exact .tail (.single .validating) .committed
  | @abort _ reason _ hopen =>
    have hbefore := isAborted_of_open hopen
    have hchanged : (Database.aborted attempt reason).isAborted ≠ attempt.isAborted := by
      rw [hbefore]
      simp [isAborted, Database.aborted]
    exact ⟨rfl, .single (.aborted reason hopen), fun _ _ hread => hread, fun _ => rfl,
      fun hsame => absurd hsame hchanged, fun _ hsame => absurd hsame hchanged, fun _ _ => rfl⟩

theorem continues_follow (attempt : Attempt) (steps : List (Env Unit × Request)) :
    Continues attempt (attempt.follow steps) := by
  induction steps generalizing attempt with
  | nil => exact Continues.refl attempt
  | cons step steps ih =>
    have hstep : Continues attempt (step.2.leaves step.1 attempt) :=
      (step.2.step step.1 attempt).continues
    exact hstep.trans (ih _)

/-! ## Failures -/

/-- A change that fails leaves the attempt as it is. -/
theorem runIn_change_of_error {f : Attempt → Except Error Attempt} {error : Error}
    (h : ((TxOp.change f).runIn attempt env).1 = .error error) :
    ((TxOp.change f).runIn attempt env).2.1 = attempt := by
  rw [TxOp.runIn_change] at h ⊢
  cases hchange : f attempt with
  | error other => rfl
  | ok changed =>
    rw [hchange] at h
    simp at h

/-- An operation that fails leaves the attempt as it is, but for a commit, which may abort
it. -/
theorem Request.leaves_of_error {error : Error} (hrequest : request ≠ .commit)
    (h : (request.op.runIn attempt env).1 = .error error) :
    request.leaves env attempt = attempt := by
  cases request with
  | get key =>
    simp only [leaves, op, TxOp.runIn_discard, TxOp.runIn_get] at h ⊢
    rcases hget : attempt.get env.store.table key with other | ⟨found, changed⟩
    · rfl
    · rw [hget] at h
      simp at h
  | commit => exact absurd rfl hrequest
  | _ => exact runIn_change_of_error h

/-- Reads succeed exactly on active attempts without writes. -/
theorem runIn_get_isOk_iff (key : DocKey) (attempt : Attempt) (env : Env Unit) :
    (∃ found, ((TxOp.get key).runIn attempt env).1 = .ok found) ↔
      attempt.status = .active ∧ attempt.writes = [] := by
  rw [TxOp.runIn_get]
  constructor
  · rintro ⟨found, h⟩
    rcases hget : attempt.get env.store.table key with other | ⟨document, changed⟩
    · rw [hget] at h
      simp at h
    · obtain ⟨hactive, hwrites, -⟩ := get_eq_ok hget
      exact ⟨hactive, hwrites⟩
  · rintro ⟨hactive, hwrites⟩
    rw [get_active hactive hwrites]
    exact ⟨_, rfl⟩

/-! ## The life of an attempt -/

/-- Whatever is done with an attempt, and whatever the store holds meanwhile, all that
`Continues` says remains so, and a status that is final stays the same.  A single operation
moves the status by one change at most, and a commit by two; a read succeeds exactly if the
attempt is active and has no writes; and an operation that fails leaves the attempt as it
is, unless it is a commit. -/
theorem lifecycle (attempt : Attempt) :
    (∀ steps, Continues attempt (attempt.follow steps) ∧
      (attempt.status.IsFinal → (attempt.follow steps).status = attempt.status)) ∧
    (∀ (request : Request) env,
      (request.leaves env attempt).status = attempt.status ∨
      attempt.status.Next (request.leaves env attempt).status ∨
      request = .commit ∧ ∃ midway, attempt.status.Next midway ∧
        midway.Next (request.leaves env attempt).status) ∧
    (∀ key (env : Env Unit), (∃ found, ((TxOp.get key).runIn attempt env).1 = .ok found) ↔
      attempt.status = .active ∧ attempt.writes = []) ∧
    ∀ (request : Request) (env : Env Unit) error, request ≠ .commit →
      (request.op.runIn attempt env).1 = .error error → request.leaves env attempt = attempt := by
  refine ⟨fun steps => ?_, fun request env => (request.step env attempt).status,
    fun key env => runIn_get_isOk_iff key attempt env,
    fun request env error hrequest h => Request.leaves_of_error hrequest h⟩
  have hcontinues := continues_follow attempt steps
  exact ⟨hcontinues, fun hfinal => Status.eq_of_isFinal hcontinues.status hfinal⟩

/-- A read, a write, a read that comes too late, and a commit. -/
def errand (env : Env Unit) : List (Env Unit × Request) :=
  [(env, .get ⟨"rooms", "crate"⟩), (env, .set ⟨"rooms", "crate"⟩ ∅ false),
    (env, .get ⟨"rooms", "shelf"⟩), (env, .commit)]

/-- The errand is committed, and is so whatever comes next; an abort fails. -/
theorem lifecycle_errand : let done := ({ id := 1 } : Attempt).follow (errand { user := () })
    done.status = .committed ∧
    (∃ error, ((Request.abort "late").op.runIn done { user := () }).1 = .error error) ∧
    (Request.abort "late").leaves { user := () } done = done ∧
    ∀ steps, (done.follow steps).status = .committed := by
  intro done
  have hstatus : done.status = .committed := by rfl
  obtain ⟨hfollow, -, -, hfails⟩ := lifecycle done
  have hfailed : ∃ error, ((Request.abort "late").op.runIn done { user := () }).1 = .error error :=
    ⟨_, rfl⟩
  obtain ⟨error, herror⟩ := hfailed
  refine ⟨hstatus, ⟨error, herror⟩, hfails _ _ error (by simp) herror, fun steps => ?_⟩
  rw [(hfollow steps).2 (.inl hstatus), hstatus]

end Attempt

end Shardwise
