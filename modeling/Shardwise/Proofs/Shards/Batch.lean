import Shardwise.Proofs.Store.Operations

/-!
# Several phases in one attempt

An attempt may run the read phases of several operations, then the write phases with
the tokens that they left, and commit.  Nothing that it wrote is in the table before,
so all read phases see the same table.

* `Attempt.Performs` are phases that run one after the other on one table.
* `Batch` is an attempt with read phases, their write phases and its commit.
  `Batch.seen` is what the tokens say of the table, and `Batch.applied` what the
  commit makes of every document.
-/

namespace Shardwise

variable {υ ι κ τ ω α : Type}

/-- Phases that run in an attempt, one after the other, while the table stays as it
is.  What surrounds the store may change in between. -/
inductive Attempt.Performs (table : Table) (Phase : ι → TxOp υ α → Prop) :
    Attempt → List ι → List α → Attempt → Prop
  | nil (attempt : Attempt) : Performs table Phase attempt [] [] attempt
  | cons {given : ι} {givens : List ι} {phase : TxOp υ α} {value : α} {values : List α}
      {attempt between later : Attempt} (env : Env υ) {left : Env υ}
      (isPhase : Phase given phase) (same : env.store.table = table)
      (run : phase.runIn attempt env = (.ok value, between, left))
      (more : Performs table Phase between givens values later) :
      Performs table Phase attempt (given :: givens) (value :: values) later

namespace Attempt.Performs

variable {table : Table} {Phase : ι → TxOp υ α → Prop} {attempt later : Attempt}
  {givens : List ι} {values : List α}

/-- What holds of every phase holds of every result, and of what every phase was
given. -/
theorem each {Spec : ι → α → Prop} (h : Performs table Phase attempt givens values later)
    (hspec : ∀ given phase attempt env value later left, Phase given phase →
      env.store.table = table → phase.runIn attempt env = (.ok value, later, left) →
        Spec given value) :
    (∀ given ∈ givens, ∃ value ∈ values, Spec given value) ∧
      ∀ value ∈ values, ∃ given ∈ givens, Spec given value := by
  induction h with
  | nil attempt => simp
  | cons env isPhase same run more ih =>
    have hone := hspec _ _ _ _ _ _ _ isPhase same run
    constructor
    · rw [List.forall_mem_cons]
      refine ⟨⟨_, List.mem_cons_self, hone⟩, fun given hgiven => ?_⟩
      obtain ⟨value, hvalue, hmore⟩ := ih.1 given hgiven
      exact ⟨value, List.mem_cons_of_mem _ hvalue, hmore⟩
    · rw [List.forall_mem_cons]
      refine ⟨⟨_, List.mem_cons_self, hone⟩, fun value hvalue => ?_⟩
      obtain ⟨given, hgiven, hmore⟩ := ih.2 value hvalue
      exact ⟨given, List.mem_cons_of_mem _ hgiven, hmore⟩

/-- Read phases write nothing. -/
theorem reads (h : Performs table Phase attempt givens values later)
    (honly : ∀ given phase, Phase given phase → phase.ReadsOnly) :
    later.writes = attempt.writes := by
  induction h with
  | nil attempt => rfl
  | cons env isPhase same run more ih => exact ih.trans ((honly _ _ isPhase).reads run).writes

/-- Write phases add their writes in their order. -/
theorem writes {written : ι → List (DocKey × Write)} {result : ι → α}
    (h : Performs table Phase attempt givens values later)
    (hwrite : ∀ given phase attempt env value later left, Phase given phase →
      phase.runIn attempt env = (.ok value, later, left) →
        later.writes = attempt.writes ++ written given ∧ value = result given) :
    values = givens.map result ∧ later.writes = attempt.writes ++ givens.flatMap written := by
  induction h with
  | nil attempt => exact ⟨rfl, by simp⟩
  | cons env isPhase same run more ih =>
    obtain ⟨hwrites, rfl⟩ := hwrite _ _ _ _ _ _ _ isPhase run
    refine ⟨by rw [ih.1, List.map_cons], ?_⟩
    rw [ih.2, hwrites, List.flatMap_cons, List.append_assoc]

end Attempt.Performs

/-- An attempt runs read phases, then the write phases with their tokens in any
order, and commits.  Nobody else changes the table before the commit. -/
structure Batch (Read : ι → TxOp υ τ → Prop) (Write : κ → TxOp υ ω → Prop) (token : κ → τ)
    (table : Table) (handles : List ι) (tokens : List τ) (uses : List κ) (results : List ω)
    (left : Table) : Prop where
  /-- Every token is used once. -/
  matching : (uses.map token).Perm tokens
  performed : ∃ begun read written : Attempt, begun.writes = [] ∧
    begun.Performs table Read handles tokens read ∧ read.Performs table Write uses results written ∧
    ∃ store version committed after, store.table = table ∧
      Store.commit store written = (.ok version, committed, after) ∧ after.table = left

namespace Batch

variable {Read : ι → TxOp υ τ → Prop} {Write : κ → TxOp υ ω → Prop} {token : κ → τ}
  {table left : Table} {handles : List ι} {tokens : List τ} {uses : List κ} {results : List ω}

/-- All read phases see the same table. -/
theorem seen (h : Batch Read Write token table handles tokens uses results left)
    (Spec : Table → ι → τ → Prop)
    (hspec : ∀ handle phase attempt env value later left, Read handle phase →
      phase.runIn attempt env = (.ok value, later, left) → Spec env.store.table handle value) :
    ∀ token ∈ tokens, ∃ handle ∈ handles, Spec table handle token := by
  obtain ⟨begun, read, written, -, hreads, -⟩ := h.performed
  refine (hreads.each ?_).2
  rintro handle phase attempt env value later left hread rfl hrun
  exact hspec handle phase attempt env value later left hread hrun

/-- All write phases ran. -/
theorem used (h : Batch Read Write token table handles tokens uses results left)
    (Spec : κ → Prop)
    (hspec : ∀ use phase attempt env value later left, Write use phase →
      phase.runIn attempt env = (.ok value, later, left) → Spec use) : ∀ use ∈ uses, Spec use := by
  obtain ⟨begun, read, written, -, -, hwrites, -⟩ := h.performed
  have heach : ∀ use ∈ uses, ∃ value ∈ results, Spec use :=
    (hwrites.each fun use phase attempt env value later left hwrite _ hrun =>
      hspec use phase attempt env value later left hwrite hrun).1
  intro use huse
  obtain ⟨value, -, hone⟩ := heach use huse
  exact hone

/-- Every document becomes what the writes of all write phases make of it, and other
documents stay. -/
theorem applied (h : Batch Read Write token table handles tokens uses results left)
    (writes : κ → List (DocKey × Shardwise.Write)) (result : κ → ω)
    (honly : ∀ handle phase, Read handle phase → phase.ReadsOnly)
    (hwrite : ∀ use phase attempt env value later left, Write use phase →
      phase.runIn attempt env = (.ok value, later, left) →
        later.writes = attempt.writes ++ writes use ∧ value = result use) :
    results = uses.map result ∧
      ∀ key, (writesOn key (uses.flatMap writes)).foldlM Database.applyWrite
        (table.document? key) = .ok (left.document? key) := by
  obtain ⟨begun, read, written, hempty, hreads, hwrites, store, version, committed, after, rfl,
    hcommit, rfl⟩ := h.performed
  obtain ⟨hresults, hwritten⟩ := hwrites.writes hwrite
  rw [hreads.reads honly, hempty, List.nil_append] at hwritten
  refine ⟨hresults, fun key => ?_⟩
  rcases store.commit_cases written with
    ⟨error, changed, other, hfailed, -⟩ | ⟨_, other, hdone, -, hcommits⟩
  · rw [hfailed] at hcommit
    cases hcommit
  · rw [hdone] at hcommit
    cases hcommit
    rw [← hwritten]
    exact hcommits.applied key

end Batch

end Shardwise
