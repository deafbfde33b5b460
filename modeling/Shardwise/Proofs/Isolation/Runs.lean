import Shardwise.Proofs.Isolation.Alike
import Shardwise.Proofs.Isolation.Handles
import Shardwise.Proofs.Session.Basic
import Shardwise.Proofs.Shards.Counter.Additions

/-!
# Two handles at one store

`Session.Plays` are the runs of two handles at one store, and `Session.Beside` puts
beside such a run that of the first handle alone, where the second does nothing.  An
attempt may use both handles, so attempts belong to both runs.

`Session.Apart` is the invariant of such pairs of runs, as long as the handles have
no key in common, and `Session.isolated` is what follows: whatever the first handle
does next has the same outcome in both runs.  `Site.meets_iff` says which handles
have keys in common.
-/

namespace Shardwise

/-- What surrounds one store, around another.  The numbers of attempts go on. -/
def Env.beside {υ : Type} (env : Env υ) (store : Store) : Env υ :=
  { env with store := { store with
    database := { store.database with nextId := env.store.database.nextId } } }

namespace Session

/-- The session in other surroundings, with its own store. -/
def amid {τ ω : Type} (s : Session τ ω) (env : Env Unit) : Session τ ω :=
  { s with env := env.beside s.env.store }

theorem amid_eq {τ ω : Type} {s : Session τ ω} {env : Env Unit}
    (h : s.env.store.database.nextId = env.store.database.nextId) :
    s.amid env = { s with env := { env with store := s.env.store } } := by
  rw [amid, Env.beside, ← h]

variable {a b : Handle} {start shared alone : Session Pending Receipt}

/-- What callers of two handles do. -/
inductive Takes (a b : Handle) (s : Session Pending Receipt) : Action Pending Receipt → Prop
  | begin : Takes a b s .begin
  | commit (id : UInt64) : Takes a b s (.commit id)
  | abort (id : UInt64) (reason : String) : Takes a b s (.abort id reason)
  | read (id : UInt64) {phase : TxOp Unit Pending} (h : a.Reads phase ∨ b.Reads phase) :
      Takes a b s (.read id phase)
  | write (id : UInt64) {phase : TxOp Unit Receipt}
      (h : a.Writes s.tokens phase ∨ b.Writes s.tokens phase) : Takes a b s (.write id phase)
  | request {α : Type} {op : Op Unit α} (h : a.Offers op ∨ b.Offers op) :
      Takes a b s (.request (discard op))

/-- The states of the runs of two handles, as long as the word that counts versions
lasts. -/
inductive Plays (a b : Handle) (start : Session Pending Receipt) : Session Pending Receipt → Prop
  | start : Plays a b start start
  /-- Time passes, contexts are cancelled, clocks are set. -/
  | surround {s : Session Pending Receipt} {env : Env Unit} (before : Plays a b start s)
      (h : env.store = s.env.store) : Plays a b start { s with env }
  | step {s : Session Pending Receipt} {action : Action Pending Receipt}
      (before : Plays a b start s) (takes : Takes a b s action)
      (room : (s.step action).env.store.stats.committed < UInt64.size) :
      Plays a b start (s.step action)

/-- Steps that the first handle makes in both runs. -/
inductive Own (a : Handle) (shared alone : Session Pending Receipt) :
    Action Pending Receipt → Prop
  | begin : Own a shared alone .begin
  /-- If the attempt holds something of the other handle, then the commit does not
  fail. -/
  | commit (id : UInt64) (h : ∀ attempt, shared.attempts id = some attempt →
      a.site.Keeps attempt ∨ ∀ reason, ¬ shared.env.store.Loses attempt reason) :
      Own a shared alone (.commit id)
  | abort (id : UInt64) (reason : String) : Own a shared alone (.abort id reason)
  | read (id : UInt64) {phase : TxOp Unit Pending} (h : a.Reads phase)
      (hready : ∀ attempt twin, shared.attempts id = some attempt →
        alone.attempts id = some twin → Site.Ready attempt twin) :
      Own a shared alone (.read id phase)
  | write (id : UInt64) {phase : TxOp Unit Receipt} (h : a.Writes shared.tokens phase) :
      Own a shared alone (.write id phase)
  | request {α : Type} {op : Op Unit α} (h : a.Offers op) :
    Own a shared alone (.request (discard op))

/-- Steps that only the shared run makes. -/
inductive Foreign (a b : Handle) (shared alone : Session Pending Receipt) :
    Action Pending Receipt → Prop
  | read (id : UInt64) {phase : TxOp Unit Pending} (h : b.Reads phase) :
      Foreign a b shared alone (.read id phase)
  | write (id : UInt64) {phase : TxOp Unit Receipt} (h : b.Writes shared.tokens phase) :
      Foreign a b shared alone (.write id phase)
  | request {α : Type} {op : Op Unit α} (h : b.Offers op) :
      Foreign a b shared alone (.request (discard op))
  /-- A read phase that comes after a write of the other handle.  It fails. -/
  | late {id : UInt64} {attempt twin : Attempt} {phase : TxOp Unit Pending} (h : a.Reads phase)
      (hheld : shared.attempts id = some attempt) (hheld' : alone.attempts id = some twin)
      (hlate : ¬ Site.Ready attempt twin) : Foreign a b shared alone (.read id phase)

/-- A run of two handles, and beside it a run of the first one alone. -/
inductive Beside (a b : Handle) (start : Session Pending Receipt) :
    Session Pending Receipt → Session Pending Receipt → Prop
  | start : Beside a b start start start
  | surround {shared alone : Session Pending Receipt} {env : Env Unit}
      (before : Beside a b start shared alone) (h : env.store = shared.env.store) :
      Beside a b start { shared with env } (alone.amid env)
  | own {shared alone : Session Pending Receipt} {action : Action Pending Receipt}
      (before : Beside a b start shared alone) (does : Own a shared alone action)
      (room : (shared.step action).env.store.stats.committed < UInt64.size) :
      Beside a b start (shared.step action) (alone.step action)
  | foreign {shared alone : Session Pending Receipt} {action : Action Pending Receipt}
      (before : Beside a b start shared alone) (does : Foreign a b shared alone action)
      (room : (shared.step action).env.store.stats.committed < UInt64.size) :
      Beside a b start (shared.step action) (alone.amid (shared.step action).env)
  /-- A commit that fails, perhaps for the other handle. -/
  | lose {shared alone : Session Pending Receipt} {id : UInt64} {attempt : Attempt}
      {reason : String} (before : Beside a b start shared alone)
      (hheld : shared.attempts id = some attempt)
      (hloses : shared.env.store.Loses attempt reason)
      (room : (shared.step (.commit id)).env.store.stats.committed < UInt64.size) :
      Beside a b start (shared.step (.commit id)) (alone.step (.abort id reason))

/-- Beside every step there is one of the first handle alone, or none is needed. -/
theorem Beside.exists_step (h : Beside a b start shared alone) {action : Action Pending Receipt}
    (takes : Takes a b shared action)
    (room : (shared.step action).env.store.stats.committed < UInt64.size) :
    ∃ later, Beside a b start (shared.step action) later := by
  cases takes with
  | begin => exact ⟨_, .own h .begin room⟩
  | abort id reason => exact ⟨_, .own h (.abort id reason) room⟩
  | commit id =>
    by_cases hloses : ∃ attempt reason, shared.attempts id = some attempt ∧
        shared.env.store.Loses attempt reason
    · obtain ⟨attempt, reason, hheld, hloses⟩ := hloses
      exact ⟨_, .lose h hheld hloses room⟩
    · refine ⟨_, .own h (.commit id fun attempt hheld => .inr fun reason hlost => ?_) room⟩
      exact hloses ⟨attempt, reason, hheld, hlost⟩
  | read id hreads =>
    rcases hreads with hreads | hreads
    · by_cases hlate : ∃ attempt twin, shared.attempts id = some attempt ∧
          alone.attempts id = some twin ∧ ¬ Site.Ready attempt twin
      · obtain ⟨attempt, twin, hheld, hheld', hlate⟩ := hlate
        exact ⟨_, .foreign h (.late hreads hheld hheld' hlate) room⟩
      · refine ⟨_, .own h (.read id hreads fun attempt twin hheld hheld' => ?_) room⟩
        by_contra hready
        exact hlate ⟨attempt, twin, hheld, hheld', hready⟩
    · exact ⟨_, .foreign h (.read id hreads) room⟩
  | write id hwrites =>
    rcases hwrites with hwrites | hwrites
    · exact ⟨_, .own h (.write id hwrites) room⟩
    · exact ⟨_, .foreign h (.write id hwrites) room⟩
  | request hoffers =>
    rcases hoffers with hoffers | hoffers
    · exact ⟨_, .own h (.request hoffers) room⟩
    · exact ⟨_, .foreign h (.request hoffers) room⟩

theorem Plays.exists_beside (h : Plays a b start shared) :
    ∃ alone, Beside a b start shared alone := by
  induction h with
  | start => exact ⟨start, .start⟩
  | surround before henv ih =>
    obtain ⟨alone, halone⟩ := ih
    exact ⟨_, .surround halone henv⟩
  | step before takes room ih =>
    obtain ⟨alone, halone⟩ := ih
    exact halone.exists_step takes room

/-- Where such runs start: no attempt is under way, and the queries of both handles
find their shards only. -/
structure Opens (a b : Handle) (start : Session Pending Receipt) : Prop where
  valid : a.site.Valid start.env.store
  housed : b.site.Housed start.table
  attempts : ∀ id, start.attempts id = none
  tokens : start.tokens = []

/-- A store without documents is a start. -/
theorem Opens.of_empty (a b : Handle) {env : Env Unit} (h : env.store.database = {}) :
    Opens a b { env } := by
  have hnone : ∀ key, env.store.table.get? key = none := by
    intro key
    simp [Store.table, h, Table.get?]
  have hhoused : ∀ site : Site, site.Housed env.store.table := by
    rintro site key ⟨-, document, hdocument, -⟩
    rw [Table.document?_eq_none.mpr (hnone key)] at hdocument
    cases hdocument
  refine ⟨⟨hhoused a.site, ⟨⟨?_, ?_⟩, ?_⟩⟩, hhoused b.site, fun _ => rfl, rfl⟩
  · intro key stored hstored
    exact absurd ((hnone key).symm.trans hstored) (by simp)
  · intro key stored hstored
    exact absurd ((hnone key).symm.trans hstored) (by simp)
  · rw [h]
    exact Nat.zero_le _

/-- Whatever the handle does next has the same outcome in both runs. -/
structure Unaffected (a : Handle) (shared alone : Session Pending Receipt) : Prop where
  request : ∀ {α : Type} {op : Op Unit α}, a.Offers op →
    (op.runIn shared.env).2.store.stats.committed < UInt64.size →
    (op.runIn alone.env).1 = (op.runIn shared.env).1
  status : ∀ id, (alone.attempts id).map Attempt.status = (shared.attempts id).map Attempt.status
  read : ∀ {id : UInt64} {attempt twin : Attempt}, shared.attempts id = some attempt →
    alone.attempts id = some twin → Site.Ready attempt twin →
    ∀ {phase : TxOp Unit Pending}, a.Reads phase →
      (phase.runIn twin alone.env).1 = (phase.runIn attempt shared.env).1
  write : ∀ {id : UInt64} {attempt twin : Attempt}, shared.attempts id = some attempt →
    alone.attempts id = some twin →
    ∀ {phase : TxOp Unit Receipt}, a.Writes shared.tokens phase →
      (phase.runIn twin alone.env).1 = (phase.runIn attempt shared.env).1

/-! ## The invariant -/

/-- The attempts are twins, and the first holds writes of the two handles only. -/
structure Pair (a b : Handle) (store other : Store) (attempt twin : Attempt) : Prop where
  twin : a.site.Twin store other attempt twin
  makes : ∀ entry ∈ attempt.writes, a.site.Makes entry ∨ b.site.Makes entry

/-- What the first handle sees is the same in both runs. -/
structure Apart (a b : Handle) (shared alone : Session Pending Receipt) : Prop where
  agree : a.site.Agree shared.env.store alone.env.store
  housed : b.site.Housed shared.table
  around : alone.env = { shared.env with store := alone.env.store }
  attempts : ∀ id, Option.Rel (Pair a b shared.env.store alone.env.store) (shared.attempts id)
    (alone.attempts id)
  tokens : ∀ token ∈ shared.tokens, token.Placed a.site ∧ token.Placed b.site

namespace Apart

theorem of_opens (h : Opens a b start) : Apart a b start start := by
  refine ⟨.refl h.valid, h.housed, rfl, fun id => ?_, ?_⟩
  · rw [h.attempts]
    exact .none
  · simp [h.tokens]

theorem held (h : Apart a b shared alone) {id : UInt64} {attempt : Attempt}
    (hheld : shared.attempts id = some attempt) :
    ∃ twin, alone.attempts id = some twin ∧
      Pair a b shared.env.store alone.env.store attempt twin := by
  have hpair := h.attempts id
  rw [hheld] at hpair
  cases halone : alone.attempts id with
  | none =>
    rw [halone] at hpair
    cases hpair
  | some twin =>
    rw [halone] at hpair
    cases hpair with
    | some hpair => exact ⟨twin, rfl, hpair⟩

theorem not_held (h : Apart a b shared alone) {id : UInt64} (hnone : shared.attempts id = none) :
    alone.attempts id = none := by
  have hpair := h.attempts id
  rw [hnone] at hpair
  cases halone : alone.attempts id with
  | none => rfl
  | some twin =>
    rw [halone] at hpair
    cases hpair

/-- The stores go on. -/
theorem goes (h : Apart a b shared alone) (env : Env Unit) {left : Store}
    (hstep : a.site.InStep shared.env.store alone.env.store env.store left)
    (hhoused : b.site.Housed env.store.table) :
    Apart a b { shared with env } { alone with env := { env with store := left } } := by
  refine ⟨hstep.agree, hhoused, rfl, fun id => ?_, h.tokens⟩
  have hpair := h.attempts id
  revert hpair
  generalize shared.attempts id = held
  generalize alone.attempts id = held'
  rintro (hpair | _)
  · exact .some ⟨hpair.twin.inStep hstep, hpair.makes⟩
  · exact .none

/-- An attempt goes on in both runs. -/
theorem setAttempt (h : Apart a b shared alone) (id : UInt64) {later twin : Attempt}
    (hpair : Pair a b shared.env.store alone.env.store later twin) :
    Apart a b (shared.setAttempt id later) (alone.setAttempt id twin) := by
  refine ⟨h.agree, h.housed, h.around, fun other => ?_, h.tokens⟩
  rw [attempts_setAttempt, attempts_setAttempt]
  split
  · exact .some hpair
  · exact h.attempts other

/-- An attempt goes on in the shared run only. -/
theorem setShared (h : Apart a b shared alone) {id : UInt64} {later twin : Attempt}
    (hheld : alone.attempts id = some twin)
    (hpair : Pair a b shared.env.store alone.env.store later twin) :
    Apart a b (shared.setAttempt id later) alone := by
  refine ⟨h.agree, h.housed, h.around, fun other => ?_, h.tokens⟩
  rw [attempts_setAttempt]
  split
  · rename_i heq
    rw [heq, hheld]
    exact .some hpair
  · exact h.attempts other

/-! ## Steps in both runs -/

theorem begin (h : Apart a b shared alone) : Apart a b shared.stepBegin alone.stepBegin := by
  unfold stepBegin
  rw [Op.runIn_begin, Op.runIn_begin, h.around]
  dsimp only
  rcases h.agree.begin with ⟨error, hbegin, hbegin'⟩ | ⟨left, left', hbegin, hbegin', hstep⟩
  · rw [hbegin, hbegin']
    exact ⟨h.agree, h.housed, rfl, h.attempts, h.tokens⟩
  · rw [hbegin, hbegin']
    have hhoused : b.site.Housed left.table := by
      rw [(Store.Rests.begin hbegin).table]
      exact h.housed
    have hgoes := h.goes { shared.env with store := left } hstep hhoused
    have hset := hgoes.setAttempt shared.env.store.database.nextId
      ⟨.begun a.site left left' shared.env.store.database.nextId,
        fun _ hentry => absurd hentry List.not_mem_nil⟩
    exact ⟨hset.agree, hset.housed, hset.around, hset.attempts, hset.tokens⟩

theorem commit (h : Apart a b shared alone) (hdiff : a.site.identity ≠ b.site.identity)
    {id : UInt64} (hkeeps : ∀ attempt, shared.attempts id = some attempt →
      a.site.Keeps attempt ∨ ∀ reason, ¬ shared.env.store.Loses attempt reason)
    (room : (shared.stepCommit id).env.store.stats.committed < UInt64.size) :
    Apart a b (shared.stepCommit id) (alone.stepCommit id) := by
  unfold stepCommit at room ⊢
  cases hheld : shared.attempts id with
  | none =>
    rw [h.not_held hheld]
    exact h
  | some attempt =>
    obtain ⟨twin, hheld', htwin, hmakes⟩ := h.held hheld
    have hhoused := h.agree.valid.housed.store_commit hdiff hmakes
    have hhoused' : b.site.Housed (shared.env.store.commit attempt).2.2.table :=
      h.housed.store_commit hdiff.symm fun entry hentry => (hmakes entry hentry).symm
    have hmade := Site.makes_commit shared.env.store hmakes
    have hends : (shared.env.store.commit attempt).2.2.stats.committed < UInt64.size →
        a.site.EndsAlike shared.env.store alone.env.store (shared.env.store.commit attempt)
          (alone.env.store.commit twin) :=
      htwin.commit h.agree (hkeeps attempt hheld) hhoused
    rw [hheld] at room
    rw [hheld', h.around]
    dsimp only at room ⊢
    rw [Op.runIn_commit] at room
    rw [Op.runIn_commit, Op.runIn_commit]
    dsimp only
    rcases hcommit : shared.env.store.commit attempt with ⟨outcome, later, left⟩
    rcases hcommit' : alone.env.store.commit twin with ⟨outcome', later', left'⟩
    rw [hcommit] at room hends hhoused' hmade
    rw [hcommit'] at hends
    dsimp only at room hends hhoused' hmade ⊢
    have hroom : left.stats.committed < UInt64.size := by
      cases outcome <;> exact room
    obtain ⟨hsimilar, hstep, hlater⟩ := hends hroom
    have hgoes := h.goes { shared.env with store := left } hstep hhoused'
    have hset := hgoes.setAttempt id ⟨hlater, hmade⟩
    cases hsimilar <;> exact ⟨hset.agree, hset.housed, hset.around, hset.attempts, hset.tokens⟩

theorem lose (h : Apart a b shared alone) {id : UInt64} {attempt : Attempt} {reason : String}
    (hheld : shared.attempts id = some attempt) (hloses : shared.env.store.Loses attempt reason) :
    Apart a b (shared.stepCommit id) (alone.stepAbort id reason) := by
  obtain ⟨twin, hheld', htwin, -⟩ := h.held hheld
  obtain ⟨error, hcommit, habort, hstep, hlater⟩ := htwin.lose h.agree hloses
  unfold stepCommit stepAbort
  rw [hheld, hheld', h.around]
  dsimp only
  rw [Op.runIn_commit, Op.runIn_abort]
  dsimp only
  rw [hcommit, habort]
  have hgoes := h.goes { shared.env with store := shared.env.store.countAborted } hstep
    h.housed
  exact hgoes.setAttempt id ⟨hlater, fun _ hentry => absurd hentry List.not_mem_nil⟩

theorem abort (h : Apart a b shared alone) (id : UInt64) (reason : String) :
    Apart a b (shared.stepAbort id reason) (alone.stepAbort id reason) := by
  unfold stepAbort
  cases hheld : shared.attempts id with
  | none =>
    rw [h.not_held hheld]
    exact h
  | some attempt =>
    obtain ⟨twin, hheld', htwin, -⟩ := h.held hheld
    rw [hheld', h.around]
    dsimp only
    rw [Op.runIn_abort, Op.runIn_abort]
    dsimp only
    rcases htwin.abort reason with ⟨error, habort, habort'⟩ | ⟨habort, habort'⟩
    · rw [habort, habort']
      exact ⟨h.agree, h.housed, rfl, h.attempts, h.tokens⟩
    · rw [habort, habort']
      have hstep := h.agree.countAborted
      have hgoes := h.goes { shared.env with store := shared.env.store.countAborted }
        hstep h.housed
      exact hgoes.setAttempt id ⟨(htwin.inStep hstep).aborted reason,
        fun _ hentry => absurd hentry List.not_mem_nil⟩

/-- A token is put away. -/
theorem keepToken (h : Apart a b shared alone) {token : Pending}
    (hplaced : token.Placed a.site ∧ token.Placed b.site) :
    Apart a b (shared.keepToken token) alone := by
  refine ⟨h.agree, h.housed, h.around, h.attempts, fun other hother => ?_⟩
  rcases List.mem_append.mp hother with hold | hnew
  · exact h.tokens other hold
  · rw [List.mem_singleton.mp hnew]
    exact hplaced

/-- An operation of the first handle inside an attempt. -/
theorem phase (h : Apart a b shared alone) {α : Type} {looks : Bool} {op : TxOp Unit α}
    (hwithin : op.Within a.site looks) (id : UInt64) {attempt twin : Attempt}
    (hpair : Pair a b shared.env.store alone.env.store attempt twin)
    (hready : looks = true → Site.Ready attempt twin) :
    ∃ later, op.runIn twin alone.env = ((op.runIn attempt shared.env).1, later,
        { (op.runIn attempt shared.env).2.2 with store := alone.env.store }) ∧
      Apart a b
        ({ shared with env := (op.runIn attempt shared.env).2.2 }.setAttempt id
          (op.runIn attempt shared.env).2.1)
        ({ alone with env := { (op.runIn attempt shared.env).2.2 with
          store := alone.env.store } }.setAttempt id later) := by
  obtain ⟨later, hrun, hlater, -⟩ := hwithin.alike shared.env h.agree hpair.twin hready
  obtain ⟨hstore, hadds⟩ := hwithin.adds attempt shared.env
  refine ⟨later, ?_, ?_⟩
  · rw [h.around]
    exact hrun
  · have hgoes : Apart a b { shared with env := (op.runIn attempt shared.env).2.2 }
        { alone with env := { (op.runIn attempt shared.env).2.2 with store := alone.env.store } } :=
      h.goes _ (by rw [hstore]; exact .refl h.agree) (by rw [hstore]; exact h.housed)
    refine hgoes.setAttempt id ⟨?_, hadds.makes hpair.makes⟩
    dsimp only
    rw [hstore]
    exact hlater

theorem read (h : Apart a b shared alone) (hdiff : a.site.identity ≠ b.site.identity)
    {id : UInt64} {phase : TxOp Unit Pending} (hreads : a.Reads phase)
    (hready : ∀ attempt twin, shared.attempts id = some attempt →
      alone.attempts id = some twin → Site.Ready attempt twin) :
    Apart a b (shared.inside id phase Session.keepToken)
      (alone.inside id phase Session.keepToken) := by
  unfold inside
  cases hheld : shared.attempts id with
  | none =>
    rw [h.not_held hheld]
    exact h
  | some attempt =>
    obtain ⟨twin, hheld', hpair⟩ := h.held hheld
    obtain ⟨later, hrun, hlater⟩ := h.phase hreads.within id hpair fun _ =>
      hready attempt twin hheld hheld'
    have hissued : ∀ token, (phase.runIn attempt shared.env).1 = .ok token →
        token.IssuedBy a.site := fun token => hreads.issued
    rw [hheld']
    dsimp only
    rw [hrun]
    rcases hphase : phase.runIn attempt shared.env with ⟨error | token, later, left⟩
    · rw [hphase] at hlater
      exact hlater
    · rw [hphase] at hlater hissued
      have htoken := hissued token rfl
      have hkept := hlater.keepToken ⟨htoken.placed, htoken.placed_other hdiff⟩
      exact ⟨hkept.agree, hkept.housed, hkept.around, hkept.attempts, hkept.tokens⟩

theorem write (h : Apart a b shared alone) {id : UInt64} {phase : TxOp Unit Receipt}
    (hwrites : a.Writes shared.tokens phase) :
    Apart a b (shared.inside id phase (keepDraft id)) (alone.inside id phase (keepDraft id)) := by
  unfold inside
  cases hheld : shared.attempts id with
  | none =>
    rw [h.not_held hheld]
    exact h
  | some attempt =>
    obtain ⟨twin, hheld', hpair⟩ := h.held hheld
    have hwithin : phase.Within a.site false :=
      hwrites.within fun token htoken => (h.tokens token htoken).1
    obtain ⟨later, hrun, hlater⟩ := h.phase hwithin id hpair Bool.noConfusion
    rw [hheld']
    dsimp only
    rw [hrun]
    rcases hphase : phase.runIn attempt shared.env with ⟨error | receipt, later, left⟩
    · rw [hphase] at hlater
      exact hlater
    · rw [hphase] at hlater
      exact ⟨hlater.agree, hlater.housed, hlater.around, hlater.attempts, hlater.tokens⟩

theorem request (h : Apart a b shared alone) (hdiff : a.site.identity ≠ b.site.identity)
    {α : Type} {op : Op Unit α} (hwithin : op.Within a.site)
    (room : (op.runIn shared.env).2.store.stats.committed < UInt64.size) :
    (op.runIn alone.env).1 = (op.runIn shared.env).1 ∧
      Apart a b { shared with env := (op.runIn shared.env).2 }
        { alone with env := (op.runIn alone.env).2 } := by
  obtain ⟨left, hrun, hstep⟩ := hwithin.alike h.agree room
  have hevolves := hwithin.evolves shared.env h.agree.valid.housed
  rw [h.around, hrun]
  exact ⟨rfl, h.goes _ hstep (hevolves.touches.housed_other hdiff h.housed)⟩

/-! ## Steps in the shared run only -/

/-- The run of the first handle goes on with its own store. -/
theorem follow (h : Apart a b shared
      { alone with env := { shared.env with store := alone.env.store } }) :
    Apart a b shared (alone.amid shared.env) := by
  rw [amid_eq (s := alone) h.agree.nextId]
  exact h

theorem surround (h : Apart a b shared alone) {env : Env Unit}
    (henv : env.store = shared.env.store) :
    Apart a b { shared with env } (alone.amid env) := by
  refine follow (h.goes env ?_ ?_)
  · rw [henv]
    exact .refl h.agree
  · rw [henv]
    exact h.housed

/-- An operation of the second handle inside an attempt. -/
theorem foreignPhase (h : Apart a b shared alone) (hapart : ¬ a.site.Meets b.site) {α : Type}
    {looks : Bool} {op : TxOp Unit α} (hwithin : op.Within b.site looks) {id : UInt64}
    {attempt : Attempt} (hheld : shared.attempts id = some attempt) :
    Apart a b
      ({ shared with env := (op.runIn attempt shared.env).2.2 }.setAttempt id
        (op.runIn attempt shared.env).2.1)
      (alone.amid (op.runIn attempt shared.env).2.2) := by
  obtain ⟨twin, hheld', htwin, hmakes⟩ := h.held hheld
  obtain ⟨hstore, hadds⟩ := hwithin.adds attempt shared.env
  have hgoes := h.surround hstore
  have hmade := hadds.makes fun entry hentry => (hmakes entry hentry).symm
  refine hgoes.setShared hheld' ⟨?_, fun entry hentry => (hmade entry hentry).symm⟩
  rw [amid_eq (by rw [hstore]; exact h.agree.nextId)]
  dsimp only
  rw [hstore]
  exact htwin.adds hadds hapart

theorem foreignRead (h : Apart a b shared alone) (hdiff : a.site.identity ≠ b.site.identity)
    (hapart : ¬ a.site.Meets b.site) (id : UInt64) {phase : TxOp Unit Pending}
    (hreads : b.Reads phase) :
    Apart a b (shared.inside id phase Session.keepToken)
      (alone.amid (shared.inside id phase Session.keepToken).env) := by
  unfold inside
  cases hheld : shared.attempts id with
  | none => exact h.surround rfl
  | some attempt =>
    have hlater := h.foreignPhase hapart hreads.within hheld
    have hissued : ∀ token, (phase.runIn attempt shared.env).1 = .ok token →
        token.IssuedBy b.site := fun token => hreads.issued
    dsimp only
    rcases hphase : phase.runIn attempt shared.env with ⟨error | token, later, left⟩
    · rw [hphase] at hlater
      exact hlater
    · rw [hphase] at hlater hissued
      have htoken := hissued token rfl
      exact hlater.keepToken ⟨htoken.placed_other hdiff.symm, htoken.placed⟩

theorem foreignWrite (h : Apart a b shared alone) (hapart : ¬ a.site.Meets b.site) (id : UInt64)
    {phase : TxOp Unit Receipt} (hwrites : b.Writes shared.tokens phase) :
    Apart a b (shared.inside id phase (keepDraft id))
      (alone.amid (shared.inside id phase (keepDraft id)).env) := by
  unfold inside
  cases hheld : shared.attempts id with
  | none => exact h.surround rfl
  | some attempt =>
    have hwithin : phase.Within b.site false :=
      hwrites.within fun token htoken => (h.tokens token htoken).2
    have hlater := h.foreignPhase hapart hwithin hheld
    dsimp only
    rcases hphase : phase.runIn attempt shared.env with ⟨error | receipt, later, left⟩
    · rw [hphase] at hlater
      exact hlater
    · rw [hphase] at hlater
      exact ⟨hlater.agree, hlater.housed, hlater.around, hlater.attempts, hlater.tokens⟩

/-- A read phase that comes too late. -/
theorem late (h : Apart a b shared alone) {id : UInt64} {attempt twin : Attempt}
    {phase : TxOp Unit Pending} (hreads : a.Reads phase)
    (hheld : shared.attempts id = some attempt) (hlate : ¬ Site.Ready attempt twin) :
    Apart a b (shared.inside id phase Session.keepToken)
      (alone.amid (shared.inside id phase Session.keepToken).env) := by
  have hwrites : attempt.writes ≠ [] := fun hnil => hlate fun _ => hnil
  obtain ⟨⟨error, herror⟩, hsame⟩ := hreads.first attempt shared.env hwrites
  have hstore := (hreads.within.adds attempt shared.env).1
  obtain ⟨twin', hheld', hpair⟩ := h.held hheld
  unfold inside
  rw [hheld]
  dsimp only
  rcases hphase : phase.runIn attempt shared.env with ⟨outcome, later, left⟩
  rw [hphase] at herror hsame hstore
  obtain rfl : outcome = .error error := herror
  obtain rfl : later = attempt := hsame
  dsimp only at hstore ⊢
  have hgoes := h.surround hstore
  refine hgoes.setShared hheld' ?_
  rw [amid_eq (by rw [hstore]; exact h.agree.nextId)]
  dsimp only
  rw [hstore]
  exact hpair

theorem foreignRequest (h : Apart a b shared alone) (hdiff : a.site.identity ≠ b.site.identity)
    (hapart : ¬ a.site.Meets b.site) {α : Type} {op : Op Unit α} (hwithin : op.Within b.site)
    (room : (op.runIn shared.env).2.store.stats.committed < UInt64.size) :
    Apart a b { shared with env := (op.runIn shared.env).2 }
      (alone.amid (op.runIn shared.env).2) := by
  have hevolves := hwithin.evolves shared.env h.housed
  exact h.goes _ (h.agree.foreign hdiff hapart hevolves room)
    (hevolves.touches.housed h.housed)

end Apart

/-! ## Runs -/

theorem Own.apart {action : Action Pending Receipt} (does : Own a shared alone action)
    (h : Apart a b shared alone) (hdiff : a.site.identity ≠ b.site.identity)
    (room : (shared.step action).env.store.stats.committed < UInt64.size) :
    Apart a b (shared.step action) (alone.step action) := by
  cases does with
  | begin => exact h.begin
  | commit id hkeeps => exact h.commit hdiff hkeeps room
  | abort id reason => exact h.abort id reason
  | read id hreads hready => exact h.read hdiff hreads hready
  | write id hwrites => exact h.write hwrites
  | request hoffers => exact (h.request hdiff (hoffers.within.map fun _ => ()) room).2

theorem Foreign.apart {action : Action Pending Receipt} (does : Foreign a b shared alone action)
    (h : Apart a b shared alone) (hdiff : a.site.identity ≠ b.site.identity)
    (hapart : ¬ a.site.Meets b.site)
    (room : (shared.step action).env.store.stats.committed < UInt64.size) :
    Apart a b (shared.step action) (alone.amid (shared.step action).env) := by
  cases does with
  | read id hreads => exact h.foreignRead hdiff hapart id hreads
  | write id hwrites => exact h.foreignWrite hapart id hwrites
  | request hoffers => exact h.foreignRequest hdiff hapart (hoffers.within.map fun _ => ()) room
  | late hreads hheld hheld' hlate => exact h.late hreads hheld hlate

/-- The invariant of runs, by induction on the steps. -/
theorem Beside.apart (h : Beside a b start shared alone) (hstart : Opens a b start)
    (hdiff : a.site.identity ≠ b.site.identity) (hapart : ¬ a.site.Meets b.site) :
    Apart a b shared alone := by
  induction h with
  | start => exact .of_opens hstart
  | surround before henv ih => exact ih.surround henv
  | own before does room ih => exact does.apart ih hdiff room
  | foreign before does room ih => exact does.apart ih hdiff hapart room
  | lose before hheld hloses room ih => exact ih.lose hheld hloses

/-- As long as the handles have no key in common, the first one is not affected. -/
theorem Apart.unaffected (h : Apart a b shared alone) (hdiff : a.site.identity ≠ b.site.identity) :
    Unaffected a shared alone := by
  refine ⟨fun hoffers room => (h.request hdiff hoffers.within room).1, fun id => ?_,
    fun {id attempt twin} hheld hheld' hready phase hreads => ?_,
    fun {id attempt twin} hheld hheld' phase hwrites => ?_⟩
  · cases hheld : shared.attempts id with
    | none => rw [h.not_held hheld]
    | some attempt =>
      obtain ⟨twin, hheld', htwin, -⟩ := h.held hheld
      rw [hheld', Option.map_some, Option.map_some, htwin.status]
  · obtain ⟨_, hsame, hpair⟩ := h.held hheld
    obtain rfl := Option.some.inj (hsame.symm.trans hheld')
    obtain ⟨later, hrun, -⟩ := h.phase hreads.within id hpair fun _ => hready
    rw [hrun]
  · obtain ⟨_, hsame, hpair⟩ := h.held hheld
    obtain rfl := Option.some.inj (hsame.symm.trans hheld')
    have hwithin : phase.Within a.site false :=
      hwrites.within fun token htoken => (h.tokens token htoken).1
    obtain ⟨later, hrun, -⟩ := h.phase hwithin id hpair Bool.noConfusion
    rw [hrun]

/-- Handles with different identities are isolated, unless the name of one is that of
the other with the level and the period of one of its shards behind it: beside every
run of both there is one of the first handle alone, and whatever this handle does has
the same outcome in both. -/
theorem isolated (hdiff : a.site.identity ≠ b.site.identity) (hshadows : ¬ a.site.Shadows b.site)
    (hshadowed : ¬ b.site.Shadows a.site) (hstart : Opens a b start) (h : Plays a b start shared) :
    (∃ alone, Beside a b start shared alone) ∧
      ∀ alone, Beside a b start shared alone → Unaffected a shared alone := by
  have hapart : ¬ a.site.Meets b.site := fun hmeets =>
    ((Site.meets_iff hdiff).mp hmeets).elim hshadows hshadowed
  exact ⟨h.exists_beside, fun alone halone =>
    (halone.apart hstart hdiff hapart).unaffected hdiff⟩

/-! ## Three handles in one collection -/

/-- A counter of visits with sums for periods. -/
def visits : Counter where
  group := ⟨"counters", "visit", 1⟩
  dateHierarchy := true
  clock := .manual

/-- A coder in the same collection. -/
def coupons : Coder where
  group := ⟨"counters", "coupon", 1⟩

/-- Three visits are counted. -/
def visited : Session Pending Receipt := fresh.step (.request (discard (visits.increment live 3)))

/-- Then a number is taken from the coder. -/
def numbered : Session Pending Receipt := visited.step (.request (discard (coupons.number live)))

/-- The number is taken where no visits are counted. -/
def unvisited : Session Pending Receipt :=
  (fresh.amid visited.env).step (.request (discard (coupons.number live)))

/-- The next number is the second one in both. -/
theorem isolated_coupons :
    ((coupons.number live).runIn numbered.env).1.toOption = some 2 ∧
      ((coupons.number live).runIn unvisited.env).1.toOption = some 2 := by
  obtain ⟨hfirst, hsecond, hroom, hnumber⟩ :
      visited.env.store.stats.committed < UInt64.size ∧
        numbered.env.store.stats.committed < UInt64.size ∧
        ((coupons.number live).runIn numbered.env).2.store.stats.committed < UInt64.size ∧
        ((coupons.number live).runIn numbered.env).1.toOption = some 2 := by
    decide +kernel
  have hvisited : Beside (.coder coupons) (.counter visits) fresh visited
      (fresh.amid visited.env) := by
    unfold visited at hfirst ⊢
    exact .foreign .start (.request (.increment visits live 3)) hfirst
  have hrun : Beside (.coder coupons) (.counter visits) fresh numbered unvisited := by
    unfold numbered at hsecond ⊢
    exact .own hvisited (.request (.number coupons live)) hsecond
  have hplays : Plays (.coder coupons) (.counter visits) fresh numbered := by
    unfold numbered visited at hsecond ⊢
    unfold visited at hfirst
    exact .step (.step .start (.request (.inr (.increment visits live 3))) hfirst)
      (.request (.inl (.number coupons live))) hsecond
  have hshadowed : ¬ visits.site.Shadows coupons.site := by
    rintro ⟨-, -, level, t, -, howner⟩
    have hhead := congrArg (fun name => name.toList.head?) howner
    simp [visits, coupons, Counter.site, Coder.site] at hhead
  obtain ⟨-, halone⟩ := isolated (a := .coder coupons) (b := .counter visits) (by decide)
    (fun hshadows => Bool.noConfusion hshadows.1) hshadowed (.of_empty _ _ rfl) hplays
  have hsame := (halone unvisited hrun).request (.number coupons live) hroom
  exact ⟨hnumber, (congrArg Except.toOption hsame).trans hnumber⟩

/-- A counter whose name is that of the other one with a year behind it. -/
def visitYear : Counter where
  group := ⟨"counters", "visitYear1970", 1⟩
  dateHierarchy := false
  clock := .manual

/-- After the three visits five are counted by the year's counter. -/
def yeared : Session Pending Receipt :=
  visited.step (.request (discard (visitYear.increment live 5)))

/-- They are counted where the other counter does nothing. -/
def unmixed : Session Pending Receipt :=
  (fresh.amid visited.env).step (.request (discard (visitYear.increment live 5)))

/-- The five visits are added to the document that the first counter keeps for the
year, and so they are not in the sum of the second one. -/
theorem not_isolated_visitYear :
    visitYear.site.identity ≠ visits.site.identity ∧
      Opens (.counter visitYear) (.counter visits) fresh ∧
      Plays (.counter visitYear) (.counter visits) fresh yeared ∧
      Beside (.counter visitYear) (.counter visits) fresh yeared unmixed ∧
      visitYear.totals unmixed.table = 5 ∧ visitYear.totals yeared.table = 0 ∧
      visits.bucket visited.table .year .epoch = 3 ∧ visits.bucket yeared.table .year .epoch = 8 ∧
      ¬ Unaffected (.counter visitYear) yeared unmixed := by
  obtain ⟨hfirst, hsecond, hsums, hroom, hshared, halone⟩ :
      visited.env.store.stats.committed < UInt64.size ∧
        yeared.env.store.stats.committed < UInt64.size ∧
        (visitYear.totals unmixed.table = 5 ∧ visitYear.totals yeared.table = 0 ∧
          visits.bucket visited.table .year .epoch = 3 ∧
          visits.bucket yeared.table .year .epoch = 8) ∧
        ((visitYear.group.shardsCount live : Op Unit Nat).runIn yeared.env).2.store.stats.committed
          < UInt64.size ∧
        ((visitYear.group.shardsCount live : Op Unit Nat).runIn yeared.env).1.toOption = some 0 ∧
        ((visitYear.group.shardsCount live : Op Unit Nat).runIn unmixed.env).1.toOption =
          some 1 := by
    decide +kernel
  have hvisited : Beside (.counter visitYear) (.counter visits) fresh visited
      (fresh.amid visited.env) := by
    unfold visited at hfirst ⊢
    exact .foreign .start (.request (.increment visits live 3)) hfirst
  have hrun : Beside (.counter visitYear) (.counter visits) fresh yeared unmixed := by
    unfold yeared at hsecond ⊢
    exact .own hvisited (.request (.increment visitYear live 5)) hsecond
  have hplays : Plays (.counter visitYear) (.counter visits) fresh yeared := by
    unfold yeared visited at hsecond ⊢
    unfold visited at hfirst
    exact .step (.step .start (.request (.inr (.increment visits live 3))) hfirst)
      (.request (.inl (.increment visitYear live 5))) hsecond
  obtain ⟨hunmixed, hyeared, hbefore, hafter⟩ := hsums
  refine ⟨by decide, .of_empty _ _ rfl, hplays, hrun, hunmixed, hyeared, hbefore, hafter,
    fun hsame => ?_⟩
  have hoffers : Handle.Offers (.counter visitYear) (visitYear.group.shardsCount live) :=
    .shardsCount (.counter visitYear) live
  have hcount := congrArg Except.toOption (hsame.request hoffers hroom)
  exact absurd (halone.symm.trans (hcount.trans hshared)) (by decide)

end Session

end Shardwise
