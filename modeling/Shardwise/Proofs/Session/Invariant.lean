import Shardwise.Proofs.Session.Protocol
import Shardwise.Proofs.Session.Steps

/-!
# What every run keeps

`Session.Inv` is the invariant of the runs of a protocol:

* versions in the table and in read sets are those of the past;
* what a token says about documents that its attempt read, the attempt recalls;
* the writes that an attempt has for the keys of the primitive are those of its
  write phase.

`Session.Inv.step` is the step lemma.  It also says what a step means to the
primitive, `Session.Turn`: nothing, or it is a commit.  The proof for a primitive
is then an induction over turns, `Protocol.Reaches.rec_turns`, and no longer one
over the steps.
-/

namespace Shardwise

namespace Session

variable {τ ω : Type} {p : Protocol τ ω}

/-! ## The invariant of runs -/

/-- What every run of a protocol keeps. -/
structure Inv (law : p.Law) (s : Session τ ω) : Prop where
  sound : s.db.Sound
  ids : ∀ id attempt, s.attempts id = some attempt →
    attempt.id = id ∧ id.toNat < s.db.nextId.toNat
  /-- Recorded versions are those of the past. -/
  reads : ∀ id attempt, s.attempts id = some attempt →
    ∀ (key : DocKey) (version : UInt64), attempt.reads[key]? = some version →
      version.toNat ≤ s.db.version.toNat
  stamps : ∀ token ∈ s.tokens, (law.stamp token).toNat < s.db.nextId.toNat
  memory : ∀ token ∈ s.tokens, ∀ attempt, s.attempts (law.stamp token) = some attempt →
    law.Knows s.db attempt token
  buffered : ∀ id attempt, s.attempts id = some attempt → attempt.status = .active →
    law.Holds s.tokens id (s.drafts id) attempt

theorem Inv.of_starts {law : p.Law} {s : Session τ ω} (h : p.Starts s) : s.Inv law := by
  refine ⟨h.sound, ?_, ?_, ?_, ?_, ?_⟩
  · intro id attempt hheld
    simp [h.attempts] at hheld
  · intro id attempt hheld
    simp [h.attempts] at hheld
  · simp [h.tokens]
  · simp [h.tokens]
  · intro id attempt hheld
    simp [h.attempts] at hheld

/-- The invariant outlives every change of the database. -/
theorem Inv.moves {law : p.Law} {s : Session τ ω} (h : s.Inv law) {env : Env Unit}
    (hmoves : s.db.Moves env.store.database) : Inv law { s with env } := by
  refine ⟨hmoves.sound h.sound, ?_, ?_, ?_, ?_, h.buffered⟩
  · intro id attempt hheld
    obtain ⟨hid, hlt⟩ := h.ids id attempt hheld
    exact ⟨hid, Nat.lt_of_lt_of_le hlt hmoves.nextId_le⟩
  · intro id attempt hheld key version hread
    exact Nat.le_trans (h.reads id attempt hheld key version hread) hmoves.version_le
  · intro token htoken
    exact Nat.lt_of_lt_of_le (h.stamps token htoken) hmoves.nextId_le
  · intro token htoken attempt hheld
    obtain ⟨memory, hremembers, hrecalls⟩ := h.memory token htoken attempt hheld
    exact ⟨memory, hremembers, fun entry hentry => (hrecalls entry hentry).moves hmoves⟩

theorem Inv.of_store_eq {law : p.Law} {s : Session τ ω} (h : s.Inv law) {env : Env Unit}
    (hstore : env.store = s.env.store) : Inv law { s with env } := by
  apply h.moves
  rw [hstore]
  exact .refl _

/-- An attempt may go on: it keeps its number and what it recorded, and its
writes to the keys of the primitive are those of its drafts. -/
theorem Inv.replace {law : p.Law} {s : Session τ ω} (h : s.Inv law) {id : UInt64}
    {attempt later : Attempt} {drafts : List ω} (hheld : s.attempts id = some attempt)
    (hid : later.id = attempt.id)
    (hkept : ∀ (key : DocKey) (version : UInt64), attempt.reads[key]? = some version →
      later.reads[key]? = some version)
    (hpast : ∀ (key : DocKey) (version : UInt64), later.reads[key]? = some version →
      version.toNat ≤ s.db.version.toNat)
    (hholds : later.status = .active → law.Holds s.tokens id drafts later) :
    Inv law { s.setAttempt id later with drafts := Function.update s.drafts id drafts } := by
  refine ⟨h.sound, ?_, ?_, h.stamps, ?_, ?_⟩
  · intro other held hother
    rw [attempts_setAttempt] at hother
    split at hother
    · rename_i heq
      cases hother
      rw [heq, hid]
      exact h.ids id attempt hheld
    · exact h.ids other held hother
  · intro other held hother
    rw [attempts_setAttempt] at hother
    split at hother
    · cases hother
      exact hpast
    · exact h.reads other held hother
  · intro token htoken held hother
    rw [attempts_setAttempt] at hother
    split at hother
    · rename_i heq
      cases hother
      obtain ⟨memory, hremembers, hrecalls⟩ := h.memory token htoken attempt (heq ▸ hheld)
      exact ⟨memory, hremembers, fun entry hentry => (hrecalls entry hentry).of_kept hkept⟩
    · exact h.memory token htoken held hother
  · intro other held hother hactive
    rw [attempts_setAttempt] at hother
    dsimp only
    split at hother
    · rename_i heq
      cases hother
      rw [heq, Function.update_self]
      exact hholds hactive
    · rename_i hne
      rw [Function.update_of_ne hne]
      exact h.buffered other held hother hactive

/-- The same where no write phase ran. -/
theorem Inv.setAttempt {law : p.Law} {s : Session τ ω} (h : s.Inv law) {id : UInt64}
    {attempt later : Attempt} (hheld : s.attempts id = some attempt)
    (hid : later.id = attempt.id)
    (hkept : ∀ (key : DocKey) (version : UInt64), attempt.reads[key]? = some version →
      later.reads[key]? = some version)
    (hpast : ∀ (key : DocKey) (version : UInt64), later.reads[key]? = some version →
      version.toNat ≤ s.db.version.toNat)
    (hholds : later.status = .active → law.Holds s.tokens id (s.drafts id) later) :
    Inv law (s.setAttempt id later) := by
  have hreplace : Inv law { s.setAttempt id later with
      drafts := Function.update s.drafts id (s.drafts id) } :=
    h.replace hheld hid hkept hpast hholds
  rwa [Function.update_eq_self] at hreplace

/-! ## Steps inside an attempt -/

/-- An operation that only reads. -/
theorem Inv.reading {law : p.Law} {s : Session τ ω} (h : s.Inv law) {id : UInt64}
    {attempt later : Attempt} {env : Env Unit} (hheld : s.attempts id = some attempt)
    (hstore : env.store = s.env.store) (hreads : Attempt.Reads s.table attempt later) :
    Inv law ({ s with env }.setAttempt id later) := by
  refine (h.of_store_eq hstore).setAttempt hheld hreads.id hreads.kept ?_ ?_
  · intro key version hread
    have hdb : ({ s with env } : Session τ ω).db = s.db := congrArg Store.database hstore
    rw [hdb]
    rcases hreads.fresh key version hread with hold | hnew
    · exact h.reads id attempt hheld key version hold
    · rw [hnew]
      exact h.sound.versionOf_le key
  · intro hactive
    refine (h.buffered id attempt hheld (hreads.status ▸ hactive)).of_writesOn fun key _ => ?_
    rw [hreads.writes]

/-- A read phase that succeeds hands out a token. -/
theorem Inv.keepToken {law : p.Law} {s : Session τ ω} (h : s.Inv law) {token : τ} {id : UInt64}
    {attempt : Attempt} (hheld : s.attempts id = some attempt) (hstamp : law.stamp token = id)
    (hknows : law.Knows s.db attempt token) : Inv law (keepToken token s) := by
  refine ⟨h.sound, h.ids, h.reads, ?_, ?_, ?_⟩
  · intro other hother
    rcases List.mem_append.mp hother with hold | hnew
    · exact h.stamps other hold
    · rw [List.mem_singleton.mp hnew, hstamp]
      exact (h.ids id attempt hheld).2
  · intro other hother held hotherHeld
    rcases List.mem_append.mp hother with hold | hnew
    · exact h.memory other hold held hotherHeld
    · rw [List.mem_singleton.mp hnew] at hotherHeld ⊢
      have hsame : s.attempts id = some held := hstamp ▸ hotherHeld
      rw [hheld] at hsame
      cases hsame
      exact hknows
  · intro other held hotherHeld hactive
    exact (h.buffered other held hotherHeld hactive).append [token]

/-- Writes to the keys of others. -/
theorem Inv.buffering {law : p.Law} {s : Session τ ω} (h : s.Inv law) {id : UInt64}
    {attempt : Attempt} {key : DocKey} {write : Write} (hheld : s.attempts id = some attempt)
    (hactive : attempt.status = .active) (hkey : ¬ p.Owns key) :
    Inv law (s.setAttempt id { attempt with writes := attempt.writes ++ [(key, write)] }) := by
  refine h.setAttempt hheld rfl (fun _ _ hread => hread) (h.reads id attempt hheld) fun _ => ?_
  refine (h.buffered id attempt hheld hactive).of_writesOn fun other hother => ?_
  have hne : key ≠ other := by
    rintro rfl
    exact hkey hother
  simp [writesOn_cons, hne]

/-- An attempt that takes no more operations. -/
theorem Inv.finishing {law : p.Law} {s : Session τ ω} (h : s.Inv law) {id : UInt64}
    {attempt later : Attempt} (hheld : s.attempts id = some attempt)
    (hid : later.id = attempt.id) (hreads : later.reads = attempt.reads)
    (hdone : later.status ≠ .active) : Inv law (s.setAttempt id later) := by
  refine h.setAttempt hheld hid ?_ ?_ (fun hactive => absurd hactive hdone)
  · intro key version hread
    rw [hreads]
    exact hread
  · intro key version hread
    rw [hreads] at hread
    exact h.reads id attempt hheld key version hread

/-! ## What a step means to the primitive -/

/-- What a step means to the primitive: nothing, or it is a commit.  A commit of
an attempt that no write phase ran in is `bare`. -/
inductive Turn (law : p.Law) (s left : Session τ ω) : Prop
  | quiet (log : left.log = s.log)
      (kept : ∀ key, p.Owns key → left.table.document? key = s.table.document? key)
      (tokens : ∀ token ∈ left.tokens, token ∈ s.tokens ∨ law.Seen s.table token)
  | bare (log : left.log = s.log ++ [⟨s.table, []⟩])
      (kept : ∀ key, p.Owns key → left.table.document? key = s.table.document? key)
      (tokens : left.tokens = s.tokens)
  | commit (id : UInt64) (entry : ω) (writes : List (DocKey × Write))
      (log : left.log = s.log ++ [⟨s.table, [entry]⟩])
      (tokens : left.tokens = s.tokens)
      (backed : law.Backed s.tokens id entry writes)
      (recalled : ∀ token ∈ s.tokens, law.stamp token = id →
        ∃ memory, law.Remembers token memory ∧ ∀ entry ∈ memory,
          s.table.document? entry.1 = none ∨ s.table.document? entry.1 = entry.2)
      (applied : ∀ key, p.Owns key →
        (writesOn key writes).foldlM Database.applyWrite (s.table.document? key) =
          .ok (left.table.document? key))

/-- Nothing but the surroundings of the store and the attempts changed. -/
theorem Turn.of_eq {law : p.Law} {s left : Session τ ω} (hlog : left.log = s.log)
    (htable : left.table = s.table) (htokens : left.tokens = s.tokens) : Turn law s left :=
  .quiet hlog (fun key _ => by rw [htable]) (fun token htoken => .inl (htokens ▸ htoken))

/-- A commit makes the writes of the attempt's write phase visible. -/
theorem Turn.of_commits {law : p.Law} {s left : Session τ ω} (h : s.Inv law) {id : UInt64}
    {attempt : Attempt} (hheld : s.attempts id = some attempt)
    (hcommits : s.db.Commits attempt left.db)
    (hlog : left.log = s.log ++ [⟨s.table, s.drafts id⟩]) (htokens : left.tokens = s.tokens) :
    Turn law s left := by
  rcases h.buffered id attempt hheld hcommits.active with
    ⟨hdrafts, hnone⟩ | ⟨entry, writes, hdrafts, hbacked, hwrites⟩
  · rw [hdrafts] at hlog
    refine .bare hlog (fun key hkey => ?_) htokens
    exact congrArg (Option.map Stored.document) (hcommits.kept key (hnone key hkey))
  · rw [hdrafts] at hlog
    refine .commit id entry writes hlog htokens hbacked ?_ (fun key hkey => ?_)
    · intro token htoken hstamp
      obtain ⟨memory, hremembers, hrecalls⟩ :=
        h.memory token htoken attempt (hstamp ▸ hheld)
      exact ⟨memory, hremembers, fun read hread => (hrecalls read hread).valid hcommits⟩
    · rw [← hwrites key hkey]
      exact hcommits.applied key

/-! ## One lemma for each step -/

/-- An attempt that is new to the session. -/
theorem Inv.adding {law : p.Law} {s : Session τ ω} (h : s.Inv law) {attempt : Attempt}
    (hfresh : ∀ token ∈ s.tokens, law.stamp token ≠ attempt.id)
    (hlt : attempt.id.toNat < s.db.nextId.toNat) (hreads : attempt.reads = ∅)
    (hwrites : attempt.writes = []) :
    Inv law { s.setAttempt attempt.id attempt with
      drafts := Function.update s.drafts attempt.id [] } := by
  refine ⟨h.sound, ?_, ?_, h.stamps, ?_, ?_⟩
  · intro other held hheld
    rw [attempts_setAttempt] at hheld
    split at hheld
    · rename_i heq
      cases hheld
      exact ⟨heq.symm, heq ▸ hlt⟩
    · exact h.ids other held hheld
  · intro other held hheld
    rw [attempts_setAttempt] at hheld
    split at hheld
    · cases hheld
      intro key version hread
      simp [hreads] at hread
    · exact h.reads other held hheld
  · intro token htoken held hheld
    rw [attempts_setAttempt, if_neg (hfresh token htoken)] at hheld
    exact h.memory token htoken held hheld
  · intro other held hheld hactive
    rw [attempts_setAttempt] at hheld
    dsimp only
    split at hheld
    · rename_i heq
      cases hheld
      rw [heq, Function.update_self]
      exact .inl ⟨rfl, fun key _ => by simp [hwrites]⟩
    · rename_i hne
      rw [Function.update_of_ne hne]
      exact h.buffered other held hheld hactive

theorem Inv.stepBegin {law : p.Law} {s : Session τ ω} (h : s.Inv law) (room : s.db.HasRoom) :
    Inv law s.stepBegin ∧ Turn law s s.stepBegin := by
  rcases s.stepBegin_cases with hsame | ⟨env, hdb, hstep⟩
  · rw [hsame]
    exact ⟨h, .of_eq rfl rfl rfl⟩
  · have htable : env.store.table = s.table := by
      rw [Store.table, hdb]
      rfl
    rw [hstep]
    refine ⟨?_, .of_eq rfl htable rfl⟩
    have hsucc := room.nextId_succ
    have hmoves : s.db.Moves env.store.database := by
      rw [hdb]
      exact .of_eq rfl rfl (by dsimp only; omega)
    let begun : Attempt := { id := s.db.nextId }
    show Inv law { ({ s with env } : Session τ ω).setAttempt begun.id begun with
      drafts := Function.update s.drafts begun.id [] }
    refine (h.moves hmoves).adding ?_ ?_ rfl rfl
    · intro token htoken heq
      have hlt := h.stamps token htoken
      rw [heq] at hlt
      exact Nat.lt_irrefl _ hlt
    · show s.db.nextId.toNat < env.store.database.nextId.toNat
      rw [hdb]
      dsimp only
      omega

theorem Inv.stepCommit {law : p.Law} {s : Session τ ω} (h : s.Inv law) (room : s.db.HasRoom)
    (id : UInt64) : Inv law (s.stepCommit id) ∧ Turn law s (s.stepCommit id) := by
  rcases s.stepCommit_cases id with
    hsame | ⟨attempt, hheld, env, ⟨changed, hdb, hchanged, hstep⟩ | ⟨hcommits, hstep⟩⟩
  · rw [hsame]
    exact ⟨h, .of_eq rfl rfl rfl⟩
  · rw [hstep]
    refine ⟨?_, .of_eq rfl (congrArg Database.table hdb) rfl⟩
    have hmoved : Inv law { s with env } := h.moves (hdb ▸ .refl _)
    rcases hchanged with rfl | ⟨reason, rfl⟩
    · exact hmoved.setAttempt hheld rfl (fun _ _ hread => hread)
        (hmoved.reads id _ hheld) (hmoved.buffered id _ hheld)
    · exact hmoved.finishing hheld rfl rfl Status.noConfusion
  · rw [hstep]
    refine ⟨?_, .of_commits h hheld hcommits rfl rfl⟩
    have hmoved : Inv law { s with env } := h.moves (hcommits.moves room.1)
    have hset : Inv law (({ s with env } : Session τ ω).setAttempt id
        { attempt with status := .committed }) :=
      hmoved.finishing hheld rfl rfl Status.noConfusion
    exact ⟨hset.sound, hset.ids, hset.reads, hset.stamps, hset.memory, hset.buffered⟩

theorem Inv.stepAbort {law : p.Law} {s : Session τ ω} (h : s.Inv law) (id : UInt64)
    (reason : String) : Inv law (s.stepAbort id reason) ∧ Turn law s (s.stepAbort id reason) := by
  rcases s.stepAbort_cases id reason with hsame | ⟨attempt, hheld, env, hdb, hstep⟩
  · rw [hsame]
    exact ⟨h, .of_eq rfl rfl rfl⟩
  · rw [hstep]
    refine ⟨?_, .of_eq rfl (congrArg Database.table hdb) rfl⟩
    have hmoved : Inv law { s with env } := h.moves (hdb ▸ .refl _)
    exact hmoved.finishing hheld rfl rfl Status.noConfusion

/-! ## Phases and other operations -/

theorem Inv.stepRead {law : p.Law} {s : Session τ ω} (h : s.Inv law) (id : UInt64)
    {phase : TxOp Unit τ} (hphase : p.Reads phase) :
    Inv law (s.step (.read id phase)) ∧ Turn law s (s.step (.read id phase)) := by
  rw [Session.step]
  rcases s.inside_cases id phase Session.keepToken with
    hsame | ⟨attempt, hheld, outcome, later, left, hrun, hstep⟩
  · rw [hsame]
    exact ⟨h, .of_eq rfl rfl rfl⟩
  · rw [hstep]
    obtain ⟨hstore, hreads, htoken⟩ := law.read hphase hrun
    have hset : Inv law ({ s with env := left }.setAttempt id later) :=
      h.reading hheld hstore hreads
    have htable : left.store.table = s.table := congrArg Store.table hstore
    cases outcome with
    | error error => exact ⟨hset, .of_eq rfl htable rfl⟩
    | ok token =>
      obtain ⟨hstamp, hseen, memory, hremembers, hmemory⟩ := htoken token rfl
      have hid : attempt.id = id := (h.ids id attempt hheld).1
      have hlater : ({ s with env := left }.setAttempt id later).attempts id = some later := by
        simp
      refine ⟨hset.keepToken hlater (hstamp.trans hid) ?_,
        .quiet rfl (fun key _ => congrArg (Table.document? · key) htable) ?_⟩
      · refine ⟨memory, hremembers, fun entry hentry => ?_⟩
        obtain ⟨⟨version, hrecorded⟩, hread⟩ := hmemory entry hentry
        refine .of_read hrecorded (hset.reads id later hlater entry.1 version hrecorded) ?_
        exact (congrArg (Table.document? · entry.1) htable).trans hread
      · intro other hother
        rcases List.mem_append.mp hother with hold | hnew
        · exact .inl hold
        · rw [List.mem_singleton.mp hnew]
          exact .inr hseen

theorem Inv.stepWrite {law : p.Law} {s : Session τ ω} (h : s.Inv law) (id : UInt64)
    {phase : TxOp Unit ω} (hphase : p.Writes s.tokens phase)
    (hsingle : ((s.step (.write id phase)).drafts id).length ≤ 1) :
    Inv law (s.step (.write id phase)) ∧ Turn law s (s.step (.write id phase)) := by
  rw [Session.step] at hsingle ⊢
  rcases s.inside_cases id phase (Session.keepDraft id) with
    hsame | ⟨attempt, hheld, outcome, later, left, hrun, hstep⟩
  · rw [hsame]
    exact ⟨h, .of_eq rfl rfl rfl⟩
  · rw [hstep] at hsingle ⊢
    obtain ⟨hstore, hcases⟩ := law.write hphase hrun
    have htable : left.store.table = s.table := congrArg Store.table hstore
    rcases hcases with ⟨⟨error, rfl⟩, rfl⟩ | ⟨entry, writes, rfl, rfl, hbacked⟩
    · exact ⟨h.reading hheld hstore (.refl _ _), .of_eq rfl htable rfl⟩
    · refine ⟨?_, .of_eq rfl htable rfl⟩
      have hmoved : Inv law { s with env := left } := h.of_store_eq hstore
      have hempty : s.drafts id = [] := by
        simp only [Session.keepDraft, drafts_setAttempt, Function.update_self,
          List.length_append, List.length_singleton] at hsingle
        exact List.length_eq_zero_iff.mp (by omega)
      refine hmoved.replace hheld rfl
        (fun _ _ hread => hread) (hmoved.reads id attempt hheld) fun hactive => ?_
      rcases h.buffered id attempt hheld hactive with ⟨-, hnone⟩ | ⟨other, _, hdrafts, -⟩
      · have hid : attempt.id = id := (h.ids id attempt hheld).1
        refine .inr ⟨entry, writes, congrArg (· ++ [entry]) hempty, hid ▸ hbacked,
          fun key hkey => ?_⟩
        simp [hnone key hkey]
      · rw [hempty] at hdrafts
        cases hdrafts

/-- A write to a key of others. -/
theorem Inv.stepChange {law : p.Law} {s : Session τ ω} (h : s.Inv law) (id : UInt64)
    {request : Attempt → Except Error Attempt} {key : DocKey} (hkey : ¬ p.Owns key)
    (hrequest : ∀ attempt later, request attempt = .ok later → attempt.status = .active ∧
      ∃ write, later = { attempt with writes := attempt.writes ++ [(key, write)] }) :
    Inv law (s.step (.touch id (TxOp.change request))) ∧
      Turn law s (s.step (.touch id (TxOp.change request))) := by
  rcases s.step_change_cases id request with hsame | ⟨attempt, hheld, later, hlater, hstep⟩
  · rw [hsame]
    exact ⟨h, .of_eq rfl rfl rfl⟩
  · rw [hstep]
    refine ⟨?_, .of_eq rfl rfl rfl⟩
    rcases hlater with rfl | hlater
    · exact h.reading hheld rfl (.refl _ _)
    · obtain ⟨hactive, write, rfl⟩ := hrequest attempt later hlater
      exact h.buffering hheld hactive hkey

theorem Inv.stepGet {law : p.Law} {s : Session τ ω} (h : s.Inv law) (id : UInt64)
    (key : DocKey) :
    Inv law (s.step (.touch id ((fun _ => ()) <$> TxOp.get key))) ∧
      Turn law s (s.step (.touch id ((fun _ => ()) <$> TxOp.get key))) := by
  rcases s.step_get_cases id key with hsame | ⟨attempt, hheld, later, hreads, hstep⟩
  · rw [hsame]
    exact ⟨h, .of_eq rfl rfl rfl⟩
  · rw [hstep]
    exact ⟨h.reading hheld rfl hreads, .of_eq rfl rfl rfl⟩

/-- A change of the database that leaves the documents of the primitive alone. -/
theorem Inv.stepMove {law : p.Law} {s : Session τ ω} (h : s.Inv law) {env : Env Unit}
    (hmoves : s.db.Moves env.store.database)
    (hkept : ∀ key, p.Owns key → env.store.table.get? key = s.table.get? key) :
    Inv law { s with env } ∧ Turn law s { s with env } := by
  refine ⟨h.moves hmoves, .quiet rfl (fun key hkey => ?_) (fun token htoken => .inl htoken)⟩
  exact congrArg (Option.map Stored.document) (hkept key hkey)

theorem Inv.stepInsert {law : p.Law} {s : Session τ ω} (h : s.Inv law) (room : s.db.HasRoom)
    {key : DocKey} (document : Document) (hkey : ¬ p.Owns key) :
    Inv law (s.step (.request (Op.insert key document))) ∧
      Turn law s (s.step (.request (Op.insert key document))) := by
  rcases s.step_insert_cases key document with hsame | ⟨env, hdb, hstep⟩
  · rw [hsame]
    exact ⟨h, .of_eq rfl rfl rfl⟩
  · rw [hstep]
    refine h.stepMove (hdb ▸ Database.moves_put room key document) fun other hother => ?_
    have hne : key ≠ other := by
      rintro rfl
      exact hkey hother
    rw [Store.table, hdb]
    exact (Table.get?_put ..).trans (if_neg hne)

theorem Inv.stepRemove {law : p.Law} {s : Session τ ω} (h : s.Inv law) (room : s.db.HasRoom)
    (ctx : Context) {key : DocKey} (hkey : ¬ p.Owns key) :
    Inv law (s.step (.request (Op.delete ctx key))) ∧
      Turn law s (s.step (.request (Op.delete ctx key))) := by
  rcases s.step_remove_cases ctx key with hsame | ⟨env, hdb, hstep⟩
  · rw [hsame]
    exact ⟨h, .of_eq rfl rfl rfl⟩
  · rw [hstep]
    refine h.stepMove (hdb ▸ Database.moves_remove room key) fun other hother => ?_
    have hne : key ≠ other := by
      rintro rfl
      exact hkey hother
    rw [Store.table, hdb]
    exact (Table.get?_remove ..).trans (if_neg hne)

/-! ## The step lemma -/

/-- Every step of a run keeps the invariant, and is a turn. -/
theorem Inv.step {law : p.Law} {s : Session τ ω} {action : Action τ ω} (h : s.Inv law)
    (allowed : p.Allows s action) (room : s.db.HasRoom) :
    Inv law (s.step action) ∧ Turn law s (s.step action) := by
  cases allowed with
  | begin => exact h.stepBegin room
  | read id hphase => exact h.stepRead id hphase
  | write id hphase hsingle => exact h.stepWrite id hphase hsingle
  | commit id => exact h.stepCommit room id
  | abort id reason => exact h.stepAbort id reason
  | get id key => exact h.stepGet id key
  | set id fields merge hkey =>
    refine h.stepChange id hkey fun attempt later hlater => ?_
    obtain ⟨hactive, hwritten⟩ := Attempt.buffer_eq_ok hlater
    exact ⟨hactive, _, hwritten⟩
  | increment id field delta hkey =>
    refine h.stepChange id hkey fun attempt later hlater => ?_
    obtain ⟨-, hactive, hwritten⟩ := Attempt.increment_eq_ok hlater
    exact ⟨hactive, _, hwritten⟩
  | delete id hkey =>
    refine h.stepChange id hkey fun attempt later hlater => ?_
    obtain ⟨hactive, hwritten⟩ := Attempt.buffer_eq_ok hlater
    exact ⟨hactive, _, hwritten⟩
  | insert document hkey => exact h.stepInsert room document hkey
  | remove ctx hkey => exact h.stepRemove room ctx hkey
  | close => exact h.stepMove (.refl _) fun _ _ => rfl
  | pause delay => exact h.stepMove (.refl _) fun _ _ => rfl
  | surround change hstore =>
    refine ⟨h.of_store_eq (hstore s.env), .of_eq rfl ?_ rfl⟩
    exact congrArg Store.table (hstore s.env)

end Session

namespace Protocol

open Session

variable {τ ω : Type} {p : Protocol τ ω}

theorem Reaches.inv (law : p.Law) {start s : Session τ ω} (h : p.Reaches start s)
    (hstart : p.Starts start) : s.Inv law := by
  induction h with
  | start => exact .of_starts hstart
  | step _ allowed room _ ih => exact (ih.step allowed room).1

/-- Induction over a run, turn by turn. -/
theorem Reaches.rec_turns (law : p.Law) {motive : Session τ ω → Prop} {start s : Session τ ω}
    (h : p.Reaches start s) (hstart : p.Starts start) (base : motive start)
    (turn : ∀ {s left : Session τ ω}, Turn law s left → p.Fits left.log → motive s →
      motive left) : motive s := by
  induction h with
  | start => exact base
  | step before allowed room fits ih =>
    exact turn ((before.inv law hstart).step allowed room).2 fits ih

end Protocol

end Shardwise
