import Shardwise.Proofs.Session.Invariant

/-!
# What reads are worth at a commit

The attempts of a run read documents while others commit, insert and remove them.
`Reading` notes what one read found, and `Session.Runs` are the runs in which every
read is noted.

An attempt records one version of each key, that of its first read.  At a commit
this version is compared with the current one, and so what the first read found is
still there.  A later read of the same key saw what was there in between.  It is
right as well, unless the first read found nothing: nothing has version 0, and so
has a document that was made and removed again.

* `Attempt.Opens` is what an attempt knows of the first read of a key, and
  `Opens.moves` says that no change of the database makes it wrong.
* `Session.Opened` is the invariant of runs, `Opened.quiet` and `Opened.take` its
  steps.
* `Session.found_iff` says which reads of a committed attempt hold at its commit.
-/

namespace Shardwise

/-- What a read inside an attempt found. -/
structure Reading where
  attempt : UInt64
  key : DocKey
  found : Option Document

namespace Reading

/-- Reads a document and notes what was found. -/
def take (key : DocKey) : TxOp Unit Reading := do
  let found ← TxOp.get key
  return ⟨(← TxOp.attempt).id, key, found⟩

@[simp] theorem runIn_take (key : DocKey) (attempt : Attempt) (env : Env Unit) :
    (take key).runIn attempt env =
      match attempt.get env.store.table key with
      | .ok (found, later) => (.ok ⟨later.id, key, found⟩, later, env)
      | .error error => (.error error, attempt, env) := by
  rcases h : attempt.get env.store.table key with error | ⟨found, later⟩ <;> simp [take, h]

/-- Reads are the only phases, and every document may be written by everybody. -/
def protocol : Protocol Reading Empty where
  Owns _ := False
  Reads phase := ∃ key, phase = take key
  Writes _ _ := False
  Fits _ := True

/-- What has to be known of reads. -/
def law : protocol.Law where
  stamp reading := reading.attempt
  Seen table reading := table.document? reading.key = reading.found
  Remembers reading memory := memory = [(reading.key, reading.found)]
  Backed _ _ _ _ := False
  read := by
    rintro _ attempt env outcome later left ⟨key, rfl⟩ hrun
    rw [runIn_take] at hrun
    rcases hget : attempt.get env.store.table key with error | ⟨found, changed⟩
    · rw [hget] at hrun
      cases hrun
      exact ⟨rfl, .refl _ _, fun _ h => by cases h⟩
    · rw [hget] at hrun
      cases hrun
      obtain ⟨-, -, hfound, hreads, hrecorded⟩ := Attempt.get_eq_ok hget
      refine ⟨rfl, hreads, ?_⟩
      rintro reading ⟨⟩
      refine ⟨hreads.id, hfound.symm, _, rfl, fun entry hentry => ?_⟩
      rw [List.mem_singleton.mp hentry]
      exact ⟨hrecorded, hfound.symm⟩
  write := by
    rintro tokens phase attempt env outcome later left h
    exact h.elim
  backed_append := by
    rintro tokens id entry
    exact entry.elim

end Reading

/-! ## The first read of a key -/

namespace Attempt

/-- The attempt recorded a version of a key when it found `first` there: while
that version is the current one, so is the document. -/
def Opens (attempt : Attempt) (db : Database) (key : DocKey) (first : Option Document) : Prop :=
  ∃ version, attempt.reads[key]? = some version ∧ version.toNat ≤ db.version.toNat ∧
    (version = 0 → first = none) ∧
    (db.table.versionOf key = version → db.table.document? key = first)

/-- What was just read for the first time. -/
theorem Opens.of_get {attempt later : Attempt} {db : Database} (hsound : db.Sound) {key : DocKey}
    {found : Option Document} (hget : attempt.get db.table key = .ok (found, later))
    (hnew : attempt.reads[key]? = none) : later.Opens db key found := by
  obtain ⟨-, -, hfound, hreads, version, hrecorded⟩ := get_eq_ok hget
  have hversion : version = db.table.versionOf key := by
    rcases hreads.fresh key version hrecorded with hold | hcurrent
    · rw [hnew] at hold
      cases hold
    · exact hcurrent
  refine ⟨version, hrecorded, hversion ▸ hsound.versionOf_le key, fun hzero => ?_,
    fun _ => hfound.symm⟩
  rw [hfound, Table.document?_eq_none]
  exact hsound.versionOf_eq_zero (hversion ▸ hzero)

/-- No change of the database makes an attempt know its first read wrongly: a
document that is written gets a version above the recorded one, and one that is
removed gets the version of what was never there. -/
theorem Opens.moves {attempt : Attempt} {db left : Database} {key : DocKey}
    {first : Option Document} (h : attempt.Opens db key first) (hmoves : db.Moves left) :
    attempt.Opens left key first := by
  obtain ⟨version, hrecorded, hle, hzero, hknown⟩ := h
  refine ⟨version, hrecorded, Nat.le_trans hle hmoves.version_le, hzero, fun hagree => ?_⟩
  rcases hmoves.entry key with hkept | hgone | ⟨stored, hstored, hnew, -⟩
  · simp only [Table.versionOf, Table.document?, hkept] at hagree ⊢
    exact hknown hagree
  · rw [Table.versionOf_eq_zero hgone] at hagree
    rw [Table.document?_eq_none.mpr hgone, hzero hagree.symm]
  · rw [Table.versionOf_eq hstored] at hagree
    rw [hagree] at hnew
    omega

/-- What is known of a first read hangs on the recorded versions alone. -/
theorem Opens.of_kept {attempt later : Attempt} {db : Database} {key : DocKey}
    {first : Option Document} (h : attempt.Opens db key first)
    (hkept : ∀ (key : DocKey) (version : UInt64), attempt.reads[key]? = some version →
      later.reads[key]? = some version) : later.Opens db key first := by
  obtain ⟨version, hrecorded, hknown⟩ := h
  exact ⟨version, hkept key version hrecorded, hknown⟩

/-- At a commit that finds its reads valid, a document is as it was read first. -/
theorem Opens.valid {attempt : Attempt} {db left : Database} {key : DocKey}
    {first : Option Document} (h : attempt.Opens db key first)
    (hcommits : db.Commits attempt left) : db.table.document? key = first := by
  obtain ⟨version, hrecorded, -, -, hknown⟩ := h
  exact hknown (hcommits.valid key version hrecorded)

end Attempt

/-! ## Runs in which reads are noted -/

namespace Session

/-- What callers ask of the store.  Reads are noted. -/
inductive Asks : Action Reading Empty → Prop
  | begin : Asks .begin
  | get (id : UInt64) (key : DocKey) : Asks (.read id (Reading.take key))
  | set (id : UInt64) (key : DocKey) (fields : Fields) (merge : Bool) :
      Asks (.touch id (TxOp.set key fields merge))
  | increment (id : UInt64) (key : DocKey) (field : String) (delta : Value) :
      Asks (.touch id (TxOp.increment key field delta))
  | delete (id : UInt64) (key : DocKey) : Asks (.touch id (TxOp.delete key))
  | commit (id : UInt64) : Asks (.commit id)
  | abort (id : UInt64) (reason : String) : Asks (.abort id reason)
  | insert (key : DocKey) (document : Document) : Asks (.request (Op.insert key document))
  | remove (ctx : Context) (key : DocKey) : Asks (.request (Op.delete ctx key))
  | close : Asks (.request (Op.change fun store => .ok store.close))

/-- The states of the runs from `start`, as long as the words that count versions
and attempts last. -/
inductive Runs (start : Session Reading Empty) : Session Reading Empty → Prop
  | start : Runs start start
  | step {s : Session Reading Empty} {action : Action Reading Empty} (before : Runs start s)
      (asks : Asks action) (room : s.db.HasRoom) : Runs start (s.step action)

theorem Asks.allows {action : Action Reading Empty} (h : Asks action)
    (s : Session Reading Empty) : Reading.protocol.Allows s action := by
  cases h with
  | begin => exact .begin
  | get id key => exact .read id ⟨key, rfl⟩
  | set id key fields merge => exact .set id fields merge not_false
  | increment id key field delta => exact .increment id field delta not_false
  | delete id key => exact .delete id not_false
  | commit id => exact .commit id
  | abort id reason => exact .abort id reason
  | insert key document => exact .insert document not_false
  | remove ctx key => exact .remove ctx not_false
  | close => exact .close

theorem Runs.reaches {start s : Session Reading Empty} (h : Runs start s) :
    Reading.protocol.Reaches start s := by
  induction h with
  | start => exact .start
  | step _ asks room ih => exact ih.step (asks.allows _) room trivial

/-- The reads of an attempt, the earliest first. -/
def readings (s : Session Reading Empty) (id : UInt64) : List Reading :=
  s.tokens.filter fun reading => reading.attempt = id

/-- The first read of a key in an attempt. -/
def opening (s : Session Reading Empty) (id : UInt64) (key : DocKey) : Option Reading :=
  (s.readings id).find? fun reading => reading.key = key

/-- What the attempts of a run know of their first reads. -/
structure Opened (s : Session Reading Empty) : Prop where
  unread : ∀ id attempt, s.attempts id = some attempt → ∀ key, s.opening id key = none →
    attempt.reads[key]? = none
  opened : ∀ id attempt, s.attempts id = some attempt → ∀ key first,
    s.opening id key = some first → attempt.Opens s.db key first.found

/-- A step in which nobody reads: the database moves, and attempts keep what they
recorded, or begin. -/
structure Quiet (s left : Session Reading Empty) : Prop where
  moves : s.db.Moves left.db
  tokens : left.tokens = s.tokens
  attempts : ∀ id attempt, left.attempts id = some attempt →
    (∃ before, s.attempts id = some before ∧ attempt.reads = before.reads) ∨
      attempt.reads = ∅ ∧ id = s.db.nextId

/-! ## Steps in which nobody reads -/

theorem Quiet.refl (s : Session Reading Empty) : s.Quiet s :=
  ⟨.refl _, rfl, fun _ attempt h => .inl ⟨attempt, h, rfl⟩⟩

/-- Nothing but the database changes. -/
theorem Quiet.of_moves {s : Session Reading Empty} {env : Env Unit}
    (h : s.db.Moves env.store.database) : s.Quiet { s with env } :=
  ⟨h, rfl, fun _ attempt hheld => .inl ⟨attempt, hheld, rfl⟩⟩

/-- The database moves, and an attempt goes on with what it recorded. -/
theorem Quiet.of_later {s : Session Reading Empty} {env : Env Unit}
    (h : s.db.Moves env.store.database) {id : UInt64} {attempt later : Attempt}
    (hheld : s.attempts id = some attempt) (hreads : later.reads = attempt.reads) :
    s.Quiet ({ s with env }.setAttempt id later) := by
  refine ⟨h, rfl, fun other held hother => .inl ?_⟩
  rw [attempts_setAttempt] at hother
  split at hother
  · rename_i heq
    cases hother
    exact ⟨attempt, heq ▸ hheld, hreads⟩
  · exact ⟨held, hother, rfl⟩

theorem quiet_begin {s : Session Reading Empty} (room : s.db.HasRoom) : s.Quiet s.stepBegin := by
  rcases s.stepBegin_cases with hsame | ⟨env, hdb, hstep⟩
  · rw [hsame]
    exact .refl s
  · rw [hstep]
    have hsucc := room.nextId_succ
    have hmoves : s.db.Moves env.store.database := by
      rw [hdb]
      exact .of_eq rfl rfl (by dsimp only; omega)
    refine ⟨hmoves, rfl, fun id attempt hheld => ?_⟩
    have hheld : Function.update s.attempts s.db.nextId (some { id := s.db.nextId }) id =
        some attempt := hheld
    rw [Function.update_apply] at hheld
    split at hheld
    · rename_i heq
      cases hheld
      exact .inr ⟨rfl, heq⟩
    · exact .inl ⟨attempt, hheld, rfl⟩

theorem quiet_commit {s : Session Reading Empty} (room : s.db.HasRoom) (id : UInt64) :
    s.Quiet (s.stepCommit id) := by
  rcases s.stepCommit_cases id with
    hsame | ⟨attempt, hheld, env, ⟨changed, hdb, hchanged, hstep⟩ | ⟨hcommits, hstep⟩⟩
  · rw [hsame]
    exact .refl s
  · rw [hstep]
    refine .of_later (hdb ▸ .refl _) hheld ?_
    rcases hchanged with rfl | ⟨reason, rfl⟩ <;> rfl
  · rw [hstep]
    let later : Attempt := { attempt with status := .committed }
    have hlater : s.Quiet (({ s with env } : Session Reading Empty).setAttempt id later) :=
      .of_later (hcommits.moves room.1) hheld rfl
    exact ⟨hlater.moves, hlater.tokens, hlater.attempts⟩

theorem quiet_abort {s : Session Reading Empty} (id : UInt64) (reason : String) :
    s.Quiet (s.stepAbort id reason) := by
  rcases s.stepAbort_cases id reason with hsame | ⟨attempt, hheld, env, hdb, hstep⟩
  · rw [hsame]
    exact .refl s
  · rw [hstep]
    exact .of_later (hdb ▸ .refl _) hheld rfl

/-- A write inside an attempt. -/
theorem quiet_change {s : Session Reading Empty} (id : UInt64)
    {request : Attempt → Except Error Attempt}
    (hrequest : ∀ attempt later, request attempt = .ok later → later.reads = attempt.reads) :
    s.Quiet (s.step (.touch id (TxOp.change request))) := by
  rcases s.step_change_cases id request with hsame | ⟨attempt, hheld, later, hlater, hstep⟩
  · rw [hsame]
    exact .refl s
  · rw [hstep]
    refine .of_later (.refl _) hheld ?_
    rcases hlater with rfl | hlater
    · rfl
    · exact hrequest attempt later hlater

theorem quiet_insert {s : Session Reading Empty} (room : s.db.HasRoom) (key : DocKey)
    (document : Document) : s.Quiet (s.step (.request (Op.insert key document))) := by
  rcases s.step_insert_cases key document with hsame | ⟨env, hdb, hstep⟩
  · rw [hsame]
    exact .refl s
  · rw [hstep]
    exact .of_moves (hdb ▸ Database.moves_put room key document)

theorem quiet_remove {s : Session Reading Empty} (room : s.db.HasRoom) (ctx : Context)
    (key : DocKey) : s.Quiet (s.step (.request (Op.delete ctx key))) := by
  rcases s.step_remove_cases ctx key with hsame | ⟨env, hdb, hstep⟩
  · rw [hsame]
    exact .refl s
  · rw [hstep]
    exact .of_moves (hdb ▸ Database.moves_remove room key)

/-- Only reads are not quiet. -/
theorem Asks.quiet_or_get {action : Action Reading Empty} (h : Asks action)
    {s : Session Reading Empty} (room : s.db.HasRoom) :
    s.Quiet (s.step action) ∨ ∃ id key, action = .read id (Reading.take key) := by
  cases h with
  | get id key => exact .inr ⟨id, key, rfl⟩
  | begin => exact .inl (quiet_begin room)
  | set id key fields merge =>
    refine .inl (quiet_change id fun attempt later hlater => ?_)
    rw [(Attempt.buffer_eq_ok hlater).2]
  | increment id key field delta =>
    refine .inl (quiet_change id fun attempt later hlater => ?_)
    rw [(Attempt.increment_eq_ok hlater).2.2]
  | delete id key =>
    refine .inl (quiet_change id fun attempt later hlater => ?_)
    rw [(Attempt.buffer_eq_ok hlater).2]
  | commit id => exact .inl (quiet_commit room id)
  | abort id reason => exact .inl (quiet_abort id reason)
  | insert key document => exact .inl (quiet_insert room key document)
  | remove ctx key => exact .inl (quiet_remove room ctx key)
  | close => exact .inl (.of_moves (.refl _))

/-! ## The invariant -/

theorem opening_congr {s left : Session Reading Empty} (h : left.tokens = s.tokens) (id : UInt64)
    (key : DocKey) : left.opening id key = s.opening id key := by
  simp only [opening, readings, h]

/-- The first read of a key is one of its attempt. -/
theorem opening_eq_some {s : Session Reading Empty} {id : UInt64} {key : DocKey} {first : Reading}
    (h : s.opening id key = some first) : first ∈ s.readings id ∧ first.key = key :=
  ⟨List.mem_of_find?_eq_some h, by simpa using List.find?_some h⟩

/-- One more read. -/
theorem opening_append {s left : Session Reading Empty} {last : Reading}
    (h : left.tokens = s.tokens ++ [last]) (id : UInt64) (key : DocKey) :
    left.opening id key = (s.opening id key).or
      (if last.attempt = id ∧ last.key = key then some last else none) := by
  simp only [opening, readings, h, List.filter_append, List.find?_append]
  by_cases hid : last.attempt = id <;> by_cases hkey : last.key = key <;> simp [hid, hkey]

theorem Opened.of_starts {s : Session Reading Empty} (h : Reading.protocol.Starts s) :
    s.Opened := by
  constructor <;> intro id attempt hheld <;> simp [h.attempts] at hheld

theorem Opened.quiet {s left : Session Reading Empty} (h : s.Opened) (hinv : s.Inv Reading.law)
    (hquiet : s.Quiet left) : left.Opened := by
  constructor
  · intro id attempt hheld key hnone
    rw [opening_congr hquiet.tokens] at hnone
    rcases hquiet.attempts id attempt hheld with ⟨before, hbefore, hreads⟩ | ⟨hreads, -⟩
    · rw [hreads]
      exact h.unread id before hbefore key hnone
    · simp [hreads]
  · intro id attempt hheld key first hfirst
    rw [opening_congr hquiet.tokens] at hfirst
    rcases hquiet.attempts id attempt hheld with ⟨before, hbefore, hreads⟩ | ⟨-, hnew⟩
    · refine ((h.opened id before hbefore key first hfirst).moves hquiet.moves).of_kept ?_
      intro other version hread
      rw [hreads]
      exact hread
    · -- Nobody read in an attempt that begins now.
      obtain ⟨hmem, -⟩ := opening_eq_some hfirst
      obtain ⟨htoken, hid⟩ := List.mem_filter.mp hmem
      have hlt := hinv.stamps first htoken
      have hstamp : Reading.law.stamp first = s.db.nextId := (of_decide_eq_true hid).trans hnew
      rw [hstamp] at hlt
      exact absurd hlt (Nat.lt_irrefl _)

/-- A read that succeeds. -/
theorem Opened.take_ok {s left : Session Reading Empty} (h : s.Opened) (hsound : s.db.Sound)
    {id : UInt64} {key : DocKey} {attempt later : Attempt} {found : Option Document}
    (hheld : s.attempts id = some attempt) (hget : attempt.get s.table key = .ok (found, later))
    (hdb : left.db = s.db) (htokens : left.tokens = s.tokens ++ [⟨id, key, found⟩])
    (hattempts : left.attempts = Function.update s.attempts id (some later)) : left.Opened := by
  have hreads := Attempt.reads_of_get hget
  have hkept := (Attempt.get_eq_ok hget).2.2.2.1.kept
  constructor
  · intro other held hother name hnone
    rw [opening_append htokens, Option.or_eq_none_iff] at hnone
    rw [hattempts, Function.update_apply] at hother
    split at hother
    · rename_i heq
      cases hother
      have hname : key ≠ name := by
        rintro rfl
        simp [heq] at hnone
      rw [hreads, Attempt.getElem?_record, if_neg (fun hboth => hname hboth.1)]
      exact h.unread id attempt hheld name (heq ▸ hnone.1)
    · exact h.unread other held hother name hnone.1
  · intro other held hother name first hfirst
    rw [opening_append htokens] at hfirst
    rw [hdb]
    rw [hattempts, Function.update_apply] at hother
    split at hother
    · rename_i heq
      cases hother
      rw [heq] at hfirst
      cases hold : s.opening id name with
      | some earlier =>
        rw [hold] at hfirst
        cases hfirst
        exact (h.opened id attempt hheld name _ hold).of_kept hkept
      | none =>
        rw [hold, Option.none_or] at hfirst
        split at hfirst
        · rename_i hplace
          cases hfirst
          obtain ⟨-, rfl⟩ := hplace
          exact .of_get hsound hget (h.unread id attempt hheld _ hold)
        · cases hfirst
    · rename_i hne
      have hlast : ¬ (id = other ∧ key = name) := fun hboth => hne hboth.1.symm
      rw [if_neg hlast, Option.or_none] at hfirst
      exact h.opened other held hother name first hfirst

theorem Opened.take {s : Session Reading Empty} (h : s.Opened) (hinv : s.Inv Reading.law)
    (id : UInt64) (key : DocKey) : (s.step (.read id (Reading.take key))).Opened := by
  simp only [step, inside]
  cases hheld : s.attempts id with
  | none => exact h
  | some attempt =>
    dsimp only
    rw [Reading.runIn_take]
    rcases hget : attempt.get s.env.store.table key with error | ⟨found, later⟩
    · exact h.quiet hinv (.of_later (.refl _) hheld rfl)
    · have hid : later.id = id :=
        (Attempt.get_eq_ok hget).2.2.2.1.id.trans (hinv.ids id attempt hheld).1
      dsimp only
      rw [hid]
      exact h.take_ok hinv.sound hheld hget rfl rfl rfl

theorem Runs.opened {start s : Session Reading Empty} (h : Runs start s)
    (hstart : Reading.protocol.Starts start) : s.Opened := by
  induction h with
  | start => exact .of_starts hstart
  | step before asks room ih =>
    have hinv := before.reaches.inv Reading.law hstart
    rcases asks.quiet_or_get room with hquiet | ⟨id, key, rfl⟩
    · exact ih.quiet hinv hquiet
    · exact ih.take hinv id key

/-! ## Reads at a commit -/

/-- The attempt found nothing when it first read the key, later a document, and
now there is nothing again. -/
def Revived (s : Session Reading Empty) (reading : Reading) : Prop :=
  (∃ first, s.opening reading.attempt reading.key = some first ∧ first.found = none) ∧
    reading.found ≠ none ∧ s.table.document? reading.key = none

/-- When an attempt commits, the first read of each key holds: it found what is
there just before the commit.  Any read of the attempt holds exactly if it did not
find a document that was made after the first read and removed before the
commit. -/
theorem found_iff {start s : Session Reading Empty} (hstart : Reading.protocol.Starts start)
    (h : Runs start s) {id : UInt64} {attempt : Attempt} (hheld : s.attempts id = some attempt)
    {version : UInt64} {committed : Attempt} {left : Store}
    (hcommit : s.env.store.commit attempt = (.ok version, committed, left)) :
    (∀ key first, s.opening id key = some first → first.found = s.table.document? key) ∧
      ∀ reading ∈ s.readings id,
        (reading.found = s.table.document? reading.key ↔ ¬ s.Revived reading) := by
  have hinv := h.reaches.inv Reading.law hstart
  have hopened := h.opened hstart
  obtain ⟨left, hcommits⟩ : ∃ left, s.db.Commits attempt left := by
    rcases s.env.store.commit_cases attempt with
      ⟨error, changed, other, hfailed, -⟩ | ⟨_, other, -, -, hcommits⟩
    · rw [hfailed] at hcommit
      cases hcommit
    · exact ⟨_, hcommits⟩
  have hfirst : ∀ key first, s.opening id key = some first →
      first.found = s.table.document? key := fun key first hopening =>
    ((hopened.opened id attempt hheld key first hopening).valid hcommits).symm
  refine ⟨hfirst, fun reading hreading => ?_⟩
  obtain ⟨htoken, hid⟩ := List.mem_filter.mp hreading
  have hid : reading.attempt = id := of_decide_eq_true hid
  constructor
  · rintro heq ⟨-, hsome, hgone⟩
    exact hsome (heq.trans hgone)
  · intro hnot
    -- The attempt read this key, so there is a first read of it.
    obtain ⟨first, hopening⟩ : ∃ first, s.opening id reading.key = some first := by
      rw [← Option.isSome_iff_exists, opening, List.find?_isSome]
      exact ⟨reading, hreading, decide_eq_true rfl⟩
    have hstamp : s.attempts (Reading.law.stamp reading) = some attempt := by
      show s.attempts reading.attempt = some attempt
      rw [hid]
      exact hheld
    obtain ⟨memory, rfl, hrecalls⟩ := hinv.memory reading htoken attempt hstamp
    rcases (hrecalls _ (List.mem_singleton_self _)).valid hcommits with hgone | hsame
    · by_cases hfound : reading.found = none
      · exact hfound.trans hgone.symm
      · refine absurd ⟨⟨first, hid ▸ hopening, ?_⟩, hfound, hgone⟩ hnot
        exact (hfirst _ _ hopening).trans hgone
    · exact hsame.symm

/-! ## Two runs -/

theorem Runs.run {start s : Session Reading Empty} (before : Runs start s)
    {actions : List (Action Reading Empty)} (hasks : ∀ action ∈ actions, Asks action)
    (hlasts : Reading.protocol.Lasts s actions) : Runs start (s.run actions) := by
  induction actions generalizing s with
  | nil => exact before
  | cons action more ih =>
    rw [List.forall_mem_cons] at hasks
    obtain ⟨room, -, hlater⟩ := hlasts
    exact ih (before.step hasks.1 room) hasks.2 hlater

instance : DecidablePred Reading.protocol.Fits := fun _ => inferInstanceAs (Decidable True)

/-- A key. -/
def note : DocKey := ⟨"notes", "first"⟩

/-- A document is made, read twice by an attempt, and kept while another one is
made. -/
def unchanged : List (Action Reading Empty) :=
  [.request (Op.insert note {}), .begin, .read 1 (Reading.take note),
    .request (Op.insert ⟨"notes", "second"⟩ {}), .read 1 (Reading.take note)]

theorem runs_unchanged : Runs fresh (fresh.run unchanged) := by
  refine .run .start ?_ (by decide)
  simp only [unchanged, List.forall_mem_cons]
  exact ⟨.insert _ _, .begin, .get _ _, .insert _ _, .get _ _, by simp⟩

theorem found_unchanged :
    (fresh.run unchanged).readings 1 = [⟨1, note, some {}⟩, ⟨1, note, some {}⟩] ∧
      ∀ reading ∈ (fresh.run unchanged).readings 1,
        reading.found = (fresh.run unchanged).table.document? reading.key := by
  have hfresh : Reading.protocol.Starts fresh := .of_empty _ rfl
  have hlist : (fresh.run unchanged).readings 1 =
      [⟨1, note, some {}⟩, ⟨1, note, some {}⟩] := rfl
  have hdocument : (fresh.run unchanged).table.document? note = some {} := rfl
  obtain ⟨-, hfound⟩ := @found_iff fresh _ hfresh runs_unchanged 1 _ rfl _ _ _ rfl
  refine ⟨hlist, fun reading hreading => (hfound reading hreading).mpr ?_⟩
  rintro ⟨-, -, hgone⟩
  have hkey : reading = ⟨1, note, some {}⟩ := by simpa [hlist] using hreading
  rw [hkey, hdocument] at hgone
  cases hgone

/-- An attempt reads that there is no document, and reads again after one was
made; the document is removed, and then the attempt may commit. -/
def revived : List (Action Reading Empty) :=
  [.begin, .read 1 (Reading.take note), .request (Op.insert note {}),
    .read 1 (Reading.take note), .request (Op.delete live note)]

theorem runs_revived : Runs fresh (fresh.run revived) := by
  refine .run .start ?_ (by decide)
  simp only [revived, List.forall_mem_cons]
  exact ⟨.begin, .get _ _, .insert _ _, .get _ _, .remove _ _, by simp⟩

/-- The attempt commits although its second read found a document that is not
there any more. -/
theorem not_found_revived :
    Reading.protocol.Starts fresh ∧ Runs fresh (fresh.run revived) ∧
      (∃ attempt committed left, (fresh.run revived).attempts 1 = some attempt ∧
        (fresh.run revived).env.store.commit attempt = (.ok 2, committed, left)) ∧
      ∃ reading ∈ (fresh.run revived).readings 1, reading.found = some {} ∧
        (fresh.run revived).table.document? reading.key = none :=
  ⟨.of_empty _ rfl, runs_revived, ⟨_, _, _, rfl, rfl⟩, ⟨1, note, some {}⟩,
    List.mem_of_getElem? (i := 1) rfl, rfl, rfl⟩

end Session

end Shardwise
