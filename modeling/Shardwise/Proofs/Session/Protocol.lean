import Shardwise.Proofs.Session.Basic
import Shardwise.Proofs.Store.Version

/-!
# Runs that keep to a protocol

A `Protocol` says what callers do with the documents of one primitive: which
read phases and write phases there are, and which keys belong to the primitive.
`Protocol.Allows` adds what everybody may do at any time: begin, commit and abort
attempts, read every document, and write the documents of others.
`Protocol.Reaches` is every state that is reached in this way, in any order of
steps and with any number of attempts under way.  At most one write phase runs
in an attempt.

`Protocol.Law` is what has to be known of the phases of a protocol before
anything can be said about its runs: a read phase only reads, a write phase only
writes, and what a token says about documents was so when they were read.
-/

namespace Shardwise

/-- Changes what surrounds the store. -/
def Op.surround {υ : Type} (change : Env υ → Env υ) : Op υ Unit := do
  Op.setEnv (change (← Op.env))

/-- The step puts fields into a document as they are: it sets or inserts them. -/
inductive Action.Puts {τ ω : Type} : Action τ ω → DocKey → Fields → Prop
  | set (id : UInt64) (key : DocKey) (fields : Fields) (merge : Bool) :
    Puts (.touch id (TxOp.set key fields merge)) key fields
  | insert (key : DocKey) (document : Document) :
    Puts (.request (Op.insert key document)) key document.fields

/-- What callers do with the documents of one primitive. -/
structure Protocol (τ ω : Type) where
  /-- The keys that belong to the primitive. -/
  Owns : DocKey → Prop
  /-- The read phases. -/
  Reads : TxOp Unit τ → Prop
  /-- The write phases that take one of some tokens. -/
  Writes : List τ → TxOp Unit ω → Prop
  /-- The commits stay within the range of the stored numbers. -/
  Fits : List (Commitment ω) → Prop

namespace Protocol

variable {τ ω : Type}

/-- What may happen next in a run.  The phases are those of the protocol, and
nobody else writes the documents of the primitive. -/
inductive Allows (p : Protocol τ ω) (s : Session τ ω) : Action τ ω → Prop
  | begin : Allows p s .begin
  | read (id : UInt64) {phase : TxOp Unit τ} (h : p.Reads phase) : Allows p s (.read id phase)
  | write (id : UInt64) {phase : TxOp Unit ω} (h : p.Writes s.tokens phase)
      (single : ((s.step (.write id phase)).drafts id).length ≤ 1) : Allows p s (.write id phase)
  | commit (id : UInt64) : Allows p s (.commit id)
  | abort (id : UInt64) (reason : String) : Allows p s (.abort id reason)
  | get (id : UInt64) (key : DocKey) : Allows p s (.touch id ((fun _ => ()) <$> TxOp.get key))
  | set (id : UInt64) {key : DocKey} (fields : Fields) (merge : Bool) (h : ¬ p.Owns key) :
      Allows p s (.touch id (TxOp.set key fields merge))
  | increment (id : UInt64) {key : DocKey} (field : String) (delta : Value) (h : ¬ p.Owns key) :
      Allows p s (.touch id (TxOp.increment key field delta))
  | delete (id : UInt64) {key : DocKey} (h : ¬ p.Owns key) :
      Allows p s (.touch id (TxOp.delete key))
  | insert {key : DocKey} (document : Document) (h : ¬ p.Owns key) :
      Allows p s (.request (Op.insert key document))
  | remove (ctx : Context) {key : DocKey} (h : ¬ p.Owns key) :
      Allows p s (.request (Op.delete ctx key))
  | close : Allows p s (.request (Op.change fun store => .ok store.close))
  | pause (delay : Nat) : Allows p s (.request (Op.pause delay))
  /-- The clocks are moved, time passes, contexts are cancelled, and random
  numbers come up. -/
  | surround (change : Env Unit → Env Unit) (h : ∀ env, (change env).store = env.store) :
      Allows p s (.request (Op.surround change))

/-- Where a run starts: no attempt is under way, and the primitive has no
documents. -/
structure Starts (p : Protocol τ ω) (s : Session τ ω) : Prop where
  sound : s.db.Sound
  absent : ∀ key, p.Owns key → s.table.get? key = none
  attempts : ∀ id, s.attempts id = none
  tokens : s.tokens = []
  drafts : ∀ id, s.drafts id = []
  log : s.log = []

/-- The states of the runs from `start`, as long as the words that count versions
and attempts last. -/
inductive Reaches (p : Protocol τ ω) (start : Session τ ω) : Session τ ω → Prop
  | start : Reaches p start start
  | step {s : Session τ ω} {action : Action τ ω} (before : Reaches p start s)
      (allowed : p.Allows s action) (room : s.db.HasRoom) (fits : p.Fits (s.step action).log) :
      Reaches p start (s.step action)

/-- A store without documents is a start. -/
theorem Starts.of_empty (p : Protocol τ ω) {env : Env Unit} (h : env.store.database = {}) :
    p.Starts { env } := by
  have hnone : ∀ key, ({ env } : Session τ ω).table.get? key = none := by
    intro key
    simp [Session.table, Store.table, h, Table.get?]
  refine ⟨⟨?_, ?_⟩, fun key _ => hnone key, fun _ => rfl, rfl, fun _ => rfl, rfl⟩
  · intro key stored hstored
    exact absurd ((hnone key).symm.trans hstored) (by simp)
  · intro key stored hstored
    exact absurd ((hnone key).symm.trans hstored) (by simp)

/-- Each of some steps may happen after those before it. -/
def Permits (p : Protocol τ ω) : Session τ ω → List (Action τ ω) → Prop
  | _, [] => True
  | s, action :: more => p.Allows s action ∧ Permits p (s.step action) more

/-- The words last, and the commits fit, throughout some steps. -/
def Lasts (p : Protocol τ ω) : Session τ ω → List (Action τ ω) → Prop
  | _, [] => True
  | s, action :: more =>
    s.db.HasRoom ∧ p.Fits (s.step action).log ∧ Lasts p (s.step action) more

instance decidableLasts (p : Protocol τ ω) [DecidablePred p.Fits] (s : Session τ ω)
    (actions : List (Action τ ω)) : Decidable (p.Lasts s actions) :=
  match actions with
  | [] => isTrue trivial
  | action :: more =>
    have := decidableLasts p (s.step action) more
    inferInstanceAs (Decidable (_ ∧ _ ∧ _))

theorem Reaches.run {p : Protocol τ ω} {start s : Session τ ω} {actions : List (Action τ ω)}
    (before : p.Reaches start s) (hpermits : p.Permits s actions) (hlasts : p.Lasts s actions) :
    p.Reaches start (s.run actions) := by
  induction actions generalizing s with
  | nil => exact before
  | cons action more ih =>
    obtain ⟨allowed, hmore⟩ := hpermits
    obtain ⟨room, fits, hlater⟩ := hlasts
    exact ih (before.step allowed room fits) hmore hlater

/-- The states of the runs from `start` whose steps all keep to a condition. -/
def ReachesBy (p : Protocol τ ω) (kept : Action τ ω → Prop) (start s : Session τ ω) : Prop :=
  ∃ actions, s = start.run actions ∧ p.Permits start actions ∧ p.Lasts start actions ∧
    ∀ action ∈ actions, kept action

theorem ReachesBy.reaches {p : Protocol τ ω} {kept : Action τ ω → Prop} {start s : Session τ ω}
    (h : p.ReachesBy kept start s) : p.Reaches start s := by
  obtain ⟨actions, rfl, hpermits, hlasts, -⟩ := h
  exact .run .start hpermits hlasts

/-- What every step keeps that is allowed and keeps to the condition, such a run
keeps. -/
theorem ReachesBy.rec_steps {p : Protocol τ ω} {kept : Action τ ω → Prop}
    {motive : Session τ ω → Prop} {start s : Session τ ω} (h : p.ReachesBy kept start s)
    (base : motive start)
    (step : ∀ {s : Session τ ω} {action : Action τ ω}, p.Allows s action → kept action →
      motive s → motive (s.step action)) : motive s := by
  obtain ⟨actions, rfl, hpermits, -, hkept⟩ := h
  induction actions generalizing start with
  | nil => exact base
  | cons action more ih =>
    obtain ⟨allowed, hmore⟩ := hpermits
    obtain ⟨hfirst, hrest⟩ := List.forall_mem_cons.mp hkept
    exact ih (step allowed hfirst base) hmore hrest

/-! ## Laws of a protocol -/

/-- What has to be known of the phases of a protocol. -/
structure Law (p : Protocol τ ω) where
  /-- The attempt that a token is of. -/
  stamp : τ → UInt64
  /-- What a read phase makes of the table that it sees. -/
  Seen : Table → τ → Prop
  /-- What a token says about documents that were read. -/
  Remembers : τ → List (DocKey × Option Document) → Prop
  /-- The writes of a write phase with some result, in an attempt. -/
  Backed : List τ → UInt64 → ω → List (DocKey × Write) → Prop
  /-- A read phase only reads. -/
  read : ∀ {phase attempt env outcome later left}, p.Reads phase →
    phase.runIn attempt env = (outcome, later, left) →
    left.store = env.store ∧ Attempt.Reads env.store.table attempt later ∧
      ∀ token, outcome = .ok token → stamp token = attempt.id ∧ Seen env.store.table token ∧
        ∃ memory, Remembers token memory ∧ ∀ entry ∈ memory,
          (∃ version, later.reads[entry.1]? = some version) ∧
            env.store.table.document? entry.1 = entry.2
  /-- A write phase only writes, and all or nothing. -/
  write : ∀ {tokens phase attempt env outcome later left}, p.Writes tokens phase →
    phase.runIn attempt env = (outcome, later, left) →
    left.store = env.store ∧
      ((∃ error, outcome = .error error) ∧ later = attempt ∨
        ∃ entry writes, outcome = .ok entry ∧
          later = { attempt with writes := attempt.writes ++ writes } ∧
          Backed tokens attempt.id entry writes)
  backed_append : ∀ {tokens id entry writes} (more : List τ), Backed tokens id entry writes →
    Backed (tokens ++ more) id entry writes

namespace Law

variable {p : Protocol τ ω}

/-- The attempt recalls what a token says. -/
def Knows (law : p.Law) (db : Database) (attempt : Attempt) (token : τ) : Prop :=
  ∃ memory, law.Remembers token memory ∧ ∀ entry ∈ memory, attempt.Recalls db entry.1 entry.2

/-- The writes of an attempt to the keys of the primitive are those of the write
phase that ran in it, if one did. -/
def Holds (law : p.Law) (tokens : List τ) (id : UInt64) (drafts : List ω)
    (attempt : Attempt) : Prop :=
  (drafts = [] ∧ ∀ key, p.Owns key → writesOn key attempt.writes = []) ∨
    ∃ entry writes, drafts = [entry] ∧ law.Backed tokens id entry writes ∧
      ∀ key, p.Owns key → writesOn key attempt.writes = writesOn key writes

theorem Holds.append {law : p.Law} {tokens : List τ} {id : UInt64} {drafts : List ω}
    {attempt : Attempt} (h : law.Holds tokens id drafts attempt) (more : List τ) :
    law.Holds (tokens ++ more) id drafts attempt := by
  rcases h with hnone | ⟨entry, writes, hdrafts, hbacked, hwrites⟩
  · exact .inl hnone
  · exact .inr ⟨entry, writes, hdrafts, law.backed_append more hbacked, hwrites⟩

/-- Only the writes to the keys of the primitive matter. -/
theorem Holds.of_writesOn {law : p.Law} {tokens : List τ} {id : UInt64} {drafts : List ω}
    {attempt later : Attempt} (h : law.Holds tokens id drafts attempt)
    (hwrites : ∀ key, p.Owns key → writesOn key later.writes = writesOn key attempt.writes) :
    law.Holds tokens id drafts later := by
  rcases h with ⟨hdrafts, hnone⟩ | ⟨entry, writes, hdrafts, hbacked, hsame⟩
  · exact .inl ⟨hdrafts, fun key hkey => (hwrites key hkey).trans (hnone key hkey)⟩
  · exact .inr ⟨entry, writes, hdrafts, hbacked,
      fun key hkey => (hwrites key hkey).trans (hsame key hkey)⟩

end Law

end Protocol

end Shardwise
