import Shardwise.Proofs.Isolation.Sites
import Shardwise.Proofs.Session.Alone

/-!
# Operations that keep to a site

`TxOp.Within` and `Op.Within` say what an operation of a handle is made of: steps
that take no notice of the store, reads of shards, writes that the handle permits,
queries by owner, and transactions of such steps.  What is known of all operations
of a handle is proved by induction over them.

Here this is what they change.  Inside an attempt this is the attempt, by reads of
shards and by writes of the handle (`TxOp.Within.adds`).  Outside attempts it is the
store, and only at the shards of the site (`Op.Within.evolves`).
-/

namespace Shardwise

variable {α β : Type}

/-! ## Steps beside the store -/

/-- The operation takes no notice of the store. -/
def Op.Aside (op : Op Unit α) : Prop :=
  ∀ env store, op.runIn { env with store } =
    ((op.runIn env).1, { (op.runIn env).2 with store })

namespace Op.Aside

theorem ofExcept (outcome : Except Error α) : (Op.ofExcept outcome : Op Unit α).Aside :=
  fun _ _ => rfl

theorem check (ctx : Context) : (Op.check ctx : Op Unit Unit).Aside := fun _ _ => rfl

theorem store_eq {op : Op Unit α} (h : op.Aside) (env : Env Unit) :
    (op.runIn env).2.store = env.store :=
  congrArg (fun run => run.2.store) (h env env.store)

end Op.Aside

/-- The operation takes no notice of the store, and of its attempt only of number
and status. -/
def TxOp.Aside (op : TxOp Unit α) : Prop :=
  ∀ attempt other env store, other.id = attempt.id → other.status = attempt.status →
    op.runIn other { env with store } =
      ((op.runIn attempt env).1, other, { (op.runIn attempt env).2.2 with store })

namespace TxOp.Aside

theorem ofOp {op : Op Unit α} (h : op.Aside) : (TxOp.ofOp op).Aside := by
  intro attempt other env store hid hstatus
  rw [runIn_ofOp, runIn_ofOp, h]

theorem ofExcept (outcome : Except Error α) : (TxOp.ofExcept outcome : TxOp Unit α).Aside :=
  fun _ _ _ _ _ _ => rfl

theorem pickShard (numShards : Nat) : (TxOp.pickShard numShards : TxOp Unit Nat).Aside := by
  intro attempt other env store hid hstatus
  rw [runIn_pickShard, runIn_pickShard]

theorem attempt_eq {op : TxOp Unit α} (h : op.Aside) (attempt : Attempt) (env : Env Unit) :
    (op.runIn attempt env).2.1 = attempt :=
  congrArg (fun run => run.2.1) (h attempt attempt env env.store rfl rfl)

theorem store_eq {op : TxOp Unit α} (h : op.Aside) (attempt : Attempt) (env : Env Unit) :
    (op.runIn attempt env).2.2.store = env.store :=
  congrArg (fun run => run.2.2.store) (h attempt attempt env env.store rfl rfl)

theorem bind {op : TxOp Unit α} {next : α → TxOp Unit β} (h : op.Aside)
    (hnext : ∀ value, (next value).Aside) : (op >>= next).Aside := by
  intro attempt other env store hid hstatus
  have hsame := h.attempt_eq attempt env
  rw [runIn_bind, runIn_bind, h attempt other env store hid hstatus]
  rcases hop : op.runIn attempt env with ⟨error | value, same, left⟩
  · rfl
  · rw [hop] at hsame
    obtain rfl : same = attempt := hsame
    exact hnext value same other left store hid hstatus

/-- A step that looks at number and status of the attempt. -/
theorem attempt_bind {next : Attempt → TxOp Unit α} (h : ∀ attempt, (next attempt).Aside)
    (hsame : ∀ attempt other, other.id = attempt.id → other.status = attempt.status →
      next other = next attempt) : (TxOp.attempt >>= next).Aside := by
  intro attempt other env store hid hstatus
  rw [runIn_bind, runIn_bind, runIn_attempt, runIn_attempt]
  dsimp only
  rw [hsame attempt other hid hstatus]
  exact h attempt attempt other env store hid hstatus

end TxOp.Aside

/-! ## Inside an attempt -/

/-- The operation reads shards of the site, if `looks`, and makes writes that its
handle permits. -/
inductive TxOp.Within (site : Site) (looks : Bool) : {α : Type} → TxOp Unit α → Prop
  | aside {α : Type} {op : TxOp Unit α} (h : op.Aside) : Within site looks op
  | get {key : DocKey} (hlooks : looks = true) (h : site.Owns key) :
      Within site looks (TxOp.get key)
  | buffer {key : DocKey} {write : Write} (h : site.Makes (key, write)) :
      Within site looks (TxOp.change (·.buffer key write))
  | withContext {α : Type} {op : TxOp Unit α} (operation owner : String) (key : DocKey)
      (h : Within site looks op) : Within site looks (TxOp.withContext operation owner key op)
  /-- What follows may rely on the result. -/
  | bind {α β : Type} {op : TxOp Unit α} {next : α → TxOp Unit β} (h : Within site looks op)
      (hnext : ∀ attempt env value, (op.runIn attempt env).1 = .ok value →
        Within site looks (next value)) : Within site looks (op >>= next)

namespace TxOp.Within

variable {site : Site} {looks : Bool}

theorem pure (site : Site) (looks : Bool) (value : α) :
    (Pure.pure value : TxOp Unit α).Within site looks :=
  .aside (Aside.ofExcept (.ok value))

theorem map {op : TxOp Unit α} (h : op.Within site looks) (f : α → β) :
    (f <$> op).Within site looks := by
  rw [← bind_pure_comp]
  exact h.bind fun _ _ _ _ => pure site looks _

theorem delete {key : DocKey} (h : site.Owns key) :
    (TxOp.delete key : TxOp Unit Unit).Within site looks :=
  .buffer ⟨h, .delete⟩

theorem forM {γ : Type} {op : γ → TxOp Unit Unit} {items : List γ}
    (h : ∀ item ∈ items, (op item).Within site looks) : (items.forM op).Within site looks := by
  induction items with
  | nil => exact pure site looks ()
  | cons item items ih =>
    rw [List.forall_mem_cons] at h
    exact h.1.bind fun _ _ _ _ => ih h.2

/-- An operation that fails in some case. -/
theorem guard (p : Prop) [Decidable p] (error : Error) {next : Unit → TxOp Unit α}
    (h : (next ()).Within site looks) :
    (if p then (throw error : TxOp Unit Unit) >>= next else next ()).Within site looks := by
  split
  · exact .bind (.aside (Aside.ofExcept (.error error))) fun _ _ _ _ => h
  · exact h

/-- The write of a phase. -/
theorem writeShard {key : DocKey} (h : site.Owns key) (operation : String) (present : Bool)
    {made : ShardRecord} (howner : made.owner = site.group.owner) :
    (site.group.writeShard operation key present made : TxOp Unit Unit).Within site looks := by
  refine .withContext _ _ _ ?_
  cases present with
  | false => exact .buffer ⟨h, .set howner⟩
  | true =>
    show (TxOp.change (·.increment key valueField made.value)).Within site looks
    unfold Attempt.increment
    cases made.value.isNumeric with
    | false => exact .aside (Aside.ofExcept (.error _))
    | true => exact .buffer ⟨h, .increment made.value⟩

/-- Only the attempt is changed, by reads of shards and by writes of the handle. -/
theorem adds {op : TxOp Unit α} (h : op.Within site looks) (attempt : Attempt) (env : Env Unit) :
    (op.runIn attempt env).2.2.store = env.store ∧
      site.Adds attempt (op.runIn attempt env).2.1 := by
  induction h generalizing attempt env with
  | aside h =>
    rw [h.store_eq, h.attempt_eq]
    exact ⟨rfl, .refl site attempt⟩
  | get hlooks h =>
    rw [runIn_get]
    rcases hget : attempt.get env.store.table _ with error | ⟨document, changed⟩
    · exact ⟨rfl, .refl site attempt⟩
    · exact ⟨rfl, .get h hget⟩
  | buffer h =>
    rw [runIn_change]
    cases hbuffer : attempt.buffer _ _ with
    | error error => exact ⟨rfl, .refl site attempt⟩
    | ok later => exact ⟨rfl, .buffer h hbuffer⟩
  | withContext operation owner key h ih => exact ih attempt env
  | @bind _ _ op next h hnext ih ihnext =>
    obtain ⟨hstore, hadds⟩ := ih attempt env
    rw [runIn_bind]
    rcases hop : op.runIn attempt env with ⟨error | value, between, midway⟩
    · rw [hop] at hstore hadds
      exact ⟨hstore, hadds⟩
    · rw [hop] at hstore hadds
      obtain ⟨hstore', hadds'⟩ := ihnext attempt env value (by rw [hop]) between midway
      exact ⟨hstore'.trans hstore, hadds.trans hadds'⟩

/-- The versions that it records are those of the table. -/
theorem steady {op : TxOp Unit α} (h : op.Within site looks) : op.Steady := by
  induction h with
  | aside h =>
    intro attempt env
    rw [h.store_eq, h.attempt_eq]
    exact ⟨rfl, fun _ _ hread => .inl hread⟩
  | get hlooks h => exact (ReadsOnly.get _).steady
  | @buffer key write h =>
    refine .of_reads fun attempt env => ?_
    rw [runIn_change]
    cases hbuffer : attempt.buffer key write with
    | error error => exact ⟨rfl, rfl⟩
    | ok later =>
      obtain ⟨-, rfl⟩ := Attempt.buffer_eq_ok hbuffer
      exact ⟨rfl, rfl⟩
  | withContext operation owner key h ih => exact fun attempt env => ih attempt env
  | bind h hnext ih ihnext => exact ih.bind_of_ok ihnext

end TxOp.Within

/-! ## Reads before writes -/

/-- In an attempt that holds writes the operation fails, and leaves the attempt as
it is. -/
def TxOp.ReadsFirst (op : TxOp Unit α) : Prop :=
  ∀ attempt env, attempt.writes ≠ [] →
    (∃ error, (op.runIn attempt env).1 = .error error) ∧ (op.runIn attempt env).2.1 = attempt

namespace TxOp.ReadsFirst

theorem get (key : DocKey) : (TxOp.get key : TxOp Unit (Option Document)).ReadsFirst := by
  intro attempt env hwrites
  rw [runIn_get]
  rcases hget : attempt.get env.store.table key with error | ⟨document, changed⟩
  · exact ⟨⟨error, rfl⟩, rfl⟩
  · exact absurd (Attempt.get_eq_ok hget).2.1 hwrites

theorem withContext {op : TxOp Unit α} (h : op.ReadsFirst) (operation owner : String)
    (key : DocKey) : (TxOp.withContext operation owner key op).ReadsFirst := by
  intro attempt env hwrites
  obtain ⟨⟨error, herror⟩, hsame⟩ := h attempt env hwrites
  rw [runIn_withContext, herror]
  exact ⟨⟨_, rfl⟩, hsame⟩

theorem bind {op : TxOp Unit α} (h : op.ReadsFirst) (next : α → TxOp Unit β) :
    (op >>= next).ReadsFirst := by
  intro attempt env hwrites
  obtain ⟨⟨error, herror⟩, hsame⟩ := h attempt env hwrites
  rw [runIn_bind]
  rcases hop : op.runIn attempt env with ⟨outcome, later, left⟩
  rw [hop] at herror hsame
  obtain rfl : outcome = .error error := herror
  exact ⟨⟨error, rfl⟩, hsame⟩

theorem map {op : TxOp Unit α} (h : op.ReadsFirst) (f : α → β) : (f <$> op).ReadsFirst := by
  rw [← bind_pure_comp]
  exact h.bind _

/-- Checks and choices may come before the first read. -/
theorem aside_bind {op : TxOp Unit α} {next : α → TxOp Unit β} (h : op.Aside)
    (hnext : ∀ value, (next value).ReadsFirst) : (op >>= next).ReadsFirst := by
  intro attempt env hwrites
  have hsame := h.attempt_eq attempt env
  rw [runIn_bind]
  rcases hop : op.runIn attempt env with ⟨error | value, later, left⟩
  · rw [hop] at hsame
    exact ⟨⟨error, rfl⟩, hsame⟩
  · rw [hop] at hsame
    obtain rfl : later = attempt := hsame
    exact hnext value later left hwrites

end TxOp.ReadsFirst

/-! ## Changes of the store -/

/-- Nothing changed but the numbers of attempts that began and that were aborted. -/
structure Store.Rests (store left : Store) : Prop where
  retry : left.retry = store.retry
  isOpen : left.isOpen = store.isOpen
  committed : left.stats.committed = store.stats.committed
  table : left.table = store.table
  version : left.database.version = store.database.version

namespace Store.Rests

variable {store left : Store}

theorem refl (store : Store) : store.Rests store := ⟨rfl, rfl, rfl, rfl, rfl⟩

theorem begin {attempt : Attempt} (h : store.begin = .ok (attempt, left)) : store.Rests left := by
  unfold Store.begin Store.ensureOpen at h
  cases hopen : store.isOpen with
  | false =>
    rw [hopen] at h
    cases h
  | true =>
    rw [hopen] at h
    cases h
    exact ⟨rfl, hopen.symm, rfl, rfl, rfl⟩

theorem countAborted (store : Store) : store.Rests store.countAborted := ⟨rfl, rfl, rfl, rfl, rfl⟩

theorem abort {attempt later : Attempt} {reason : String}
    (h : store.abort attempt reason = .ok (later, left)) : store.Rests left := by
  unfold Store.abort at h
  cases hmark : attempt.markAborted reason with
  | error error =>
    rw [hmark] at h
    cases h
  | ok aborted =>
    rw [hmark] at h
    cases h
    exact countAborted store

end Store.Rests

/-- Versions are those of commits that the store counted. -/
structure Store.Counted (store : Store) : Prop where
  sound : store.database.Sound
  version_le : store.database.version.toNat ≤ store.stats.committed

namespace Store.Counted

variable {store left : Store}

theorem rests (h : store.Counted) (hrests : store.Rests left) : left.Counted := by
  refine ⟨⟨fun key stored hstored => ?_, fun key stored hstored => ?_⟩, ?_⟩
  · exact h.sound.positive key stored ((congrArg (·.get? key) hrests.table).symm.trans hstored)
  · rw [hrests.version]
    exact h.sound.bounded key stored ((congrArg (·.get? key) hrests.table).symm.trans hstored)
  · rw [hrests.version, hrests.committed]
    exact h.version_le

/-- This holds as long as there are versions for all commits. -/
theorem commit (h : store.Counted) {attempt : Attempt}
    (room : (store.commit attempt).2.2.stats.committed < UInt64.size) :
    store.database.version.toNat ≤ (store.commit attempt).2.2.database.version.toNat ∧
      (store.commit attempt).2.2.Counted := by
  obtain ⟨hretry, hopen, hcommitted⟩ := store.commit_settings attempt
  rcases store.commit_cases attempt with
    ⟨error, changed, left, hcommit, hsame, -⟩ | ⟨version, left, hcommit, -, hcommits⟩
  · rw [hcommit] at hretry hopen hcommitted ⊢
    exact ⟨Nat.le_of_eq (by rw [hsame]), h.rests ⟨hretry, hopen, hcommitted,
      congrArg Database.table hsame, congrArg Database.version hsame⟩⟩
  · rw [hcommit] at hcommitted room ⊢
    dsimp only at hcommitted room ⊢
    have hsucc : left.stats.committed = store.stats.committed + 1 := hcommitted
    have hversion := h.version_le
    have hmoves := hcommits.moves (by omega)
    refine ⟨hmoves.version_le, hmoves.sound h.sound, ?_⟩
    rw [hcommits.version]
    split
    · omega
    · rw [Database.toNat_succ (by omega)]
      omega

end Store.Counted

/-- What the operations of a handle make of a store. -/
structure Site.Evolves (site : Site) (store left : Store) : Prop where
  retry : left.retry = store.retry
  isOpen : left.isOpen = store.isOpen
  committed_le : store.stats.committed ≤ left.stats.committed
  touches : site.Touches store.table left.table
  /-- This holds as long as there are versions for all commits. -/
  counted : left.stats.committed < UInt64.size → store.Counted →
    store.database.version.toNat ≤ left.database.version.toNat ∧ left.Counted

namespace Site.Evolves

variable {site : Site} {store midway left : Store}

theorem of_rests (h : store.Rests left) : site.Evolves store left :=
  ⟨h.retry, h.isOpen, Nat.le_of_eq h.committed.symm, .of_eq h.table,
    fun _ hcounted => ⟨Nat.le_of_eq (by rw [h.version]), hcounted.rests h⟩⟩

theorem refl (site : Site) (store : Store) : site.Evolves store store := of_rests (.refl store)

theorem trans (h : site.Evolves store midway) (h' : site.Evolves midway left) :
    site.Evolves store left := by
  refine ⟨h'.retry.trans h.retry, h'.isOpen.trans h.isOpen,
    Nat.le_trans h.committed_le h'.committed_le, h.touches.trans h'.touches, fun room hstore => ?_⟩
  obtain ⟨hle, hmidway⟩ := h.counted (Nat.lt_of_le_of_lt h'.committed_le room) hstore
  obtain ⟨hle', hleft⟩ := h'.counted room hmidway
  exact ⟨Nat.le_trans hle hle', hleft⟩

theorem commit (store : Store) {attempt : Attempt} (hcovers : site.Covers attempt.writes) :
    site.Evolves store (store.commit attempt).2.2 := by
  obtain ⟨hretry, hopen, hcommitted⟩ := store.commit_settings attempt
  refine ⟨hretry, hopen, by omega, ?_, fun room h => h.commit room⟩
  rcases store.commit_cases attempt with
    ⟨error, changed, left, hcommit, hsame, -⟩ | ⟨version, left, hcommit, -, hcommits⟩
  · rw [hcommit]
    exact .of_eq (congrArg Database.table hsame)
  · rw [hcommit]
    exact .of_commits hcommits hcovers

end Site.Evolves

/-- A commit keeps the house of each handle. -/
theorem Site.Housed.store_commit {site other : Site} {store : Store} {attempt : Attempt}
    (h : site.Housed store.table) (hdiff : site.identity ≠ other.identity)
    (hmakes : ∀ entry ∈ attempt.writes, site.Makes entry ∨ other.Makes entry) :
    site.Housed (store.commit attempt).2.2.table := by
  rcases store.commit_cases attempt with
    ⟨error, changed, left, hcommit, hsame, -⟩ | ⟨version, left, hcommit, -, hcommits⟩
  · rw [hcommit]
    show site.Housed left.database.table
    rw [hsame]
    exact h
  · rw [hcommit]
    exact h.commits hdiff hcommits hmakes

/-- A commit makes no writes. -/
theorem Site.makes_commit {site other : Site} (store : Store) {attempt : Attempt}
    (hmakes : ∀ entry ∈ attempt.writes, site.Makes entry ∨ other.Makes entry) :
    ∀ entry ∈ (store.commit attempt).2.1.writes, site.Makes entry ∨ other.Makes entry := by
  rcases store.commit_cases attempt with
    ⟨error, changed, left, hcommit, -, rfl | ⟨reason, rfl⟩⟩ | ⟨version, left, hcommit, -⟩
  · rw [hcommit]
    exact hmakes
  · rw [hcommit]
    exact fun _ hentry => absurd hentry List.not_mem_nil
  · rw [hcommit]
    exact hmakes

/-! ## Outside attempts -/

/-- The operation queries by the owner of the site, and its transactions keep to the
site. -/
inductive Op.Within (site : Site) : {α : Type} → Op Unit α → Prop
  | aside {α : Type} {op : Op Unit α} (h : op.Aside) : Within site op
  | owned (ctx : Context) (operation : String) : Within site (site.group.owned ctx operation)
  | transact {α : Type} (ctx : Context) {body : TxOp Unit α} (h : body.Within site true) :
      Within site (Op.transact ctx body)
  | withContext {α : Type} {op : Op Unit α} (operation owner : String) (key : DocKey)
      (h : Within site op) : Within site (Op.withContext operation owner key op)
  /-- What follows may rely on the result, and on queries finding shards only. -/
  | bind {α β : Type} {op : Op Unit α} {next : α → Op Unit β} (h : Within site op)
      (hnext : ∀ env value, site.Housed env.store.table → (op.runIn env).1 = .ok value →
        Within site (next value)) : Within site (op >>= next)

namespace Op.Within

open Protocol (closing tryOnce_eq)

variable {site : Site}

theorem pure (site : Site) (value : α) : (Pure.pure value : Op Unit α).Within site :=
  .aside (Aside.ofExcept (.ok value))

theorem map {op : Op Unit α} (h : op.Within site) (f : α → β) : (f <$> op).Within site := by
  rw [← bind_pure_comp]
  exact h.bind fun _ _ _ _ => pure site _

/-- An operation that fails unless something holds. -/
theorem guard (p : Prop) [Decidable p] (error : Error) {next : Unit → Op Unit α}
    (h : (next ()).Within site) :
    (if p then next () else (throw error : Op Unit Unit) >>= next).Within site := by
  split
  · exact h
  · exact .bind (.aside (Aside.ofExcept (.error error))) fun _ _ _ _ => h

/-- The end of an attempt. -/
theorem evolves_closing (outcome : Except Error α) {attempt : Attempt}
    (hcovers : site.Covers attempt.writes) (env : Env Unit) :
    site.Evolves env.store ((closing attempt outcome).runIn env).2.store := by
  cases outcome with
  | error error =>
    unfold closing
    cases attempt.isActive with
    | false => exact .refl site env.store
    | true =>
      simp only [if_true, runIn_bind, runIn_discard, runIn_abort]
      cases habort : env.store.abort attempt error.message with
      | error other => exact .refl site env.store
      | ok aborted => exact .of_rests (.abort habort)
  | ok value =>
    have hevolves := Site.Evolves.commit env.store hcovers
    simp only [closing, runIn_bind, runIn_commit]
    rcases hcommit : env.store.commit attempt with ⟨error | version, later, left⟩
    · rw [hcommit] at hevolves
      dsimp only
      cases error.isConflict <;> exact hevolves
    · rw [hcommit] at hevolves
      exact hevolves

theorem evolves_tryOnce {body : TxOp Unit α} (h : body.Within site true) (ctx : Context)
    (env : Env Unit) : site.Evolves env.store ((tryOnce ctx body).runIn env).2.store := by
  rw [tryOnce_eq, runIn_bind, runIn_check]
  cases ctx.check env.flags env.elapsed with
  | error error => exact .refl site env.store
  | ok _ =>
    dsimp only
    rw [runIn_bind, runIn_begin]
    rcases hbegin : env.store.begin with error | ⟨begun, store⟩
    · exact .refl site env.store
    · obtain ⟨rfl, -⟩ := begin_eq_ok hbegin
      obtain ⟨hstore, hadds⟩ := h.adds { id := env.store.database.nextId } { env with store }
      have hkeeps := (Site.Keeps.begun site env.store.database.nextId).adds hadds
      dsimp only
      rw [runIn_bind, TxOp.runIn_runOn]
      dsimp only
      have hclosing := evolves_closing (body.runIn { id := env.store.database.nextId }
        { env with store }).1 hkeeps.covers (body.runIn { id := env.store.database.nextId }
        { env with store }).2.2
      rw [hstore] at hclosing
      exact (Site.Evolves.of_rests (.begin hbegin)).trans hclosing

theorem evolves_transact {body : TxOp Unit α} (h : body.Within site true) (ctx : Context)
    (env : Env Unit) : site.Evolves env.store ((Op.transact ctx body).runIn env).2.store := by
  obtain ⟨outcome, left, htry, hrun⟩ := transact_eq_tryOnce h.steady ctx env
  have hevolves := evolves_tryOnce h ctx env
  rw [htry] at hevolves
  rw [hrun]
  exact hevolves

/-- The store changes at the shards of the site only. -/
theorem evolves {op : Op Unit α} (h : op.Within site) (env : Env Unit)
    (hhoused : site.Housed env.store.table) :
    site.Evolves env.store (op.runIn env).2.store := by
  induction h generalizing env with
  | aside h =>
    rw [h.store_eq]
    exact .refl site env.store
  | owned ctx operation =>
    rcases site.group.owned_cases ctx operation env with ⟨error, hrun⟩ | hrun <;>
      rw [hrun] <;> exact .refl site env.store
  | transact ctx h => exact evolves_transact h ctx env
  | withContext operation owner key h ih => exact ih env hhoused
  | @bind _ _ op next h hnext ih ihnext =>
    have hfirst := ih env hhoused
    rw [runIn_bind]
    rcases hop : op.runIn env with ⟨error | value, midway⟩
    · rw [hop] at hfirst
      exact hfirst
    · rw [hop] at hfirst
      exact hfirst.trans (ihnext env value hhoused (by rw [hop]) midway
        (hfirst.touches.housed hhoused))

end Op.Within

end Shardwise
