import Shardwise.Proofs.Isolation.Agree

/-!
# Operations that keep to a site, in two stores

What begins, commits and aborts attempts goes alike in two stores that look the same
to a handle.  A commit of an attempt that holds something of another handle is the
exception, as it may fail for the other handle; `Twin.commit` is about those that do
not, and `Twin.lose` about those that do.

`Op.Within.alike` puts this together for operations outside attempts: one that keeps
to the site has the same outcome in both stores.
-/

namespace Shardwise

variable {α β : Type}

/-! ## Ends of attempts -/

theorem CommitError.isConflict_toError (conflicts : List Conflict) :
    (CommitError.validationFailed conflicts).toError.isConflict = true := rfl

/-- Outcomes of commits that differ in versions only. -/
inductive Similar : Except Error UInt64 → Except Error UInt64 → Prop
  | ok (version version' : UInt64) : Similar (.ok version) (.ok version')
  | error (error : Error) : Similar (.error error) (.error error)
  | conflict {error error' : Error} (h : error.isConflict = true) (h' : error'.isConflict = true) :
      Similar (.error error) (.error error')

namespace Site

variable {site : Site} {store other left left' : Store} {attempt twin : Attempt}

/-- Nothing happened to documents in either store. -/
theorem Agree.rests (h : site.Agree store other) (hleft : store.Rests left)
    (hleft' : other.Rests left') (hid : left'.database.nextId = left.database.nextId) :
    site.InStep store other left left' := by
  have hagree : site.Agree left left' :=
    { valid := ⟨hleft.table ▸ h.valid.housed, h.valid.counted.rests hleft⟩
      valid' := ⟨hleft'.table ▸ h.valid'.housed, h.valid'.counted.rests hleft'⟩
      retry := by rw [hleft'.retry, hleft.retry, h.retry]
      isOpen := by rw [hleft'.isOpen, hleft.isOpen, h.isOpen]
      nextId := hid
      committed_le := by
        rw [hleft'.committed, hleft.committed]
        exact h.committed_le
      same := fun key hkey => by
        rw [hleft'.table, hleft.table]
        exact h.same key hkey }
  exact .of_eq hagree (Nat.le_of_eq (by rw [hleft.version])) (Nat.le_of_eq (by rw [hleft'.version]))
    (fun key _ => by rw [hleft.table]) fun key _ => by rw [hleft'.table]

/-- What another handle makes of the store does not matter. -/
theorem Agree.foreign {foreign : Site} (h : site.Agree store other)
    (hdiff : site.identity ≠ foreign.identity) (hapart : ¬ site.Meets foreign)
    (hevolves : foreign.Evolves store left) (room : left.stats.committed < UInt64.size) :
    site.InStep store other left { other with
      database := { other.database with nextId := left.database.nextId } } := by
  obtain ⟨hversion, hcounted⟩ := hevolves.counted room h.valid.counted
  have hkept : ∀ key, site.Owns key → left.table.get? key = store.table.get? key :=
    fun key hkey => hevolves.touches.unseen (fun hmeets => hapart hmeets.symm) hkey
  have hagree : site.Agree left { other with
      database := { other.database with nextId := left.database.nextId } } :=
    { valid := ⟨hevolves.touches.housed_other hdiff.symm h.valid.housed, hcounted⟩
      valid' := ⟨h.valid'.housed, h.valid'.counted.rests ⟨rfl, rfl, rfl, rfl, rfl⟩⟩
      retry := h.retry.trans hevolves.retry.symm
      isOpen := h.isOpen.trans hevolves.isOpen.symm
      nextId := rfl
      committed_le := Nat.le_trans h.committed_le hevolves.committed_le
      same := fun key hkey => by
        refine (h.same key hkey).trans ?_
        rw [Table.document?, Table.document?, hkept key hkey] }
  exact .of_eq hagree hversion (Nat.le_refl _) hkept fun _ _ => rfl

/-- Beginning in both stores. -/
theorem Agree.begin (h : site.Agree store other) :
    (∃ error, store.begin = .error error ∧ other.begin = .error error) ∨
      ∃ left left', store.begin = .ok ({ id := store.database.nextId }, left) ∧
        other.begin = .ok ({ id := store.database.nextId }, left') ∧
        site.InStep store other left left' := by
  cases hopen : store.isOpen with
  | false =>
    have hopen' := h.isOpen.trans hopen
    refine .inl ⟨.ofStore "store is closed", ?_, ?_⟩
    · rw [Store.begin, Store.ensureOpen, hopen]
      rfl
    · rw [Store.begin, Store.ensureOpen, hopen']
      rfl
  | true =>
    have hopen' := h.isOpen.trans hopen
    have hbegin : store.begin = .ok ({ id := store.database.nextId }, { store with
        database := { store.database with nextId := store.database.nextId + 1 }
        stats := { store.stats with started := store.stats.started + 1 } }) := by
      rw [Store.begin, Store.ensureOpen, hopen]
      rfl
    have hbegin' : other.begin = .ok ({ id := store.database.nextId }, { other with
        database := { other.database with nextId := store.database.nextId + 1 }
        stats := { other.stats with started := other.stats.started + 1 } }) := by
      rw [Store.begin, Store.ensureOpen, hopen', ← h.nextId]
      rfl
    exact .inr ⟨_, _, hbegin, hbegin', h.rests (.begin hbegin) (.begin hbegin') rfl⟩

/-- Aborts are counted in both stores. -/
theorem Agree.countAborted (h : site.Agree store other) :
    site.InStep store other store.countAborted other.countAborted :=
  h.rests (.countAborted store) (.countAborted other) h.nextId

theorem Twin.aborted (h : site.Twin store other attempt twin) (reason : String) :
    site.Twin store other (Database.aborted attempt reason) (Database.aborted twin reason) :=
  ⟨h.id, rfl, rfl, ⟨h.keeps.reads, site.covers_nil⟩, h.reads⟩

/-- Aborting twins. -/
theorem Twin.abort (h : site.Twin store other attempt twin) (reason : String) :
    (∃ error, store.abort attempt reason = .error error ∧
        other.abort twin reason = .error error) ∨
      store.abort attempt reason = .ok (Database.aborted attempt reason, store.countAborted) ∧
        other.abort twin reason = .ok (Database.aborted twin reason, other.countAborted) := by
  have hsame := h.status
  unfold Store.abort Attempt.markAborted
  cases hstatus : attempt.status with
  | active | validating =>
    rw [hstatus] at hsame
    rw [hsame]
    exact .inr ⟨rfl, rfl⟩
  | committed | aborted earlier =>
    rw [hstatus] at hsame
    rw [hsame, h.id]
    exact .inl ⟨_, rfl, rfl⟩

/-- Both commits went alike. -/
structure EndsAlike (site : Site) (store other : Store)
    (run run' : Except Error UInt64 × Attempt × Store) : Prop where
  similar : Similar run.1 run'.1
  inStep : site.InStep store other run.2.2 run'.2.2
  twin : site.Twin run.2.2 run'.2.2 run.2.1 run'.2.1

/-- Commits that fail in both stores. -/
theorem Twin.commit_failed (h : site.Twin store other attempt twin)
    (hagree : site.Agree store other) {error error' : CommitError} {reason : String}
    (hopen : store.isOpen = true)
    (herror : ∀ reason, error ≠ .invalidState reason)
    (herror' : ∀ reason, error' ≠ .invalidState reason)
    (hcommit : store.database.commit attempt =
      (.error error, Database.aborted attempt reason, store.database))
    (hcommit' : other.database.commit twin =
      (.error error', Database.aborted twin reason, other.database))
    (hsimilar : Similar (.error error.toError) (.error error'.toError)) :
    site.EndsAlike store other (store.commit attempt) (other.commit twin) := by
  have hstep := hagree.countAborted
  rw [Store.commit_failed hopen herror hcommit,
    Store.commit_failed (hagree.isOpen.trans hopen) herror' hcommit']
  exact ⟨hsimilar, hstep, (h.inStep hstep).aborted reason⟩

/-- Installing in both stores the same for the shards of the site. -/
theorem Agree.installed (h : site.Agree store other) {staged part : Database.Staged}
    (hpart : ∀ key, site.Owns key → part[key]? = staged[key]?)
    (hleft : store.database.version.toNat ≤ (store.database.installed staged).version.toNat ∧
      site.Valid { store with database := store.database.installed staged }.countCommitted)
    (hleft' : other.database.version.toNat ≤ (other.database.installed part).version.toNat ∧
      site.Valid { other with database := other.database.installed part }.countCommitted)
    (room : store.stats.committed + 1 < UInt64.size) :
    site.InStep store other
      { store with database := store.database.installed staged }.countCommitted
      { other with database := other.database.installed part }.countCommitted := by
  have hversion := h.valid.counted.version_le
  have hversion' := h.valid'.counted.version_le
  have hcommitted := h.committed_le
  have hseen : ∀ key, site.Owns key → Database.seen other.database.table part key =
      Database.seen store.database.table staged key := fun key hkey => by
    rw [Database.seen, Database.seen, hpart key hkey]
    exact congrArg _ (h.same key hkey)
  have hagree : site.Agree { store with database := store.database.installed staged }.countCommitted
      { other with database := other.database.installed part }.countCommitted :=
    { valid := hleft.2
      valid' := hleft'.2
      retry := h.retry
      isOpen := h.isOpen
      nextId := (Database.nextId_installed _ _).trans
        (h.nextId.trans (Database.nextId_installed _ _).symm)
      committed_le := Nat.succ_le_succ hcommitted
      same := fun key hkey => (Database.document?_installed _ _ _).trans
        ((hseen key hkey).trans (Database.document?_installed _ _ _).symm) }
  refine ⟨hagree, hleft.1, hleft'.1, fun key hkey => ?_⟩
  show (store.database.installed staged).table.get? key = _ ∧ _ ∨
    (store.database.installed staged).table.get? key = none ∧
      (other.database.installed part).table.get? key = none ∨
    store.database.version.toNat < ((store.database.installed staged).table.versionOf key).toNat ∧
      other.database.version.toNat < ((other.database.installed part).table.versionOf key).toNat
  have hget := Database.get?_installed store.database staged key
  have hget' := Database.get?_installed other.database part key
  rw [hpart key hkey] at hget'
  cases hstaged : staged[key]? with
  | none =>
    rw [hstaged] at hget hget'
    exact .inl ⟨hget, hget'⟩
  | some made =>
    rw [hstaged] at hget hget'
    cases made with
    | none => exact .inr (.inl ⟨hget, hget'⟩)
    | some document =>
      refine .inr (.inr ?_)
      rw [Table.versionOf_eq hget, Table.versionOf_eq hget']
      dsimp only
      rw [Database.toNat_succ (by omega), Database.toNat_succ (by omega)]
      omega

end Site

/-- The commit fails and aborts the attempt. -/
def Store.Loses (store : Store) (attempt : Attempt) (reason : String) : Prop :=
  attempt.status = .active ∧ ∃ error, store.commit attempt =
    (.error error, Database.aborted attempt reason, store.countAborted)

namespace Site

variable {site : Site} {store other : Store} {attempt twin : Attempt}

/-- Committing twins.  If the first attempt holds something of another handle, then
its commit must not fail for it. -/
theorem Twin.commit (h : site.Twin store other attempt twin) (hagree : site.Agree store other)
    (hsame : site.Keeps attempt ∨ ∀ reason, ¬ store.Loses attempt reason)
    (hhoused : site.Housed (store.commit attempt).2.2.table)
    (room : (store.commit attempt).2.2.stats.committed < UInt64.size) :
    site.EndsAlike store other (store.commit attempt) (other.commit twin) := by
  cases hopen : store.isOpen with
  | false =>
    rw [Store.commit_closed hopen, Store.commit_closed (hagree.isOpen.trans hopen)]
    exact ⟨.error _, .refl hagree, h⟩
  | true =>
    have hopen' := hagree.isOpen.trans hopen
    by_cases hactive : attempt.status = .active
    · have hactive' := h.status.trans hactive
      by_cases hvalid : Database.conflicts store.table attempt = []
      · have hvalid' := h.conflicts_eq_nil hvalid
        have hstages : Database.stage other.table twin.writes =
            Database.stage store.table twin.writes :=
          Database.stage_congr fun entry hentry => hagree.same _ (h.keeps.covers entry hentry).owns
        cases hstage : Database.stage store.table attempt.writes with
        | error error =>
          have hcommit : store.database.commit attempt = _ :=
            Database.commit_unstaged hactive hvalid hstage
          rcases hsame with hkeeps | hnot
          · rw [h.writes_eq hkeeps, hstage, ← h.writes_eq hkeeps] at hstages
            exact h.commit_failed hagree hopen (by simp) (by simp) hcommit
              (Database.commit_unstaged hactive' hvalid' hstages) (.error _)
          · exact absurd ⟨hactive, _, Store.commit_failed hopen (by simp) hcommit⟩ (hnot _)
        | ok staged =>
          obtain ⟨part, hpart, hsame⟩ := stage_part site hstage
          rw [← h.writes] at hpart
          have hcommit := Store.commit_ok hopen (Database.commit_staged hactive hvalid hstage)
          have hcommit' := Store.commit_ok hopen' (Database.commit_staged hactive' hvalid'
            (hstages.trans hpart))
          have hleft := hagree.valid.counted.commit room
          have hleft' := Evolves.commit other h.keeps.covers
          rw [hcommit] at hhoused hleft room ⊢
          rw [hcommit'] at hleft' ⊢
          have hcounted' := hleft'.counted
            (Nat.lt_of_le_of_lt (Nat.succ_le_succ hagree.committed_le) room) hagree.valid'.counted
          have hstep := hagree.installed hsame
            ⟨hleft.1, hhoused, hleft.2⟩
            ⟨hcounted'.1, hleft'.touches.housed hagree.valid'.housed, hcounted'.2⟩ room
          have htwin := h.inStep hstep
          exact ⟨.ok _ _, hstep, htwin.id, rfl, htwin.writes,
            ⟨htwin.keeps.reads, htwin.keeps.covers⟩,
            htwin.reads⟩
      · have hcommit : store.database.commit attempt = _ :=
          Database.commit_conflicting hactive hvalid
        rcases hsame with hkeeps | hnot
        · have hlength := congrArg List.length (h.conflicts hkeeps)
          rw [List.length_map, List.length_map] at hlength
          have hvalid' : Database.conflicts other.table twin ≠ [] := by
            rwa [ne_eq, ← List.length_eq_zero_iff, hlength, List.length_eq_zero_iff]
          have htext : CommitError.countText (Database.conflicts other.table twin) =
              CommitError.countText (Database.conflicts store.table attempt) := by
            rw [CommitError.countText, CommitError.countText, hlength]
          have hcommit' : other.database.commit twin = _ :=
            Database.commit_conflicting hactive' hvalid'
          rw [show CommitError.countText (Database.conflicts other.database.table twin) = _
            from htext]
            at hcommit'
          exact h.commit_failed hagree hopen (by simp) (by simp) hcommit hcommit'
            (.conflict (CommitError.isConflict_toError _) (CommitError.isConflict_toError _))
        · exact absurd ⟨hactive, _, Store.commit_failed hopen (by simp) hcommit⟩ (hnot _)
    · have hactive' : twin.status ≠ .active := h.status ▸ hactive
      rw [Store.commit_invalid hopen (Database.commit_inactive hactive),
        Store.commit_invalid hopen' (Database.commit_inactive hactive'), h.id, h.status]
      exact ⟨.error _, .refl hagree, h⟩

/-- The first commit fails and the second attempt is aborted. -/
theorem Twin.lose (h : site.Twin store other attempt twin) (hagree : site.Agree store other)
    {reason : String}
    (hloses : store.Loses attempt reason) :
    ∃ error, store.commit attempt =
        (.error error, Database.aborted attempt reason, store.countAborted) ∧
      other.abort twin reason = .ok (Database.aborted twin reason, other.countAborted) ∧
      site.InStep store other store.countAborted other.countAborted ∧
      site.Twin store.countAborted other.countAborted (Database.aborted attempt reason)
        (Database.aborted twin reason) := by
  obtain ⟨hactive, error, hcommit⟩ := hloses
  have hstep := hagree.countAborted
  refine ⟨error, hcommit, ?_, hstep, (h.inStep hstep).aborted reason⟩
  unfold Store.abort Attempt.markAborted
  rw [h.status.trans hactive]
  rfl

end Site

/-! ## Operations outside attempts -/

namespace Op.Within

open Protocol (closing tryOnce_eq)

variable {site : Site} {env : Env Unit} {other : Store}

/-- The end of an attempt that meets no conflict. -/
theorem alike_closing {outcome : Except Error α} {attempt twin : Attempt}
    (hagree : site.Agree env.store other) (htwin : site.Twin env.store other attempt twin)
    (hkeeps : site.Keeps attempt) (hnone : NoConflict (env.store.commit attempt).1)
    (room : ((closing attempt outcome).runIn env).2.store.stats.committed < UInt64.size) :
    ∃ left', (closing twin outcome).runIn { env with store := other } =
        (((closing attempt outcome).runIn env).1,
          { ((closing attempt outcome).runIn env).2 with store := left' }) ∧
      site.InStep env.store other ((closing attempt outcome).runIn env).2.store left' := by
  cases outcome with
  | error error =>
    have hactive : twin.isActive = attempt.isActive := by
      rw [Attempt.isActive, Attempt.isActive, htwin.status]
    unfold closing
    rw [hactive]
    cases attempt.isActive with
    | false => exact ⟨other, rfl, .refl hagree⟩
    | true =>
      simp only [if_true, runIn_bind, runIn_discard, runIn_abort]
      rcases htwin.abort error.message with ⟨other', habort, habort'⟩ | ⟨habort, habort'⟩
      · rw [habort, habort']
        exact ⟨other, rfl, .refl hagree⟩
      · rw [habort, habort']
        exact ⟨other.countAborted, rfl, hagree.countAborted⟩
  | ok value =>
    simp only [closing, runIn_bind, runIn_commit] at room ⊢
    have hends : (env.store.commit attempt).2.2.stats.committed < UInt64.size →
        site.EndsAlike env.store other (env.store.commit attempt) (other.commit twin) :=
      htwin.commit hagree (.inl hkeeps)
        ((Site.Evolves.commit _ hkeeps.covers).touches.housed hagree.valid.housed)
    rcases hcommit : env.store.commit attempt with ⟨first, later, left⟩
    rcases hcommit' : other.commit twin with ⟨second, later', left'⟩
    rw [hcommit] at room hends hnone
    rw [hcommit'] at hends
    dsimp only at room hends ⊢
    cases first with
    | ok version =>
      obtain ⟨hsimilar, hstep, -⟩ := hends room
      cases hsimilar
      exact ⟨left', rfl, hstep⟩
    | error error =>
      dsimp only at room ⊢
      rw [hnone error rfl] at room ⊢
      obtain ⟨hsimilar, hstep, -⟩ := hends room
      cases hsimilar with
      | error =>
        dsimp only
        rw [hnone error rfl]
        exact ⟨left', rfl, hstep⟩
      | conflict hconflict _ =>
        rw [hnone error rfl] at hconflict
        cases hconflict

theorem alike_tryOnce {body : TxOp Unit α} (h : body.Within site true) (ctx : Context)
    (hagree : site.Agree env.store other)
    (room : ((tryOnce ctx body).runIn env).2.store.stats.committed < UInt64.size) :
    ∃ left', (tryOnce ctx body).runIn { env with store := other } =
        (((tryOnce ctx body).runIn env).1,
          { ((tryOnce ctx body).runIn env).2 with store := left' }) ∧
      site.InStep env.store other ((tryOnce ctx body).runIn env).2.store left' := by
  rw [tryOnce_eq, runIn_bind, runIn_check] at room
  rw [tryOnce_eq, runIn_bind, runIn_bind, runIn_check, runIn_check]
  dsimp only at room ⊢
  cases hcheck : ctx.check env.flags env.elapsed with
  | error error => exact ⟨other, rfl, .refl hagree⟩
  | ok _ =>
    rw [hcheck] at room
    dsimp only at room ⊢
    rw [runIn_bind, runIn_begin] at room
    rw [runIn_bind, runIn_bind, runIn_begin, runIn_begin]
    dsimp only
    rcases hagree.begin with ⟨error, hbegin, hbegin'⟩ | ⟨store, store', hbegin, hbegin', hstep⟩
    · rw [hbegin, hbegin']
      exact ⟨other, rfl, .refl hagree⟩
    · rw [hbegin] at room
      rw [hbegin, hbegin']
      dsimp only at room ⊢
      rw [runIn_bind, TxOp.runIn_runOn] at room
      rw [runIn_bind, runIn_bind, TxOp.runIn_runOn, TxOp.runIn_runOn]
      dsimp only at room ⊢
      obtain ⟨later, hbody, htwin, -⟩ := h.alike { env with store } hstep.agree
        (.begun site store store' env.store.database.nextId) fun _ => id
      obtain ⟨hstore, hadds⟩ := h.adds { id := env.store.database.nextId } { env with store }
      have hkeeps := (Site.Keeps.begun site env.store.database.nextId).adds hadds
      have hnone := h.steady.noConflict env.store.database.nextId { env with store }
      rw [hbody]
      rcases hrun : body.runIn { id := env.store.database.nextId } { env with store } with
        ⟨outcome, attempt, midway⟩
      rw [hrun] at room htwin hstore hkeeps hnone
      dsimp only at room htwin hstore hkeeps hnone ⊢
      obtain rfl : midway.store = store := hstore
      obtain ⟨left', hclosing, hstep'⟩ := alike_closing hstep.agree htwin hkeeps hnone room
      exact ⟨left', hclosing, hstep.trans hstep'⟩

theorem alike_transact {body : TxOp Unit α} (h : body.Within site true) (ctx : Context)
    (hagree : site.Agree env.store other)
    (room : ((Op.transact ctx body).runIn env).2.store.stats.committed < UInt64.size) :
    ∃ left', (Op.transact ctx body).runIn { env with store := other } =
        (((Op.transact ctx body).runIn env).1,
          { ((Op.transact ctx body).runIn env).2 with store := left' }) ∧
      site.InStep env.store other ((Op.transact ctx body).runIn env).2.store left' := by
  obtain ⟨outcome, left, htry, hrun⟩ := transact_eq_tryOnce h.steady ctx env
  obtain ⟨outcome', left', htry', hrun'⟩ :=
    transact_eq_tryOnce h.steady ctx { env with store := other }
  have htries := alike_tryOnce h ctx hagree
  rw [htry, htry'] at htries
  rw [hrun] at room ⊢
  rw [hrun']
  obtain ⟨after, hsame, hstep⟩ := htries room
  rw [Prod.mk.injEq] at hsame
  obtain ⟨houtcome, rfl⟩ := hsame
  refine ⟨after, Prod.ext ?_ rfl, hstep⟩
  cases outcome <;> cases outcome' <;> cases houtcome <;> rfl

/-- An operation that keeps to the site does the same in both stores. -/
theorem alike {op : Op Unit α} (h : op.Within site) (hagree : site.Agree env.store other)
    (room : (op.runIn env).2.store.stats.committed < UInt64.size) :
    ∃ left', op.runIn { env with store := other } =
        ((op.runIn env).1, { (op.runIn env).2 with store := left' }) ∧
      site.InStep env.store other (op.runIn env).2.store left' := by
  induction h generalizing env other with
  | aside h =>
    refine ⟨other, h env other, ?_⟩
    rw [h.store_eq]
    exact .refl hagree
  | owned ctx operation =>
    refine ⟨other, ?_, ?_⟩
    · have hscan := hagree.scan
      have hopen := hagree.isOpen
      simp only [ShardGroup.owned, Op.query, runIn_withContext, runIn_bind, runIn_check, runIn_ask]
      cases ctx.check env.flags env.elapsed with
      | error error => rfl
      | ok _ =>
        simp only [Store.query, Store.ensureOpen, hopen, hscan]
    · rcases site.group.owned_cases ctx operation env with ⟨error, hrun⟩ | hrun <;>
        rw [hrun] <;> exact .refl hagree
  | transact ctx h => exact alike_transact h ctx hagree room
  | withContext operation owner key h ih =>
    obtain ⟨left', hrun, hstep⟩ := ih hagree room
    rw [runIn_withContext, runIn_withContext, hrun]
    exact ⟨left', rfl, hstep⟩
  | @bind _ _ op next h hnext ih ihnext =>
    have hhoused := hagree.valid.housed
    have hfirst := h.evolves env hhoused
    rw [runIn_bind] at room ⊢
    rw [runIn_bind]
    rcases hop : op.runIn env with ⟨error | value, midway⟩
    · rw [hop] at room
      obtain ⟨between, hrun, hstep⟩ := ih hagree (by rw [hop]; exact room)
      rw [hop] at hrun hstep
      rw [hrun]
      exact ⟨between, rfl, hstep⟩
    · rw [hop] at room hfirst
      dsimp only at room hfirst ⊢
      have hwithin := hnext env value hhoused (by rw [hop])
      have hsecond := hwithin.evolves midway (hfirst.touches.housed hhoused)
      obtain ⟨between, hrun, hstep⟩ := ih hagree
        (by rw [hop]; exact Nat.lt_of_le_of_lt hsecond.committed_le room)
      rw [hop] at hrun hstep
      dsimp only at hrun hstep
      obtain ⟨left', hrun', hstep'⟩ := ihnext env value hhoused (by rw [hop]) hstep.agree room
      rw [hrun]
      exact ⟨left', hrun', hstep.trans hstep'⟩

end Op.Within

end Shardwise
