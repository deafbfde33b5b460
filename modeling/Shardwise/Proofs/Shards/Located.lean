import Shardwise.Proofs.Shards.Counter.Single
import Shardwise.Proofs.Shards.Errands

/-!
# Store errors that say where they arose

The store does not know on whose behalf it is asked, and its errors say nothing but what
went wrong (`Error.Bare`).  Handles add the operation, the collection and the owner, and
an error with all three is `Error.Located`.

* A read phase adds them to its reads, and a write phase gives no store errors
  (`ReadPhase.located`, `WritePhase.failsIn`).
* Counts and removals add them to their queries and their transactions.
* An errand that reserves is one transaction around a read phase and a write phase, and
  adds nothing to what the transaction itself fails with.  `Errand.located_iff` says when
  that shows: in a closed store, if the context is not done.
-/

namespace Shardwise

variable {υ α : Type}

namespace Error

/-- A store error says during which operation it arose, and names the collection and the
owner of the group. -/
def Located (group : ShardGroup) : Error → Prop
  | .store operation collection owner _ _ =>
    operation ≠ "" ∧ collection = group.collection ∧ owner = group.owner
  | _ => True

/-- A store error says nothing about where it arose. -/
def Bare : Error → Prop
  | .store operation collection owner key _ =>
    operation = "" ∧ collection = "" ∧ owner = "" ∧ key = ""
  | _ => True

variable {error : Error} {group : ShardGroup}

theorem NotStore.located (h : error.NotStore) (group : ShardGroup) : error.Located group := by
  cases error <;> trivial

theorem NotStore.bare (h : error.NotStore) : error.Bare := by
  cases error <;> trivial

theorem OfData.located (h : error.OfData) (group : ShardGroup) : error.Located group :=
  h.notStore.located group

/-- What is added to a store error that says nothing. -/
theorem Bare.located (h : error.Bare) {operation : String} (hoperation : operation ≠ "")
    {key : DocKey} (hkey : key.collection = group.collection) :
    (error.withStoreContext operation group.owner key).Located group := by
  cases error with
  | store _ _ _ _ message =>
    obtain ⟨rfl, rfl, rfl, rfl⟩ := h
    exact ⟨hoperation, hkey, rfl⟩
  | _ => trivial

/-- Nothing is added to other errors. -/
theorem NotStore.withStoreContext (h : error.NotStore) (operation owner : String) (key : DocKey) :
    error.withStoreContext operation owner key = error := by
  cases error <;> first | rfl | cases h

end Error

/-! ## Parts of operations -/

section

variable {group : ShardGroup} {operation : String} {key : DocKey} {outcome : Except Error α}

theorem FailsIn.located (h : FailsIn Error.Bare outcome) (hoperation : operation ≠ "")
    (hkey : key.collection = group.collection) :
    FailsIn (·.Located group) (withStoreContext operation group.owner key outcome) := by
  cases outcome with
  | error error => exact .error ((h error rfl).located hoperation hkey)
  | ok value => exact .ok value

theorem Op.FailsIn.located {op : Op υ α} (h : op.FailsIn Error.Bare) (hoperation : operation ≠ "")
    (hkey : key.collection = group.collection) :
    (op.withContext operation group.owner key).FailsIn (·.Located group) :=
  fun env => (h env).located hoperation hkey

theorem TxOp.FailsIn.located {op : TxOp υ α} (h : op.FailsIn Error.Bare)
    (hoperation : operation ≠ "") (hkey : key.collection = group.collection) :
    (op.withContext operation group.owner key).FailsIn (·.Located group) :=
  fun attempt env => (h attempt env).located hoperation hkey

end

theorem Op.check_failsIn (ctx : Context) : (Op.check ctx : Op υ Unit).FailsIn Error.NotStore := by
  intro env error herror
  obtain ⟨reason, rfl⟩ := Context.canceled_of_check herror
  rfl

theorem Attempt.buffer_failsIn (attempt : Attempt) (key : DocKey) (write : Write) :
    FailsIn Error.NotStore (attempt.buffer key write) := by
  unfold buffer ensureActive
  cases attempt.isActive with
  | true => exact .ok _
  | false => exact .error rfl

theorem TxOp.change_failsIn {errors : Error → Prop} {request : Attempt → Except Error Attempt}
    (h : ∀ attempt, Shardwise.FailsIn errors (request attempt)) :
    (TxOp.change request : TxOp υ Unit).FailsIn errors := by
  intro attempt env
  rw [runIn_change]
  cases hrequest : request attempt with
  | error error => exact .error (h attempt error hrequest)
  | ok changed => exact .ok ()

/-- The store says nothing about where a read failed. -/
theorem TxOp.get_failsIn (key : DocKey) :
    (TxOp.get key : TxOp υ (Option Document)).FailsIn Error.Bare := by
  have hget : ∀ (attempt : Attempt) (table : Table),
      Shardwise.FailsIn Error.Bare (attempt.get table key) := by
    intro attempt table
    unfold Attempt.get Attempt.ensureActive
    cases attempt.isActive with
    | false => exact .error trivial
    | true =>
      show Shardwise.FailsIn Error.Bare (if attempt.writes.isEmpty then _ else _)
      split
      · exact .ok _
      · exact .error ⟨rfl, rfl, rfl, rfl⟩
  intro attempt env
  rw [runIn_get]
  rcases h : attempt.get env.store.table key with error | ⟨document, changed⟩
  · exact .error (hget _ _ error h)
  · exact .ok document

theorem TxOp.delete_failsIn (key : DocKey) :
    (TxOp.delete key : TxOp υ Unit).FailsIn Error.NotStore :=
  change_failsIn fun attempt => attempt.buffer_failsIn key .delete

theorem Op.query_failsIn (ctx : Context) (collection field : String) (value : Value) :
    (Op.query ctx collection field value : Op υ _).FailsIn Error.Bare := by
  refine ((Op.check_failsIn ctx).mono fun _ h => h.bare).bind fun _ env => ?_
  rw [runIn_ask]
  unfold Store.query Store.ensureOpen
  cases env.store.isOpen with
  | true => exact .ok _
  | false => exact .error ⟨rfl, rfl, rfl, rfl⟩

/-! ## Transactions -/

namespace Op

variable {errors : Error → Prop} {policy : RetryPolicy} {ctx : Context} {body : TxOp υ α}

/-- A transaction fails as its operation does or with errors that are none of the store,
and also because the store is closed, unless it is open and the operation leaves it
so. -/
theorem Transacts.failsIn {left : Nat} {env final : Env υ} {calls : List (Call υ α)}
    {outcome : Except Error α} (h : Transacts policy ctx body left env calls outcome final)
    (hbody : body.FailsIn errors) (hothers : ∀ error : Error, error.NotStore → errors error)
    (hclosed : (env.store.isOpen = true ∧ body.Steady) ∨ errors (.ofStore "store is closed")) :
    Shardwise.FailsIn errors outcome := by
  induction h with
  | done h =>
    obtain ⟨reason, rfl⟩ := Context.canceled_of_check h
    exact .error (hothers _ rfl)
  | @closed _ env _ live h =>
    refine .error ?_
    rcases hclosed with ⟨hopen, -⟩ | hclosed
    · rw [Store.ensureOpen, hopen] at h
      cases h
    · unfold Store.ensureOpen at h
      cases hopen : env.store.isOpen <;> rw [hopen] at h <;> cases h
      exact hclosed
  | @failed _ env call error h hfailed =>
    refine .error (hbody call.begun call.before error ?_)
    rw [h.call_eq] at hfailed ⊢
    exact hfailed
  | committed => exact .ok _
  | @refused _ env call _ error _ _ h _ hcommit _ =>
    refine .error ?_
    cases hopen : call.after.store.isOpen with
    | true =>
      have hothersFail := Store.commit_failsIn hopen call.later
      rw [hcommit] at hothersFail
      exact hothers error (hothersFail error rfl)
    | false =>
      rw [Store.commit_closed hopen] at hcommit
      cases hcommit
      rcases hclosed with ⟨hstart, hsteady⟩ | hclosed
      · -- The operation did not close the store, nor did what begins an attempt.
        have hkept := (hsteady { id := env.store.database.nextId }
          { env with store := env.store.begun }).1
        rw [h.call_eq, TxOp.call, hkept] at hopen
        cases hstart.symm.trans hopen
      · exact hclosed
  | again h hvalue hcommit hconflict more ih =>
    exact ih (hclosed.imp_left fun hsteady => ⟨open_of_conflict hcommit hconflict, hsteady.2⟩)

theorem FailsIn.transact (hbody : body.FailsIn errors)
    (hothers : ∀ error : Error, error.NotStore → errors error)
    (hclosed : errors (.ofStore "store is closed")) : (transact ctx body).FailsIn errors := by
  intro env
  obtain ⟨calls, htrace, -⟩ :=
    transacts_noting env.store.retry ctx body env.store.retry.maxRetries env
  exact htrace.failsIn hbody hothers (.inr hclosed)

/-- An open store gives no errors of its own, as long as it stays open. -/
theorem transact_failsIn (hsteady : body.Steady) (hbody : body.FailsIn errors)
    (hothers : ∀ error : Error, error.NotStore → errors error) {env : Env υ}
    (hopen : env.store.isOpen = true) :
    Shardwise.FailsIn errors ((transact ctx body).runIn env).1 := by
  obtain ⟨calls, htrace, -⟩ :=
    transacts_noting env.store.retry ctx body env.store.retry.maxRetries env
  exact htrace.failsIn hbody hothers (.inl ⟨hopen, hsteady⟩)

/-- A read phase and a write phase in an open store say where a store error arose. -/
theorem phases_located {β : Type} {group : ShardGroup} (ctx : Context) {read : TxOp Unit β}
    {write : β → TxOp Unit α} (hreads : read.ReadsOnly) (hread : read.FailsIn (·.Located group))
    (hsteady : ∀ pending, (write pending).Steady)
    (hwrite : ∀ pending, (write pending).FailsIn Error.NotStore) (env : Env Unit)
    (hopen : env.store.isOpen = true) :
    Shardwise.FailsIn (·.Located group) ((transact ctx (read >>= write)).runIn env).1 := by
  refine transact_failsIn (hreads.steady.bind hsteady) ?_ (fun _ h => h.located group) hopen
  exact hread.bind fun pending => (hwrite pending).mono fun _ h => h.located group

end Op

/-! ## Groups -/

namespace ShardGroup

variable (group : ShardGroup) (ctx : Context)

theorem check_failsIn : (group.check ctx : Op υ Unit).FailsIn Error.NotStore := by
  unfold check
  cases group.problem? with
  | some problem => exact .ofExcept (.error rfl)
  | none => exact Op.check_failsIn ctx

theorem check_located : (group.check ctx : Op υ Unit).FailsIn (·.Located group) :=
  (group.check_failsIn ctx).mono fun _ h => h.located group

theorem checkRead_failsIn : (group.checkRead ctx : TxOp υ Unit).FailsIn Error.NotStore := by
  refine (TxOp.FailsIn.ofOp (group.check_failsIn ctx)).bind fun _ => ?_
  refine TxOp.FailsIn.attempt.bind fun attempt => .ofExcept ?_
  unfold ensureInTransaction
  split
  · exact .ok ()
  · exact .error rfl

theorem checkRead_located : (group.checkRead ctx : TxOp υ Unit).FailsIn (·.Located group) :=
  (group.checkRead_failsIn ctx).mono fun _ h => h.located group

theorem checkWrite_failsIn (stamp : Stamp) :
    (group.checkWrite ctx stamp : TxOp υ Unit).FailsIn Error.NotStore := by
  refine (group.checkRead_failsIn ctx).bind fun _ => ?_
  refine TxOp.FailsIn.attempt.bind fun attempt => .ofExcept ?_
  unfold verify
  split
  · exact .error rfl
  · split
    · exact .error rfl
    · exact .ok ()

/-- A write inside an attempt gives no store error. -/
theorem writeShard_failsIn (operation : String) (key : DocKey) (present : Bool)
    (made : ShardRecord) :
    (group.writeShard operation key present made : TxOp υ Unit).FailsIn Error.NotStore := by
  have hwrite : (if present then TxOp.increment key valueField made.value
      else TxOp.set key made.fields false : TxOp υ Unit).FailsIn Error.NotStore := by
    cases present with
    | false => exact TxOp.change_failsIn fun attempt => attempt.buffer_failsIn key _
    | true =>
      refine TxOp.change_failsIn fun attempt => ?_
      unfold Attempt.increment
      split
      · exact attempt.buffer_failsIn key _
      · exact .error rfl
  intro attempt env
  rw [writeShard, TxOp.runIn_withContext]
  cases houtcome : ((if present then TxOp.increment key valueField made.value
      else TxOp.set key made.fields false : TxOp υ Unit).runIn attempt env).1 with
  | ok done => exact .ok done
  | error error =>
    have herror := hwrite attempt env error houtcome
    rw [withStoreContext_error, herror.withStoreContext]
    exact .error herror

theorem owned_located {operation : String} (h : operation ≠ "") :
    (group.owned ctx operation : Op υ _).FailsIn (·.Located group) :=
  (Op.query_failsIn ctx _ _ _).located h rfl

/-- A batch of documents of the group. -/
theorem deleteBatch_located {first : DocKey} (h : first.collection = group.collection)
    (keys : List DocKey) :
    (group.deleteBatch ctx first keys : Op υ Unit).FailsIn (·.Located group) := by
  have hkeys : (keys.forM TxOp.delete : TxOp υ Unit).FailsIn Error.Bare :=
    .forM (fun key => (TxOp.delete_failsIn key).mono fun _ herror => herror.bare) keys
  have htransact : (Op.transact ctx (keys.forM TxOp.delete) : Op υ Unit).FailsIn Error.Bare :=
    .transact hkeys (fun _ herror => herror.bare) ⟨rfl, rfl, rfl, rfl⟩
  exact htransact.located (by decide) h

theorem deleteRounds_located (rounds : Nat) :
    (group.deleteRounds ctx rounds : Op υ Bool).FailsIn (·.Located group) := by
  induction rounds with
  | zero => exact (group.owned_located ctx (by decide)).bind fun _ => .pure _
  | succ rounds ih =>
    refine (group.owned_located ctx (by decide)).bind_of_ok fun env found hfound => ?_
    cases htake : found.take (group.numShards + 1) with
    | nil => exact .pure true
    | cons entry more =>
      refine .bind (group.deleteBatch_located ctx ?_ _) fun _ => ih
      -- What the query found lies in the collection of the group.
      have hentry : entry ∈ found := List.mem_of_mem_take (htake ▸ List.mem_cons_self)
      rcases group.owned_cases ctx "delete_shards" env with ⟨error, hrun⟩ | hrun
      · rw [hrun] at hfound
        cases hfound
      · rw [hrun] at hfound
        cases hfound
        exact (Table.mem_scan.mp hentry).2.1

theorem deleteShards_located (rounds : Nat) :
    (group.deleteShards ctx rounds : Op υ Bool).FailsIn (·.Located group) :=
  (group.check_located ctx).bind fun _ => group.deleteRounds_located ctx rounds

theorem shardsCount_located : (group.shardsCount ctx : Op υ Nat).FailsIn (·.Located group) :=
  (group.check_located ctx).bind fun _ =>
    (group.owned_located ctx (by decide)).bind fun _ => .pure _

end ShardGroup

/-! ## Counters -/

namespace Counter

variable (counter : Counter) (ctx : Context)

theorem isPresent_located (level : Level) (time : Instant) (index : Nat) :
    (counter.isPresent ctx (counter.levelKey level time index) : TxOp υ Bool).FailsIn
      (·.Located counter.group) := by
  have hkey : (counter.levelKey level time index).collection = counter.group.collection := by
    unfold levelKey counterShardKey
    cases level.suffix? time <;> rfl
  refine (TxOp.FailsIn.ofOp ((Op.check_failsIn ctx).mono fun _ h => h.located _)).bind fun _ => ?_
  exact ((TxOp.get_failsIn _).located (by decide) hkey).bind fun _ => .pure _

theorem probe_located (time : Instant) (index : Nat) (found : Bool) (levels : List Level) :
    (counter.probe ctx time index found levels : TxOp υ _).FailsIn (·.Located counter.group) := by
  induction levels generalizing found with
  | nil => exact .pure _
  | cons level coarser ih =>
    rw [probe_cons]
    refine .bind ?_ fun present => (ih present).map _
    cases found with
    | true => exact .pure true
    | false => exact counter.isPresent_located ctx level time index

theorem incrementRead_located :
    (counter.incrementRead ctx : TxOp υ PendingIncrement).FailsIn (·.Located counter.group) := by
  refine (counter.group.checkRead_located ctx).bind fun _ => (TxOp.FailsIn.pickShard _).bind ?_
  intro index
  have hnow : (counter.now : TxOp υ Instant).FailsIn (·.Located counter.group) := fun _ _ => .ok _
  refine hnow.bind fun time => .bind ?_ fun shards => TxOp.FailsIn.attempt.bind fun _ => .pure _
  unfold probeAll
  cases counter.dateHierarchy with
  | true =>
    exact (counter.probe_located ctx time index _ _).bind fun dated =>
      (counter.probe_located ctx time index _ _).bind fun total => .pure _
  | false =>
    exact (TxOp.FailsIn.pure []).bind fun dated =>
      (counter.probe_located ctx time index _ _).bind fun total => .pure _

theorem incrementWrite_failsIn (pending : PendingIncrement) (value : Int64) :
    (counter.incrementWrite ctx pending value : TxOp υ Unit).FailsIn Error.NotStore := by
  have hwrites : (pending.shards.forM (counter.writeLevel pending.time value) : TxOp υ Unit).FailsIn
      Error.NotStore := .forM (fun shard => counter.group.writeShard_failsIn _ _ _ _) pending.shards
  refine (counter.group.checkWrite_failsIn ctx pending.stamp).bind fun _ => ?_
  exact .guard _ (rfl : Error.NotStore (.invalidInput _)) hwrites

theorem levelDocuments_located (level : Level) {operation : String} (h : operation ≠ "") :
    (counter.levelDocuments ctx level operation : Op υ _).FailsIn (·.Located counter.group) :=
  (counter.group.owned_located ctx h).bind fun _ => .pure _

theorem sumValues_failsIn (documents : List Document) :
    FailsIn Error.OfData (sumValues documents) := by
  refine .foldlM (fun sum document => ?_) documents 0.0
  exact (document.field_failsIn valueField).bind fun value =>
    (value.toFloat_failsIn valueField).bind fun x => .ok _

theorem countAll_located :
    (counter.countAll ctx : Op υ Float).FailsIn (·.Located counter.group) := by
  refine (counter.group.check_located ctx).bind fun _ => ?_
  refine (counter.levelDocuments_located ctx .total (by decide)).bind fun documents => ?_
  exact .ofExcept ((sumValues_failsIn documents).mono fun _ h => h.located _)

theorem ofDocument_failsIn (document : Document) :
    FailsIn Error.OfData (ShardRecord.ofDocument document) := by
  have howner : FailsIn Error.OfData (ShardRecord.ownerOf document) := by
    refine (document.field_failsIn ownerField).bind fun value => ?_
    cases value <;> first | exact .ok _ | exact .error trivial
  have hvalue : FailsIn Error.OfData (ShardRecord.valueOf document) := by
    refine (document.field_failsIn valueField).bind fun value => ?_
    split
    · exact .ok _
    · exact .error trivial
  have hlevel : FailsIn Error.OfData (ShardRecord.levelOf document) := by
    unfold ShardRecord.levelOf Level.ofName
    split
    · exact .ok _
    · exact .ok _
    · refine .map ?_ _
      split
      · exact .ok _
      · exact .error trivial
    · exact .error trivial
  have htime : FailsIn Error.OfData (ShardRecord.timeOf document) := by
    unfold ShardRecord.timeOf
    split
    · exact .ok _
    · exact .ok _
    · exact .ok _
    · exact .error trivial
  exact howner.bind fun _ => hvalue.bind fun _ => hlevel.bind fun _ => htime.bind fun _ => .ok _

theorem addToPeriod_failsIn (level : Level) (since before : Instant) (sums : PeriodSums)
    (document : Document) :
    FailsIn Error.OfData (addToPeriod level since before sums document) := by
  refine (ofDocument_failsIn document).bind fun record => ?_
  cases record.time with
  | none => exact .error trivial
  | some time =>
    have hstart : FailsIn Error.OfData (level.start time) := by
      unfold Level.start
      split
      · exact .error trivial
      · split
        · exact .ok _
        · exact .error trivial
    refine hstart.bind fun begun => ?_
    split
    · exact (record.value.toFloat_failsIn valueField).bind fun value => .ok _
    · exact .ok sums

theorem detailPeriod_located (level : Level) (since before : Instant) :
    (counter.detailPeriod ctx level since before : Op υ PeriodSums).FailsIn
      (·.Located counter.group) := by
  have hdocuments : (counter.levelDocuments ctx level "detail_period" >>= fun documents =>
      Op.ofExcept (documents.foldlM (addToPeriod level since before) ∅) :
        Op υ PeriodSums).FailsIn (·.Located counter.group) := by
    refine (counter.levelDocuments_located ctx level (by decide)).bind fun documents => .ofExcept ?_
    exact (FailsIn.foldlM (addToPeriod_failsIn level since before) documents ∅).mono
      fun _ h => h.located _
  refine (counter.group.check_located ctx).bind fun _ => ?_
  exact .guard _ trivial (.guard _ trivial hdocuments)

end Counter

/-! ## Coders and serials -/

theorem ShardGroup.nextCount_failsIn (stored : Option Document) :
    FailsIn Error.OfData (ShardGroup.nextCount stored) := by
  cases stored with
  | none => exact .ok 1
  | some document =>
    exact (document.field_failsIn valueField).bind fun value =>
      (value.toUInt64_failsIn valueField).bind fun count => .ok _

namespace Coder

variable (coder : Coder) (ctx : Context)

theorem pack_failsIn (numShards index : Nat) (count : UInt64) :
    FailsIn Error.OfData (pack numShards index count) := by
  unfold pack
  dsimp only
  split
  · exact .ok _
  · exact .error trivial

theorem numberRead_located :
    (coder.numberRead ctx : TxOp υ PendingNumber).FailsIn (·.Located coder.group) := by
  refine (coder.group.checkRead_located ctx).bind fun _ => (TxOp.FailsIn.pickShard _).bind ?_
  intro index
  refine ((TxOp.get_failsIn _).located (by decide) rfl).bind fun stored => ?_
  have hcount := (ShardGroup.nextCount_failsIn stored).mono fun _ h => h.located coder.group
  refine (TxOp.FailsIn.ofExcept hcount).bind fun count => ?_
  have hnumber := (pack_failsIn coder.group.numShards index count).mono
    fun _ h => h.located coder.group
  exact (TxOp.FailsIn.ofExcept hnumber).bind fun number =>
    TxOp.FailsIn.attempt.bind fun _ => .pure _

theorem numberWrite_failsIn (pending : PendingNumber) :
    (coder.numberWrite ctx pending : TxOp υ UInt64).FailsIn Error.NotStore :=
  (coder.group.checkWrite_failsIn ctx pending.stamp).bind fun _ =>
    (coder.group.writeShard_failsIn _ _ _ _).bind fun _ => .pure _

theorem codeRead_located (width : CodeWidth) :
    (coder.codeRead ctx width : TxOp υ PendingCode).FailsIn (·.Located coder.group) := by
  refine (coder.numberRead_located ctx).bind fun number => ?_
  have hcode : FailsIn Error.OfData (Code.encode number.number width) := by
    unfold Code.encode
    split
    · exact .ok _
    · exact .error trivial
  exact (TxOp.FailsIn.ofExcept (hcode.mono fun _ h => h.located _)).bind fun _ => .pure _

theorem codeWrite_failsIn (pending : PendingCode) (width : CodeWidth) :
    (coder.codeWrite ctx pending width : TxOp υ String).FailsIn Error.NotStore := by
  have hwrite : (discard (coder.numberWrite ctx pending.number) >>= fun _ =>
      pure pending.code : TxOp υ String).FailsIn Error.NotStore :=
    ((coder.numberWrite_failsIn ctx pending.number).map _).bind fun _ => .pure _
  unfold codeWrite
  exact .guard _ (rfl : Error.NotStore (.missingReadPhase _ _)) hwrite

theorem steady_numberWrite (pending : PendingNumber) :
    (coder.numberWrite ctx pending : TxOp υ UInt64).Steady := by
  refine .of_reads fun attempt env => ?_
  rcases coder.numberWrite_cases ctx pending attempt env with ⟨error, hrun⟩ | ⟨hrun, -⟩ <;>
    rw [hrun] <;> exact ⟨rfl, rfl⟩

theorem steady_codeWrite (pending : PendingCode) (width : CodeWidth) :
    (coder.codeWrite ctx pending width : TxOp υ String).Steady := by
  refine .of_reads fun attempt env => ?_
  rcases coder.codeWrite_cases ctx pending width attempt env with ⟨error, hrun⟩ | ⟨hrun, -⟩ <;>
    rw [hrun] <;> exact ⟨rfl, rfl⟩

end Coder

namespace Serial

variable (serial : Serial) (ctx : Context)

theorem numberRead_located :
    (serial.numberRead ctx : TxOp υ PendingSerial).FailsIn (·.Located serial.group) := by
  refine (serial.group.checkRead_located ctx).bind fun _ => ?_
  have hstored : (TxOp.withContext "number_rx" serial.owner serial.key
      (TxOp.get serial.key) : TxOp υ _).FailsIn (·.Located serial.group) :=
    TxOp.FailsIn.located (TxOp.get_failsIn _) (by decide) rfl
  refine hstored.bind fun stored => ?_
  have hnumber := (ShardGroup.nextCount_failsIn stored).mono fun _ h => h.located serial.group
  exact (TxOp.FailsIn.ofExcept hnumber).bind fun number =>
    TxOp.FailsIn.attempt.bind fun _ => .pure _

theorem numberWrite_failsIn (pending : PendingSerial) :
    (serial.numberWrite ctx pending : TxOp υ UInt64).FailsIn Error.NotStore :=
  (serial.group.checkWrite_failsIn ctx pending.stamp).bind fun _ =>
    (serial.group.writeShard_failsIn _ _ _ _).bind fun _ => .pure _

theorem steady_numberWrite (pending : PendingSerial) :
    (serial.numberWrite ctx pending : TxOp υ UInt64).Steady := by
  refine .of_reads fun attempt env => ?_
  rcases serial.numberWrite_cases ctx pending attempt env with ⟨error, hrun⟩ | ⟨hrun, -⟩ <;>
    rw [hrun] <;> exact ⟨rfl, rfl⟩

theorem clear_located : (serial.clear ctx : Op υ Unit).FailsIn (·.Located serial.group) := by
  have hdelete : (Op.transact ctx (TxOp.delete serial.key) : Op υ Unit).FailsIn Error.Bare :=
    .transact ((TxOp.delete_failsIn serial.key).mono fun _ h => h.bare) (fun _ h => h.bare)
      ⟨rfl, rfl, rfl, rfl⟩
  refine (serial.group.check_located ctx).bind fun _ => ?_
  exact Op.FailsIn.located hdelete (by decide) rfl

end Serial

/-! ## All operations of a handle -/

/-- A read phase says where a store error arose. -/
theorem ReadPhase.located (phase : ReadPhase) :
    phase.op.FailsIn (·.Located phase.handle.site.group) := by
  cases phase with
  | increment counter ctx => exact (counter.incrementRead_located ctx).map _
  | number coder ctx => exact (coder.numberRead_located ctx).map _
  | code coder ctx width => exact (coder.codeRead_located ctx width).map _
  | serial source ctx => exact (source.numberRead_located ctx).map _

/-- A write phase gives no store error. -/
theorem WritePhase.failsIn (phase : WritePhase) : phase.op.FailsIn Error.NotStore := by
  cases phase with
  | increment counter ctx pending value =>
    exact (counter.incrementWrite_failsIn ctx pending value).map _
  | number coder ctx pending => exact (coder.numberWrite_failsIn ctx pending).map _
  | code coder ctx pending width => exact (coder.codeWrite_failsIn ctx pending width).map _
  | serial source ctx pending => exact (source.numberWrite_failsIn ctx pending).map _

namespace Errand

/-- The errand is a read phase and a write phase in a transaction of their own. -/
def Reserves : Errand α → Prop
  | .increment .. | .number .. | .code .. | .next .. => True
  | _ => False

variable {errand : Errand α} {ctx : Context} {env : Env Unit}

/-- Errands that do not reserve say where a store error arose. -/
theorem located_of_not_reserves (h : ¬ errand.Reserves) :
    (errand.op ctx).FailsIn (·.Located errand.handle.site.group) := by
  cases errand with
  | increment | number | code | next => exact absurd trivial h
  | countAll counter => exact counter.countAll_located ctx
  | detailPeriod counter level since before =>
    exact counter.detailPeriod_located ctx level since before
  | countPeriod counter level since before =>
    exact (counter.detailPeriod_located ctx level since before).bind fun _ => .pure _
  | clear source => exact source.clear_located ctx
  | delete handle =>
    cases handle with
    | counter counter => exact counter.group.deleteShards_located ctx _
    | coder coder => exact coder.group.deleteShards_located ctx _
    | serial source => exact source.group.deleteShards_located ctx _
  | shardsCount handle => exact handle.site.group.shardsCount_located ctx

/-- An errand that reserves is a transaction, and in an open store it says where a store
error arose. -/
theorem Reserves.transacts (h : errand.Reserves) (ctx : Context) :
    ∃ body, errand.op ctx = Op.transact ctx body ∧ ∀ env : Env Unit, env.store.isOpen = true →
      FailsIn (·.Located errand.handle.site.group) ((Op.transact ctx body).runIn env).1 := by
  cases errand with
  | countAll | detailPeriod | countPeriod | clear | delete | shardsCount => cases h
  | increment counter value =>
    exact ⟨_, rfl, Op.phases_located ctx (counter.readsOnly_incrementRead ctx)
      (counter.incrementRead_located ctx)
      (fun pending => counter.steady_incrementWrite ctx pending value)
      (fun pending => counter.incrementWrite_failsIn ctx pending value)⟩
  | number coder =>
    exact ⟨_, rfl, Op.phases_located ctx (coder.readsOnly_numberRead ctx)
      (coder.numberRead_located ctx) (fun pending => coder.steady_numberWrite ctx pending)
      (fun pending => coder.numberWrite_failsIn ctx pending)⟩
  | code coder width =>
    exact ⟨_, rfl, Op.phases_located ctx (coder.readsOnly_codeRead ctx width)
      (coder.codeRead_located ctx width) (fun pending => coder.steady_codeWrite ctx pending width)
      (fun pending => coder.codeWrite_failsIn ctx pending width)⟩
  | next source =>
    exact ⟨_, rfl, Op.phases_located ctx (source.readsOnly_numberRead ctx)
      (source.numberRead_located ctx) (fun pending => source.steady_numberWrite ctx pending)
      (fun pending => source.numberWrite_failsIn ctx pending)⟩

/-- An errand says where a store error arose, unless it reserves and finds the store
closed and the context not done. -/
theorem located_iff (errand : Errand α) (ctx : Context) (env : Env Unit) :
    FailsIn (·.Located errand.handle.site.group) ((errand.op ctx).runIn env).1 ↔
      ¬ (errand.Reserves ∧ env.store.isOpen = false ∧ ¬ ctx.Done env.flags env.elapsed) := by
  by_cases hreserves : errand.Reserves
  · obtain ⟨body, hop, hlocated⟩ := hreserves.transacts ctx
    rw [hop]
    cases hopen : env.store.isOpen with
    | true => exact iff_of_true (hlocated env hopen) (by simp)
    | false =>
      rcases env.refuses_closed hopen ctx with ⟨hdone, reason, hrefuses⟩ | ⟨hlive, hrefuses⟩
      · rw [hrefuses.transact]
        exact iff_of_true (.error trivial) fun ⟨_, _, hlive⟩ => hlive hdone
      · rw [hrefuses.transact]
        refine iff_of_false (fun hlocated => ?_) (not_not_intro ⟨hreserves, rfl, hlive⟩)
        exact (hlocated _ rfl).1 rfl
  · exact iff_of_true (located_of_not_reserves hreserves env) fun h => hreserves h.1

end Errand

/-- Where the store errors of handles say that they arose: phases always do, and errands
do unless one that reserves finds the store closed. -/
theorem Handle.storeErrors_located (env : Env Unit) :
    (∀ (phase : ReadPhase) (attempt : Attempt),
      FailsIn (·.Located phase.handle.site.group) (phase.op.runIn attempt env).1) ∧
    (∀ (phase : WritePhase) (attempt : Attempt),
      FailsIn (·.Located phase.handle.site.group) (phase.op.runIn attempt env).1) ∧
    ∀ {α : Type} (errand : Errand α) (ctx : Context),
      FailsIn (·.Located errand.handle.site.group) ((errand.op ctx).runIn env).1 ↔
        ¬ (errand.Reserves ∧ env.store.isOpen = false ∧ ¬ ctx.Done env.flags env.elapsed) :=
  ⟨fun phase attempt => phase.located attempt env,
    fun phase attempt => (phase.failsIn attempt env).mono fun _ h => h.located _,
    fun errand ctx => errand.located_iff ctx env⟩

/-- An increment that finds the store closed fails with an error that says nothing. -/
theorem Handle.anonymous_increment :
    let errand : Errand Unit := .increment { group := ⟨"counters", "visit", 1⟩ } 1
    errand.handle.site.group.Usable ∧
      ((errand.op ⟨⟨0, none⟩, []⟩).runIn { store := Store.close {}, user := () }).1 =
        .error (.store "" "" "" "" "store is closed") ∧
      ¬ (Error.store "" "" "" "" "store is closed").Located errand.handle.site.group :=
  ⟨⟨by decide, by decide, by decide⟩, rfl, fun h => h.1 rfl⟩

end Shardwise
