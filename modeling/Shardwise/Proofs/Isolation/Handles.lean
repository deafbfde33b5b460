import Shardwise.Proofs.Isolation.Within
import Shardwise.Proofs.Shards.Coder
import Shardwise.Proofs.Shards.Counter.Tokens
import Shardwise.Proofs.Shards.Serial

/-!
# What handles do

A `Handle` is a counter, a coder or a serial.  `Handle.Reads`, `Handle.Writes` and
`Handle.Offers` list everything that a caller can do with one: its read phases, its
write phases with tokens that were handed out, and its operations outside attempts.
All of them keep to the site of the handle (`Reads.within`, `Writes.within`,
`Offers.within`).

A write phase trusts the keys in its token, so that it keeps to the site only with
tokens of this handle; with others it fails before it writes (`Pending.Placed`).
Read phases come before all writes of an attempt (`Reads.first`).
-/

namespace Shardwise

variable {α β : Type} {looks : Bool}

/-- The documents of the counter. -/
def Counter.site (counter : Counter) : Site := ⟨counter.group, counter.dateHierarchy⟩

/-- The documents of the coder. -/
def Coder.site (coder : Coder) : Site := ⟨coder.group, false⟩

/-- The documents of the serial. -/
def Serial.site (serial : Serial) : Site := ⟨serial.group, false⟩

/-- A counter, a coder or a serial. -/
inductive Handle where
  | counter (counter : Counter)
  | coder (coder : Coder)
  | serial (serial : Serial)

/-- What the read phases of handles leave. -/
inductive Pending where
  | increment (pending : PendingIncrement)
  | number (pending : PendingNumber)
  | code (pending : PendingCode)
  | serial (pending : PendingSerial)

/-- What the write phases of handles return. -/
inductive Receipt where
  | done
  | number (number : UInt64)
  | code (code : String)

namespace Handle

/-- The documents of the handle. -/
def site : Handle → Site
  | .counter c => c.site
  | .coder c => c.site
  | .serial s => s.site

/-- The read phases of the handle. -/
inductive Reads : Handle → TxOp Unit Pending → Prop
  | increment (counter : Counter) (ctx : Context) :
      Reads (.counter counter) (.increment <$> counter.incrementRead ctx)
  | number (coder : Coder) (ctx : Context) :
      Reads (.coder coder) (.number <$> coder.numberRead ctx)
  | code (coder : Coder) (ctx : Context) (width : CodeWidth) :
      Reads (.coder coder) (.code <$> coder.codeRead ctx width)
  | serial (serial : Serial) (ctx : Context) :
      Reads (.serial serial) (.serial <$> serial.numberRead ctx)

/-- The write phases of the handle with one of some tokens. -/
inductive Writes (tokens : List Pending) : Handle → TxOp Unit Receipt → Prop
  | increment (counter : Counter) (ctx : Context) {pending : PendingIncrement}
      (h : .increment pending ∈ tokens) (value : Int64) :
      Writes tokens (.counter counter)
        ((fun _ => .done) <$> counter.incrementWrite ctx pending value)
  | number (coder : Coder) (ctx : Context) {pending : PendingNumber}
      (h : .number pending ∈ tokens) :
      Writes tokens (.coder coder) (.number <$> coder.numberWrite ctx pending)
  | code (coder : Coder) (ctx : Context) {pending : PendingCode} (h : .code pending ∈ tokens)
      (width : CodeWidth) :
      Writes tokens (.coder coder) (.code <$> coder.codeWrite ctx pending width)
  | serial (serial : Serial) (ctx : Context) {pending : PendingSerial}
      (h : .serial pending ∈ tokens) :
      Writes tokens (.serial serial) (.number <$> serial.numberWrite ctx pending)

/-- The operations of the handle outside attempts. -/
inductive Offers : Handle → {α : Type} → Op Unit α → Prop
  | increment (counter : Counter) (ctx : Context) (value : Int64) :
      Offers (.counter counter) (counter.increment ctx value)
  | countAll (counter : Counter) (ctx : Context) :
      Offers (.counter counter) (counter.countAll ctx)
  | detailPeriod (counter : Counter) (ctx : Context) (level : Level) (since before : Instant) :
      Offers (.counter counter) (counter.detailPeriod ctx level since before)
  | countPeriod (counter : Counter) (ctx : Context) (level : Level) (since before : Instant) :
      Offers (.counter counter) (counter.countPeriod ctx level since before)
  | deleteCounter (counter : Counter) (ctx : Context) :
      Offers (.counter counter) (counter.delete ctx)
  | number (coder : Coder) (ctx : Context) : Offers (.coder coder) (coder.number ctx)
  | code (coder : Coder) (ctx : Context) (width : CodeWidth) :
      Offers (.coder coder) (coder.code ctx width)
  | deleteCoder (coder : Coder) (ctx : Context) : Offers (.coder coder) (coder.delete ctx)
  | next (serial : Serial) (ctx : Context) : Offers (.serial serial) (serial.next ctx)
  | clear (serial : Serial) (ctx : Context) : Offers (.serial serial) (serial.clear ctx)
  | deleteSerial (serial : Serial) (ctx : Context) : Offers (.serial serial) (serial.delete ctx)
  | shardsCount (handle : Handle) (ctx : Context) :
      Offers handle (handle.site.group.shardsCount ctx)

end Handle

/-! ## Parts of operations -/

namespace ShardGroup

theorem aside_check (group : ShardGroup) (ctx : Context) :
    (group.check ctx : Op Unit Unit).Aside := by
  unfold check
  cases group.problem? with
  | none => exact .check ctx
  | some problem => exact .ofExcept (.error _)

theorem aside_checkRead (group : ShardGroup) (ctx : Context) :
    (group.checkRead ctx : TxOp Unit Unit).Aside := by
  refine .bind (.ofOp (group.aside_check ctx)) fun _ => ?_
  refine .attempt_bind (fun _ => .ofExcept _) fun attempt other _ hstatus => ?_
  unfold ensureInTransaction Attempt.isActive
  rw [hstatus]

theorem aside_checkWrite (group : ShardGroup) (ctx : Context) (stamp : Stamp) :
    (group.checkWrite ctx stamp : TxOp Unit Unit).Aside := by
  refine .bind (group.aside_checkRead ctx) fun _ => ?_
  refine .attempt_bind (fun _ => .ofExcept _) fun attempt other hid _ => ?_
  unfold verify
  rw [hid]

end ShardGroup

namespace TxOp.Within

/-- A write phase goes on only with the stamp of its site. -/
theorem checked {site : Site} (ctx : Context) (stamp : Stamp) {next : Unit → TxOp Unit α}
    (h : (stamp.collection, stamp.owner) = site.identity → (next ()).Within site looks) :
    (site.group.checkWrite ctx stamp >>= next).Within site looks := by
  refine .bind (.aside (site.group.aside_checkWrite ctx stamp)) fun attempt env _ hok => h ?_
  rcases site.group.checkWrite_cases ctx stamp attempt env with ⟨error, hrun⟩ | ⟨-, -, rfl⟩
  · rw [hrun] at hok
    cases hok
  · rfl

end TxOp.Within

/-! ## Tokens -/

namespace Pending

def stamp : Pending → Stamp
  | .increment pending => pending.stamp
  | .number pending | .code ⟨pending, _, _⟩ => pending.stamp
  | .serial pending => pending.stamp

/-- The keys that the write phase takes from the token. -/
def keys : Pending → List DocKey
  | .increment pending => pending.shards.map LevelShard.key
  | .number pending | .code ⟨pending, _, _⟩ => [pending.key]
  | .serial _ => []

/-- The token is that of another handle, or its keys are those of shards. -/
def Placed (site : Site) (token : Pending) : Prop :=
  (token.stamp.collection, token.stamp.owner) = site.identity → ∀ key ∈ token.keys, site.Owns key

/-- A read phase of the handle left the token. -/
structure IssuedBy (site : Site) (token : Pending) : Prop where
  identity : (token.stamp.collection, token.stamp.owner) = site.identity
  owns : ∀ key ∈ token.keys, site.Owns key

variable {site other : Site} {token : Pending}

theorem IssuedBy.placed (h : token.IssuedBy site) : token.Placed site := fun _ => h.owns

theorem IssuedBy.placed_other (h : token.IssuedBy site) (hdiff : site.identity ≠ other.identity) :
    token.Placed other := fun hsame => absurd (h.identity.symm.trans hsame) hdiff

end Pending

/-! ## Counters -/

namespace Counter

theorem owns_levelKey {counter : Counter} {level : Level}
    (h : level = .total ∨ counter.dateHierarchy = true) (time : Instant) (index : Nat) :
    counter.site.Owns (counter.levelKey level time index) :=
  ⟨level, time, index, h, rfl⟩

theorem within_look {counter : Counter} (ctx : Context) (found : Bool) {key : DocKey}
    (h : counter.site.Owns key) : (counter.look ctx found key).Within counter.site true := by
  cases found with
  | true => exact .pure _ _ true
  | false =>
    refine .bind (.aside (.ofOp (.check ctx))) fun _ _ _ _ => ?_
    exact .bind (.withContext _ _ _ (.get rfl h)) fun _ _ _ _ => .pure _ _ _

theorem within_probe {counter : Counter} (ctx : Context) (time : Instant) (index : Nat)
    (found : Bool) {levels : List Level}
    (h : ∀ level ∈ levels, level = .total ∨ counter.dateHierarchy = true) :
    (counter.probe ctx time index found levels).Within counter.site true := by
  induction levels generalizing found with
  | nil => exact .pure _ _ []
  | cons level coarser ih =>
    rw [List.forall_mem_cons] at h
    rw [probe_cons]
    refine .bind (within_look ctx found (owns_levelKey h.1 time index)) fun _ _ present _ => ?_
    exact (ih present h.2).map _

theorem within_probeAll (counter : Counter) (ctx : Context) (time : Instant) (index : Nat) :
    (counter.probeAll ctx time index).Within counter.site true := by
  have hdated : ∀ level ∈ (if counter.dateHierarchy then Level.datedFinestFirst else []),
      level = .total ∨ counter.dateHierarchy = true := by
    cases hhierarchy : counter.dateHierarchy with
    | false => exact fun _ hlevel => absurd hlevel List.not_mem_nil
    | true => exact fun _ _ => .inr rfl
  rw [probeAll_eq]
  refine .bind (within_probe ctx time index false hdated) fun _ _ dated _ => ?_
  exact (within_probe ctx time index _
    fun level hlevel => .inl (List.mem_singleton.mp hlevel)).map _

theorem aside_now (counter : Counter) : (counter.now : TxOp Unit Instant).Aside := by
  intro attempt other env store _ _
  rw [runIn_now, runIn_now]
  rfl

theorem within_incrementRead (counter : Counter) (ctx : Context) :
    (counter.incrementRead ctx).Within counter.site true := by
  refine .bind (.aside (counter.group.aside_checkRead ctx)) fun _ _ _ _ => ?_
  refine .bind (.aside (.pickShard _)) fun _ _ index _ => ?_
  refine .bind (.aside counter.aside_now) fun _ _ time _ => ?_
  refine .bind (counter.within_probeAll ctx time index) fun _ _ shards _ => ?_
  refine .aside (.attempt_bind (fun _ => .ofExcept (.ok _)) fun attempt other hid _ => ?_)
  simp only [ShardGroup.stamp, hid]

/-- The first level is looked at. -/
theorem probe_first (counter : Counter) (ctx : Context) (time : Instant) (index : Nat)
    (level : Level) (coarser : List Level) :
    (counter.probe ctx time index false (level :: coarser) : TxOp Unit _).ReadsFirst := by
  rw [probe_cons]
  refine .bind (.aside_bind (.ofOp (.check ctx)) fun _ => ?_) _
  exact ((TxOp.ReadsFirst.get _).withContext _ _ _).bind _

theorem incrementRead_first (counter : Counter) (ctx : Context) :
    (counter.incrementRead ctx : TxOp Unit PendingIncrement).ReadsFirst := by
  refine .aside_bind (counter.group.aside_checkRead ctx) fun _ => ?_
  refine .aside_bind (.pickShard _) fun index => .aside_bind counter.aside_now fun time => ?_
  refine .bind ?_ _
  unfold probeAll
  cases counter.dateHierarchy with
  | true => exact (counter.probe_first ctx time index _ _).bind _
  | false => exact (counter.probe_first ctx time index .total []).bind _

theorem issued_of_incrementRead {counter : Counter} {ctx : Context} {attempt : Attempt}
    {env : Env Unit} {pending : PendingIncrement}
    (h : ((counter.incrementRead ctx).runIn attempt env).1 = .ok pending) :
    (Pending.increment pending).IssuedBy counter.site := by
  rcases hrun : (counter.incrementRead ctx).runIn attempt env with ⟨outcome, later, left⟩
  rw [hrun] at h
  obtain rfl : outcome = .ok pending := h
  obtain ⟨hstamp, -⟩ := incrementRead_eq_ok hrun
  obtain ⟨-, -, hshards⟩ := incrementRead_eq hrun
  refine ⟨by rw [Pending.stamp, hstamp]; rfl, fun key hkey => ?_⟩
  obtain ⟨shard, hshard, rfl⟩ := List.mem_map.mp hkey
  have hplaces := counter.map_observe env.store.table pending.time pending.index
  rw [← hshards] at hplaces
  obtain ⟨hlevel, hkey⟩ := of_places hplaces hshard
  rw [hkey]
  refine owns_levelKey ?_ pending.time pending.index
  cases hhierarchy : counter.dateHierarchy with
  | true => exact .inr rfl
  | false =>
    rw [hhierarchy] at hlevel
    exact .inl (List.mem_singleton.mp hlevel)

theorem within_incrementWrite {counter : Counter} (ctx : Context) {pending : PendingIncrement}
    (h : (Pending.increment pending).Placed counter.site) (value : Int64) :
    (counter.incrementWrite ctx pending value).Within counter.site looks := by
  refine .checked ctx pending.stamp fun hidentity => ?_
  have hwrites : (pending.shards.forM (counter.writeLevel pending.time value)).Within
      counter.site looks :=
    .forM fun shard hshard =>
      .writeShard (h hidentity shard.key (List.mem_map_of_mem hshard)) _ _ rfl
  exact .guard _ _ hwrites

theorem within_increment (counter : Counter) (ctx : Context) (value : Int64) :
    (counter.increment ctx value).Within counter.site := by
  refine .transact ctx (.bind (counter.within_incrementRead ctx) fun _ _ pending hpending => ?_)
  exact within_incrementWrite ctx (issued_of_incrementRead hpending).placed value

theorem within_levelDocuments (counter : Counter) (ctx : Context) (level : Level)
    (operation : String) : (counter.levelDocuments ctx level operation).Within counter.site :=
  .bind (.owned ctx operation) fun _ _ _ _ => .pure _ _

theorem within_countAll (counter : Counter) (ctx : Context) :
    (counter.countAll ctx).Within counter.site := by
  refine .bind (.aside (counter.group.aside_check ctx)) fun _ _ _ _ => ?_
  refine .bind (counter.within_levelDocuments ctx .total "count_all") fun _ documents _ _ => ?_
  exact .aside (.ofExcept (sumValues documents))

theorem within_detailPeriod (counter : Counter) (ctx : Context) (level : Level)
    (since before : Instant) :
    (counter.detailPeriod ctx level since before).Within counter.site := by
  have hdocuments : (counter.levelDocuments ctx level "detail_period" >>= fun documents =>
      Op.ofExcept (documents.foldlM (addToPeriod level since before) ∅)).Within counter.site :=
    .bind (counter.within_levelDocuments ctx level "detail_period") fun _ _ _ _ =>
      .aside (.ofExcept _)
  refine .bind (.aside (counter.group.aside_check ctx)) fun _ _ _ _ => ?_
  exact .guard _ _ (.guard _ _ hdocuments)

end Counter

/-! ## Coders and serials -/

namespace Coder

theorem within_numberRead (coder : Coder) (ctx : Context) :
    (coder.numberRead ctx).Within coder.site true := by
  refine .bind (.aside (coder.group.aside_checkRead ctx)) fun _ _ _ _ => ?_
  refine .bind (.aside (.pickShard _)) fun _ _ index _ => ?_
  refine .bind (.withContext _ _ _ (.get rfl (coder.site.owns_plainKey index))) fun _ _ _ _ => ?_
  refine .bind (.aside (.ofExcept _)) fun _ _ _ _ => .bind (.aside (.ofExcept _)) fun _ _ _ _ => ?_
  refine .aside (.attempt_bind (fun _ => .ofExcept (.ok _)) fun attempt other hid _ => ?_)
  simp only [ShardGroup.stamp, hid]

theorem numberRead_first (coder : Coder) (ctx : Context) :
    (coder.numberRead ctx : TxOp Unit PendingNumber).ReadsFirst := by
  refine .aside_bind (coder.group.aside_checkRead ctx) fun _ => ?_
  refine .aside_bind (.pickShard _) fun index => ?_
  exact ((TxOp.ReadsFirst.get _).withContext _ _ _).bind _

theorem within_codeRead (coder : Coder) (ctx : Context) (width : CodeWidth) :
    (coder.codeRead ctx width).Within coder.site true :=
  .bind (coder.within_numberRead ctx) fun _ _ _ _ =>
    .bind (.aside (.ofExcept _)) fun _ _ _ _ => .pure _ _ _

theorem issued_of_numberRead {coder : Coder} {ctx : Context} {attempt : Attempt}
    {env : Env Unit} {pending : PendingNumber}
    (h : ((coder.numberRead ctx).runIn attempt env).1 = .ok pending) :
    (Pending.number pending).IssuedBy coder.site := by
  rcases hrun : (coder.numberRead ctx).runIn attempt env with ⟨outcome, later, left⟩
  rw [hrun] at h
  obtain rfl : outcome = .ok pending := h
  obtain ⟨hstamp, ⟨-, hkey, -⟩, -⟩ := numberRead_eq_ok hrun
  refine ⟨by rw [Pending.stamp, hstamp]; rfl, List.forall_mem_singleton.mpr ?_⟩
  rw [hkey]
  exact coder.site.owns_plainKey pending.index

theorem issued_of_codeRead {coder : Coder} {ctx : Context} {width : CodeWidth} {attempt : Attempt}
    {env : Env Unit} {pending : PendingCode}
    (h : ((coder.codeRead ctx width).runIn attempt env).1 = .ok pending) :
    (Pending.code pending).IssuedBy coder.site := by
  rcases hrun : (coder.codeRead ctx width).runIn attempt env with ⟨outcome, later, left⟩
  rw [hrun] at h
  obtain rfl : outcome = .ok pending := h
  obtain ⟨hidentity, howns⟩ := issued_of_numberRead (congrArg Prod.fst (codeRead_eq_ok hrun).1)
  exact ⟨hidentity, howns⟩

theorem within_numberWrite {coder : Coder} (ctx : Context) {pending : PendingNumber}
    (h : (Pending.number pending).Placed coder.site) :
    (coder.numberWrite ctx pending).Within coder.site looks :=
  .checked ctx pending.stamp fun hidentity =>
    .bind (.writeShard (h hidentity _ List.mem_cons_self) _ _ rfl) fun _ _ _ _ => .pure _ _ _

theorem within_codeWrite {coder : Coder} (ctx : Context) {pending : PendingCode}
    (h : (Pending.code pending).Placed coder.site) (width : CodeWidth) :
    (coder.codeWrite ctx pending width).Within coder.site looks := by
  have hwrite : (discard (coder.numberWrite ctx pending.number) >>= fun _ =>
      pure pending.code).Within coder.site looks :=
    .bind ((within_numberWrite ctx h).map _) fun _ _ _ _ => .pure _ _ _
  unfold codeWrite
  exact .guard _ _ hwrite

theorem within_number (coder : Coder) (ctx : Context) : (coder.number ctx).Within coder.site :=
  .transact ctx (.bind (coder.within_numberRead ctx) fun _ _ _ hpending =>
    within_numberWrite ctx (issued_of_numberRead hpending).placed)

theorem within_code (coder : Coder) (ctx : Context) (width : CodeWidth) :
    (coder.code ctx width).Within coder.site :=
  .transact ctx (.bind (coder.within_codeRead ctx width) fun _ _ _ hpending =>
    within_codeWrite ctx (issued_of_codeRead hpending).placed width)

end Coder

namespace Serial

theorem within_numberRead (serial : Serial) (ctx : Context) :
    (serial.numberRead ctx).Within serial.site true := by
  refine .bind (.aside (serial.group.aside_checkRead ctx)) fun _ _ _ _ => ?_
  refine .bind (.withContext _ _ _ (.get rfl (serial.site.owns_plainKey 0))) fun _ _ _ _ => ?_
  refine .bind (.aside (.ofExcept _)) fun _ _ _ _ => ?_
  refine .aside (.attempt_bind (fun _ => .ofExcept (.ok _)) fun attempt other hid _ => ?_)
  simp only [ShardGroup.stamp, hid]

theorem numberRead_first (serial : Serial) (ctx : Context) :
    (serial.numberRead ctx : TxOp Unit PendingSerial).ReadsFirst := by
  refine .aside_bind (serial.group.aside_checkRead ctx) fun _ => ?_
  exact ((TxOp.ReadsFirst.get _).withContext _ _ _).bind _

theorem issued_of_numberRead {serial : Serial} {ctx : Context} {attempt : Attempt}
    {env : Env Unit} {pending : PendingSerial}
    (h : ((serial.numberRead ctx).runIn attempt env).1 = .ok pending) :
    (Pending.serial pending).IssuedBy serial.site := by
  rcases hrun : (serial.numberRead ctx).runIn attempt env with ⟨outcome, later, left⟩
  rw [hrun] at h
  obtain rfl : outcome = .ok pending := h
  obtain ⟨hstamp, -⟩ := numberRead_eq_ok hrun
  exact ⟨by rw [Pending.stamp, hstamp]; rfl, fun _ hkey => absurd hkey List.not_mem_nil⟩

theorem within_numberWrite (serial : Serial) (ctx : Context) (pending : PendingSerial) :
    (serial.numberWrite ctx pending).Within serial.site looks :=
  .checked ctx pending.stamp fun _ =>
    .bind (.writeShard (serial.site.owns_plainKey 0) _ _ rfl) fun _ _ _ _ => .pure _ _ _

theorem within_next (serial : Serial) (ctx : Context) : (serial.next ctx).Within serial.site :=
  .transact ctx (.bind (serial.within_numberRead ctx) fun _ _ pending _ =>
    serial.within_numberWrite ctx pending)

theorem within_clear (serial : Serial) (ctx : Context) : (serial.clear ctx).Within serial.site :=
  .bind (.aside (serial.group.aside_check ctx)) fun _ _ _ _ =>
    .withContext _ _ _ (.transact ctx (.delete (serial.site.owns_plainKey 0)))

end Serial

/-! ## Bulk operations -/

namespace Site

theorem within_shardsCount (site : Site) (ctx : Context) :
    (site.group.shardsCount ctx).Within site :=
  .bind (.aside (site.group.aside_check ctx)) fun _ _ _ _ =>
    .bind (.owned ctx _) fun _ _ _ _ => .pure _ _

/-- What a query by owner finds are shards. -/
theorem owns_of_owned {site : Site} {ctx : Context} {operation : String} {env : Env Unit}
    {found : List (DocKey × Document)} (hhoused : site.Housed env.store.table)
    (h : ((site.group.owned ctx operation).runIn env).1 = .ok found) :
    ∀ entry ∈ found, site.Owns entry.1 := by
  rcases site.group.owned_cases ctx operation env with ⟨error, hrun⟩ | hrun
  · rw [hrun] at h
    cases h
  · rw [hrun] at h
    cases h
    rintro ⟨key, document⟩ hentry
    obtain ⟨hdocument, hcollection, hnames⟩ := Table.mem_scan.mp hentry
    exact hhoused key ⟨hcollection, document, hdocument, hnames⟩

theorem within_deleteRounds (site : Site) (ctx : Context) (rounds : Nat) :
    (site.group.deleteRounds ctx rounds).Within site := by
  induction rounds with
  | zero => exact .bind (.owned ctx _) fun _ _ _ _ => .pure _ _
  | succ rounds ih =>
    refine .bind (.owned ctx _) fun env found hhoused hfound => ?_
    have howns := owns_of_owned hhoused hfound
    cases htake : found.take (site.group.numShards + 1) with
    | nil => exact .pure _ true
    | cons entry more =>
      refine .bind (.withContext _ _ _ (.transact ctx (.forM fun key hkey => .delete ?_)))
        fun _ _ _ _ => ih
      obtain ⟨other, hother, rfl⟩ := List.mem_map.mp hkey
      exact howns other (List.mem_of_mem_take (htake ▸ hother))

theorem within_deleteShards (site : Site) (ctx : Context) (rounds : Nat) :
    (site.group.deleteShards ctx rounds).Within site :=
  .bind (.aside (site.group.aside_check ctx)) fun _ _ _ _ => site.within_deleteRounds ctx rounds

end Site

/-! ## All operations of a handle -/

namespace Handle

variable {handle : Handle}

theorem Reads.within {phase : TxOp Unit Pending} (h : handle.Reads phase) :
    phase.Within handle.site true := by
  cases h with
  | increment counter ctx => exact (counter.within_incrementRead ctx).map _
  | number coder ctx => exact (coder.within_numberRead ctx).map _
  | code coder ctx width => exact (coder.within_codeRead ctx width).map _
  | serial serial ctx => exact (serial.within_numberRead ctx).map _

/-- Read phases fail in an attempt that holds writes. -/
theorem Reads.first {phase : TxOp Unit Pending} (h : handle.Reads phase) : phase.ReadsFirst := by
  cases h with
  | increment counter ctx => exact (counter.incrementRead_first ctx).map _
  | number coder ctx => exact (coder.numberRead_first ctx).map _
  | code coder ctx width => exact ((coder.numberRead_first ctx).bind _).map _
  | serial serial ctx => exact (serial.numberRead_first ctx).map _

theorem Reads.issued {phase : TxOp Unit Pending} (h : handle.Reads phase) {attempt : Attempt}
    {env : Env Unit} {token : Pending} (hrun : (phase.runIn attempt env).1 = .ok token) :
    token.IssuedBy handle.site := by
  cases h with
  | increment counter ctx =>
    obtain ⟨pending, hpending, rfl⟩ := TxOp.exists_of_map_eq_ok hrun
    exact Counter.issued_of_incrementRead hpending
  | number coder ctx =>
    obtain ⟨pending, hpending, rfl⟩ := TxOp.exists_of_map_eq_ok hrun
    exact Coder.issued_of_numberRead hpending
  | code coder ctx width =>
    obtain ⟨pending, hpending, rfl⟩ := TxOp.exists_of_map_eq_ok hrun
    exact Coder.issued_of_codeRead hpending
  | serial serial ctx =>
    obtain ⟨pending, hpending, rfl⟩ := TxOp.exists_of_map_eq_ok hrun
    exact Serial.issued_of_numberRead hpending

theorem Writes.within {tokens : List Pending} {phase : TxOp Unit Receipt}
    (h : handle.Writes tokens phase) (htokens : ∀ token ∈ tokens, token.Placed handle.site) :
    phase.Within handle.site looks := by
  cases h with
  | increment counter ctx hpending value =>
    exact (Counter.within_incrementWrite ctx (htokens _ hpending) value).map _
  | number coder ctx hpending => exact (Coder.within_numberWrite ctx (htokens _ hpending)).map _
  | code coder ctx hpending width =>
    exact (Coder.within_codeWrite ctx (htokens _ hpending) width).map _
  | serial serial ctx hpending => exact (serial.within_numberWrite ctx _).map _

theorem Offers.within {op : Op Unit α} (h : handle.Offers op) : op.Within handle.site := by
  cases h with
  | increment counter ctx value => exact counter.within_increment ctx value
  | countAll counter ctx => exact counter.within_countAll ctx
  | detailPeriod counter ctx level since before =>
    exact counter.within_detailPeriod ctx level since before
  | countPeriod counter ctx level since before =>
    exact .bind (counter.within_detailPeriod ctx level since before) fun _ _ _ _ => .pure _ _
  | deleteCounter counter ctx => exact counter.site.within_deleteShards ctx _
  | number coder ctx => exact coder.within_number ctx
  | code coder ctx width => exact coder.within_code ctx width
  | deleteCoder coder ctx => exact coder.site.within_deleteShards ctx _
  | next serial ctx => exact serial.within_next ctx
  | clear serial ctx => exact serial.within_clear ctx
  | deleteSerial serial ctx => exact serial.site.within_deleteShards ctx _
  | shardsCount handle ctx => exact handle.site.within_shardsCount ctx

end Handle

end Shardwise
