import Shardwise.Proofs.Session.Alone
import Shardwise.Proofs.Shards.Phases

/-!
# The removal of a group

The documents of a group are removed batch by batch, in the order of their keys, and
a removal may end before all are gone.  What it removed then are the documents
before some key.

* `ShardGroup.Finds` are the documents that queries by owner find; only these are
  removed.
* `ShardGroup.Swept` is a table after some batches.  `ShardGroup.deleteShards_swept`
  says that every removal leaves one, and that none of the documents is left when it
  returns that it is done.
-/

namespace Shardwise

/-- A scan goes through the keys in their order. -/
theorem Table.sorted_scan (table : Table) (collection field : String) (value : Value) :
    ((table.scan collection field value).map Prod.fst).Pairwise (compare · · = .lt) := by
  have hsorted : (table.toList.map Prod.fst).Pairwise (compare · · = .lt) := by
    rw [toList, Std.ExtTreeMap.map_fst_toList_eq_keys]
    exact Std.ExtTreeMap.ordered_keys
  rw [scan, List.map_map]
  exact hsorted.sublist (List.filter_sublist.map _)

/-- Lists in the strict order of their keys are known by their members. -/
theorem eq_of_sorted {γ : Type} {f : γ → DocKey} {xs ys : List γ}
    (hxs : (xs.map f).Pairwise (compare · · = .lt))
    (hys : (ys.map f).Pairwise (compare · · = .lt)) (h : ∀ x, x ∈ xs ↔ x ∈ ys) : xs = ys := by
  rw [List.pairwise_map] at hxs hys
  have hnodup : ∀ {zs : List γ}, zs.Pairwise (fun x y => compare (f x) (f y) = .lt) →
      zs.Nodup := by
    intro zs hzs
    refine hzs.imp fun hlt heq => ?_
    rw [heq, Std.compare_self] at hlt
    cases hlt
  refine ((List.perm_ext_iff_of_nodup (hnodup hxs) (hnodup hys)).mpr h).eq_of_pairwise ?_ hxs hys
  intro x y _ _ hlt hgt
  exact absurd hgt (Std.OrientedCmp.not_lt_of_lt hlt)

/-- What comes before a key of the front of a sorted list is in the front as well. -/
theorem mem_take_of_lt {keys : List DocKey} (hsorted : keys.Pairwise (compare · · = .lt))
    {n : Nat} {key other : DocKey} (hkey : key ∈ keys.take n) (hother : other ∈ keys)
    (hlt : compare other key = .lt) : other ∈ keys.take n := by
  rw [← List.take_append_drop n keys] at hsorted hother
  rcases List.mem_append.mp hother with hfront | hback
  · exact hfront
  · have hgt := (List.pairwise_append.mp hsorted).2.2 key hkey other hback
    exact absurd hgt (Std.OrientedCmp.not_lt_of_lt hlt)

/-! ## Removing some documents -/

namespace TxOp

variable {υ : Type}

/-- Removals inside an attempt that takes operations. -/
theorem runIn_deleteAll (keys : List DocKey) {attempt : Attempt}
    (hactive : attempt.status = .active) (env : Env υ) :
    (keys.forM TxOp.delete : TxOp υ Unit).runIn attempt env =
      (.ok (), { attempt with writes := attempt.writes ++ keys.map (·, .delete) }, env) := by
  induction keys generalizing attempt with
  | nil => simp [List.forM_nil]
  | cons key keys ih =>
    show (TxOp.delete key >>= fun _ => keys.forM TxOp.delete).runIn attempt env = _
    rw [runIn_bind, delete, runIn_change, Attempt.delete, Attempt.buffer_active hactive]
    have hrest := ih (show { attempt with
      writes := attempt.writes ++ [(key, Write.delete)] }.status = .active from hactive)
    refine hrest.trans ?_
    simp

theorem steady_delete (key : DocKey) : (TxOp.delete key : TxOp υ Unit).Steady := by
  refine .of_reads fun attempt env => ?_
  rw [delete, runIn_change]
  cases hbuffer : attempt.delete key with
  | error error => exact ⟨rfl, rfl⟩
  | ok later =>
    obtain ⟨-, rfl⟩ := Attempt.buffer_eq_ok hbuffer
    exact ⟨rfl, rfl⟩

theorem steady_deleteAll (keys : List DocKey) :
    (keys.forM TxOp.delete : TxOp υ Unit).Steady := by
  induction keys with
  | nil => exact (ReadsOnly.pure ()).steady
  | cons key keys ih => exact (steady_delete key).bind fun _ => ih

end TxOp

/-- A document to which several removals apply is gone. -/
theorem foldlM_delete {writes : List Write} (h : ∀ write ∈ writes, write = .delete)
    (hsome : writes ≠ []) (current : Option Document) :
    writes.foldlM Database.applyWrite current = .ok none := by
  induction writes generalizing current with
  | nil => exact absurd rfl hsome
  | cons write writes ih =>
    rw [List.forall_mem_cons] at h
    rw [List.foldlM_cons, h.1]
    cases writes with
    | nil => rfl
    | cons next more => exact ih h.2 (List.cons_ne_nil _ _) none

/-- A commit of removals. -/
theorem Database.Commits.get?_deleteAll {db left : Database} {attempt : Attempt}
    {keys : List DocKey} (h : db.Commits attempt left)
    (hwrites : attempt.writes = keys.map (·, .delete)) (key : DocKey) :
    left.table.get? key = if key ∈ keys then none else db.table.get? key := by
  have hon : writesOn key attempt.writes = (keys.filter (· = key)).map fun _ => .delete := by
    rw [hwrites]
    simp [writesOn, List.filter_map, Function.comp_def]
  by_cases hkey : key ∈ keys
  · have happlied := h.applied key
    rw [if_pos hkey, ← Table.document?_eq_none]
    rw [hon, foldlM_delete (by simp) (by simpa using hkey)] at happlied
    exact (Except.ok.inj happlied).symm
  · rw [if_neg hkey]
    refine h.kept key ?_
    rw [hon, List.map_eq_nil_iff, List.filter_eq_nil_iff]
    rintro other hother
    rw [decide_eq_true_eq]
    rintro rfl
    exact hkey hother

/-- A transaction that removed some documents. -/
theorem Op.Committed.deleteAll {keys : List DocKey} {env left : Env Unit}
    (h : Op.Committed (keys.forM TxOp.delete) env () left) (key : DocKey) :
    left.store.table.get? key = if key ∈ keys then none else env.store.table.get? key := by
  obtain ⟨store, later, between, htable, hrun, hcommits⟩ := h.commits
  rw [TxOp.runIn_deleteAll keys rfl] at hrun
  cases hrun
  rw [← htable]
  exact hcommits.get?_deleteAll (List.nil_append _) key

namespace ShardGroup

/-! ## Batches -/

/-- The document of the key is one that queries by owner find. -/
def Finds (group : ShardGroup) (table : Table) (key : DocKey) : Prop :=
  key.collection = group.collection ∧
    ∃ document, table.document? key = some document ∧ document.names group.owner = true

/-- The keys that queries by owner find. -/
def ownedKeys (group : ShardGroup) (table : Table) : List DocKey :=
  (table.scan group.collection ownerField (.text group.owner)).map Prod.fst

theorem mem_ownedKeys {group : ShardGroup} {table : Table} {key : DocKey} :
    key ∈ group.ownedKeys table ↔ group.Finds table key := by
  rw [ownedKeys, List.mem_map]
  constructor
  · rintro ⟨⟨_, document⟩, hmem, rfl⟩
    obtain ⟨hdocument, hcollection, hnames⟩ := Table.mem_scan.mp hmem
    exact ⟨hcollection, document, hdocument, hnames⟩
  · rintro ⟨hcollection, document, hdocument, hnames⟩
    exact ⟨(key, document), Table.mem_scan.mpr ⟨hdocument, hcollection, hnames⟩, rfl⟩

/-- Some of the documents that queries by owner find were removed, in the order of
their keys. -/
structure Swept (group : ShardGroup) (table left : Table) : Prop where
  entry : ∀ key, left.get? key = table.get? key ∨ left.get? key = none ∧ group.Finds table key
  order : ∀ key other, group.Finds table key → group.Finds table other →
    compare other key = .lt → left.get? key = none → left.get? other = none

theorem Finds.congr {group : ShardGroup} {table left : Table} {key : DocKey}
    (h : left.get? key = table.get? key) : group.Finds left key ↔ group.Finds table key := by
  simp only [Finds, Table.document?, h]

theorem Finds.get? {group : ShardGroup} {table : Table} {key : DocKey}
    (h : group.Finds table key) : table.get? key ≠ none := by
  obtain ⟨-, document, hdocument, -⟩ := h
  intro hnone
  rw [Table.document?_eq_none.mpr hnone] at hdocument
  cases hdocument

/-- The number of shards does not matter. -/
theorem finds_eq {group other : ShardGroup} (hcollection : other.collection = group.collection)
    (howner : other.owner = group.owner) : other.Finds = group.Finds := by
  funext table key
  simp only [Finds, hcollection, howner]

namespace Swept

variable {group : ShardGroup} {table midway left : Table}

theorem of_finds_eq {other : ShardGroup} (h : other.Swept table left)
    (hfinds : other.Finds = group.Finds) : group.Swept table left :=
  ⟨hfinds ▸ h.entry, hfinds ▸ h.order⟩

theorem of_eq (h : left = table) : group.Swept table left := by
  subst h
  refine ⟨fun key => .inl rfl, fun key other hkey _ _ hnone => absurd hnone hkey.get?⟩

theorem trans (h : group.Swept table midway) (h' : group.Swept midway left) :
    group.Swept table left := by
  have hgone : ∀ key, midway.get? key = none → left.get? key = none := by
    intro key hnone
    rcases h'.entry key with hkept | ⟨hgone, -⟩
    · exact hkept.trans hnone
    · exact hgone
  refine ⟨fun key => ?_, fun key other hkey hother hlt hnone => ?_⟩
  · rcases h.entry key with hkept | ⟨hnone, hfinds⟩
    · rcases h'.entry key with hkept' | ⟨hnone, hfinds⟩
      · exact .inl (hkept'.trans hkept)
      · exact .inr ⟨hnone, (Finds.congr hkept).mp hfinds⟩
    · exact .inr ⟨hgone key hnone, hfinds⟩
  · rcases h.entry key with hkept | ⟨hmidway, -⟩
    · rcases h.entry other with hkept' | ⟨hmidway, -⟩
      · exact h'.order key other ((Finds.congr hkept).mpr hkey) ((Finds.congr hkept').mpr hother)
          hlt hnone
      · exact hgone other hmidway
    · exact hgone other (h.order key other hkey hother hlt hmidway)

/-- Removing the first of the documents that queries by owner find. -/
theorem of_take {n : Nat}
    (h : ∀ key, left.get? key =
      if key ∈ (group.ownedKeys table).take n then none else table.get? key) :
    group.Swept table left := by
  refine ⟨fun key => ?_, fun key other hkey hother hlt hnone => ?_⟩
  · rw [h]
    split
    · rename_i htaken
      exact .inr ⟨rfl, mem_ownedKeys.mp (List.mem_of_mem_take htaken)⟩
    · exact .inl rfl
  · rw [h] at hnone
    split at hnone
    · rename_i htaken
      rw [h, if_pos]
      exact mem_take_of_lt (table.sorted_scan _ _ _) htaken (mem_ownedKeys.mpr hother) hlt
    · exact absurd hnone hkey.get?

end Swept

/-! ## The removal -/

/-- One batch. -/
theorem deleteBatch_cases (group : ShardGroup) (ctx : Context) (first : DocKey)
    (keys : List DocKey) (env : Env Unit) :
    (∃ error left, (group.deleteBatch ctx first keys).runIn env = (.error error, left) ∧
        left.store.table = env.store.table) ∨
      ∃ left, (group.deleteBatch ctx first keys).runIn env = (.ok (), left) ∧
        ∀ key, left.store.table.get? key =
          if key ∈ keys then none else env.store.table.get? key := by
  unfold deleteBatch
  rw [Op.runIn_withContext]
  rcases Op.transact_cases (TxOp.steady_deleteAll keys) ctx env with
    ⟨error, left, hrun, hleft⟩ | ⟨_, left, hrun, hdone⟩
  · rw [hrun]
    exact .inl ⟨_, left, rfl, hleft⟩
  · rw [hrun]
    exact .inr ⟨left, rfl, hdone.deleteAll⟩

theorem deleteRounds_swept (group : ShardGroup) (ctx : Context) (rounds : Nat) {env left : Env Unit}
    {outcome : Except Error Bool}
    (h : (group.deleteRounds ctx rounds).runIn env = (outcome, left)) :
    group.Swept env.store.table left.store.table ∧
      (outcome = .ok true → ∀ key, ¬ group.Finds left.store.table key) := by
  have hempty : ∀ {env : Env Unit}, group.ownedKeys env.store.table = [] →
      ∀ key, ¬ group.Finds env.store.table key := by
    intro env hnil key hfinds
    rw [← mem_ownedKeys, hnil] at hfinds
    cases hfinds
  induction rounds generalizing env with
  | zero =>
    rw [deleteRounds, Op.runIn_bind] at h
    rcases group.owned_cases ctx "delete_shards" env with ⟨error, howned⟩ | howned
    · rw [howned] at h
      cases h
      exact ⟨.of_eq rfl, fun hok => by cases hok⟩
    · rw [howned] at h
      cases h
      refine ⟨.of_eq rfl, fun hok => hempty ?_⟩
      rw [ownedKeys, List.map_eq_nil_iff, ← List.isEmpty_iff]
      exact Except.ok.inj hok
  | succ rounds ih =>
    rw [deleteRounds, Op.runIn_bind] at h
    rcases group.owned_cases ctx "delete_shards" env with ⟨error, howned⟩ | howned
    · rw [howned] at h
      cases h
      exact ⟨.of_eq rfl, fun hok => by cases hok⟩
    · rw [howned] at h
      dsimp only at h
      cases htake : (env.store.table.scan group.collection ownerField (.text group.owner)).take
          (group.numShards + 1) with
      | nil =>
        rw [htake] at h
        cases h
        refine ⟨.of_eq rfl, fun _ => hempty ?_⟩
        rw [List.take_eq_nil_iff] at htake
        rw [ownedKeys, htake.resolve_left (Nat.succ_ne_zero _)]
        rfl
      | cons entry more =>
        obtain ⟨first, document⟩ := entry
        have hkeys : ((first, document) :: more).map Prod.fst =
            (group.ownedKeys env.store.table).take (group.numShards + 1) := by
          rw [← htake, ownedKeys, List.map_take]
        rw [htake] at h
        dsimp only at h
        rw [hkeys, Op.runIn_bind] at h
        rcases group.deleteBatch_cases ctx first
            ((group.ownedKeys env.store.table).take (group.numShards + 1)) env with
          ⟨error, between, hbatch, htable⟩ | ⟨between, hbatch, hbetween⟩
        · rw [hbatch] at h
          cases h
          exact ⟨.of_eq htable, fun hok => by cases hok⟩
        · rw [hbatch] at h
          obtain ⟨hswept, hdone⟩ := ih h
          exact ⟨(Swept.of_take hbetween).trans hswept, hdone⟩

/-- A removal takes documents in the order of their keys.  When it says that it is
done, none is left. -/
theorem deleteShards_swept (group : ShardGroup) (ctx : Context) (rounds : Nat) {env left : Env Unit}
    {outcome : Except Error Bool}
    (h : (group.deleteShards ctx rounds).runIn env = (outcome, left)) :
    group.Swept env.store.table left.store.table ∧
      (outcome = .ok true → ∀ key, ¬ group.Finds left.store.table key) := by
  rw [deleteShards, Op.runIn_bind] at h
  have henv := group.check_env ctx env
  rcases hcheck : (group.check ctx).runIn env with ⟨error | _, checked⟩
  · rw [hcheck] at h henv
    cases h
    exact ⟨.of_eq (congrArg (·.store.table) henv), fun hok => by cases hok⟩
  · rw [hcheck] at h henv
    obtain rfl : checked = env := henv
    exact group.deleteRounds_swept ctx rounds h

end ShardGroup

end Shardwise
