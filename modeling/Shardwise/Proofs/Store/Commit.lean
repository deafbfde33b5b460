import Shardwise.Store.Basic

/-!
# What a commit makes of each document

`Database.commit` stages the writes of an attempt in a map and then installs the
map.  Seen through one key at a time there is no map: the document of a key
becomes what the writes on that key make of it, one after the other.

* `writesOn` picks the writes on one key out of a list of writes.
* `stage_seen` and `get?_install` follow one key through the staging and through
  the installation.
* `Database.Commits` says all that a successful commit does, key by key, and
  `Database.commit_cases` and `Store.commit_cases` split a commit into the cases
  that can happen.
-/

namespace Shardwise

/-! ## The writes on one key -/

/-- The writes on one key, in their order. -/
def writesOn (key : DocKey) (writes : List (DocKey × Write)) : List Write :=
  (writes.filter fun write => write.1 = key).map Prod.snd

@[simp] theorem writesOn_nil (key : DocKey) : writesOn key [] = [] := rfl

theorem writesOn_cons (key : DocKey) (write : DocKey × Write) (writes : List (DocKey × Write)) :
    writesOn key (write :: writes) =
      if write.1 = key then write.2 :: writesOn key writes else writesOn key writes := by
  by_cases h : write.1 = key <;> simp [writesOn, h]

@[simp] theorem writesOn_append (key : DocKey) (first second : List (DocKey × Write)) :
    writesOn key (first ++ second) = writesOn key first ++ writesOn key second := by
  simp [writesOn]

theorem mem_writesOn {key : DocKey} {write : Write} {writes : List (DocKey × Write)} :
    write ∈ writesOn key writes ↔ (key, write) ∈ writes := by
  simp [writesOn]

namespace Database

/-! ## Staging -/

/-- The document that the next write on a key starts from: what earlier writes
made of it, or else the one in the table. -/
def seen (table : Table) (staged : Staged) (key : DocKey) : Option Document :=
  staged[key]?.getD (table.document? key)

@[simp] theorem seen_empty (table : Table) (key : DocKey) :
    seen table ∅ key = table.document? key := by
  simp [seen]

theorem seen_insert (table : Table) (staged : Staged) (key other : DocKey)
    (made : Option Document) :
    seen table (staged.insert key made) other =
      if key = other then made else seen table staged other := by
  by_cases h : key = other <;> simp [seen, Std.ExtTreeMap.getElem?_insert, h]

theorem stageWrite_eq (table : Table) (staged : Staged) (write : DocKey × Write) :
    stageWrite table staged write =
      (applyWrite (seen table staged write.1) write.2).map (staged.insert write.1) := by
  unfold stageWrite seen
  cases staged[write.1]? with
  | none => cases h : applyWrite (table.document? write.1) write.2 <;> simp [h] <;> rfl
  | some made => cases h : applyWrite made write.2 <;> simp [h] <;> rfl

/-- The head of a list of writes is staged first. -/
theorem stage_cons {table : Table} {staged result : Staged} {write : DocKey × Write}
    {writes : List (DocKey × Write)}
    (h : (write :: writes).foldlM (stageWrite table) staged = .ok result) :
    ∃ made, applyWrite (seen table staged write.1) write.2 = .ok made ∧
      writes.foldlM (stageWrite table) (staged.insert write.1 made) = .ok result := by
  rw [List.foldlM_cons, stageWrite_eq] at h
  cases hmade : applyWrite (seen table staged write.1) write.2 with
  | error error => rw [hmade] at h; cases h
  | ok made =>
    rw [hmade] at h
    exact ⟨made, rfl, h⟩

/-- The induction is on the writes; `seen` is the invariant that carries it. -/
theorem stageFrom_seen {table : Table} {writes : List (DocKey × Write)}
    {staged result : Staged} (h : writes.foldlM (stageWrite table) staged = .ok result)
    (key : DocKey) :
    (writesOn key writes).foldlM applyWrite (seen table staged key) =
      .ok (seen table result key) := by
  induction writes generalizing staged with
  | nil =>
    cases h
    rfl
  | cons write writes ih =>
    obtain ⟨made, hmade, hrest⟩ := stage_cons h
    have hseen := ih hrest
    rw [seen_insert] at hseen
    rw [writesOn_cons]
    by_cases hkey : write.1 = key
    · rw [if_pos hkey] at hseen ⊢
      rw [List.foldlM_cons, ← hkey, hmade]
      rw [hkey]
      exact hseen
    · rw [if_neg hkey] at hseen ⊢
      exact hseen

theorem stageFrom_isSome {table : Table} {writes : List (DocKey × Write)}
    {staged result : Staged} (h : writes.foldlM (stageWrite table) staged = .ok result)
    (key : DocKey) :
    result[key]?.isSome = true ↔ staged[key]?.isSome = true ∨ writesOn key writes ≠ [] := by
  induction writes generalizing staged with
  | nil =>
    cases h
    simp
  | cons write writes ih =>
    obtain ⟨made, -, hrest⟩ := stage_cons h
    rw [ih hrest, writesOn_cons, Std.ExtTreeMap.getElem?_insert]
    by_cases hkey : write.1 = key <;> simp [hkey]

/-- Staging makes of the document of a key what the writes on that key make of
it. -/
theorem stage_seen {table : Table} {writes : List (DocKey × Write)} {staged : Staged}
    (h : stage table writes = .ok staged) (key : DocKey) :
    (writesOn key writes).foldlM applyWrite (table.document? key) =
      .ok (seen table staged key) := by
  simpa using stageFrom_seen h key

/-- Staging looks at the documents that are written only. -/
theorem stage_congr {table other : Table} {writes : List (DocKey × Write)}
    (h : ∀ entry ∈ writes, other.document? entry.1 = table.document? entry.1) :
    stage other writes = stage table writes := by
  unfold stage
  generalize (∅ : Staged) = staged
  induction writes generalizing staged with
  | nil => rfl
  | cons write writes ih =>
    rw [List.forall_mem_cons] at h
    have hfirst : stageWrite other staged write = stageWrite table staged write := by
      rw [stageWrite, stageWrite, h.1]
    rw [List.foldlM_cons, List.foldlM_cons, hfirst]
    exact bind_congr fun later => ih h.2 later

/-- Staging the writes on some of the keys makes the same of these keys.  The
induction is on the writes. -/
theorem stageFrom_filter {table : Table} (p : DocKey → Bool) {writes : List (DocKey × Write)}
    {staged part result : Staged} (hpart : ∀ key, p key = true → part[key]? = staged[key]?)
    (h : writes.foldlM (stageWrite table) staged = .ok result) :
    ∃ kept, (writes.filter fun write => p write.1).foldlM (stageWrite table) part = .ok kept ∧
      ∀ key, p key = true → kept[key]? = result[key]? := by
  induction writes generalizing staged part with
  | nil =>
    cases h
    exact ⟨part, rfl, hpart⟩
  | cons write writes ih =>
    obtain ⟨made, hmade, hrest⟩ := stage_cons h
    rw [List.filter_cons]
    cases hkey : p write.1 with
    | true =>
      rw [if_pos rfl, List.foldlM_cons, stageWrite_eq]
      have hseen : seen table part write.1 = seen table staged write.1 := by
        rw [seen, seen, hpart write.1 hkey]
      rw [hseen, hmade]
      refine ih (fun key hp => ?_) hrest
      rw [Std.ExtTreeMap.getElem?_insert, Std.ExtTreeMap.getElem?_insert, hpart key hp]
    | false =>
      refine ih (fun key hp => ?_) hrest
      rw [hpart key hp, Std.ExtTreeMap.getElem?_insert, if_neg]
      rw [Std.LawfulEqCmp.compare_eq_iff_eq]
      rintro rfl
      rw [hkey] at hp
      cases hp

theorem stage_filter {table : Table} (p : DocKey → Bool) {writes : List (DocKey × Write)}
    {staged : Staged} (h : stage table writes = .ok staged) :
    ∃ part, stage table (writes.filter fun write => p write.1) = .ok part ∧
      ∀ key, p key = true → part[key]? = staged[key]? :=
  stageFrom_filter p (fun _ _ => rfl) h

/-- Staged are the keys that are written. -/
theorem stage_isSome {table : Table} {writes : List (DocKey × Write)} {staged : Staged}
    (h : stage table writes = .ok staged) (key : DocKey) :
    staged[key]?.isSome = true ↔ writesOn key writes ≠ [] := by
  simpa using stageFrom_isSome h key

theorem stage_isEmpty {table : Table} {writes : List (DocKey × Write)} {staged : Staged}
    (h : stage table writes = .ok staged) : staged.isEmpty = writes.isEmpty := by
  cases writes with
  | nil =>
    cases h
    simp
  | cons write writes =>
    have hsome : staged[write.1]?.isSome = true := by
      rw [stage_isSome h, writesOn_cons, if_pos rfl]
      simp
    rw [List.isEmpty_cons, Std.ExtTreeMap.isEmpty_eq_false_iff]
    rintro rfl
    simp at hsome

/-! ## Installing -/

theorem get?_installOne (version : UInt64) (table : Table) (entry : DocKey × Option Document)
    (key : DocKey) :
    (installOne version table entry).get? key =
      if entry.1 = key then entry.2.map (Stored.mk version) else table.get? key := by
  rcases entry with ⟨name, made | document⟩
  · simp [installOne, Table.get?_remove]
  · simp [installOne, Table.get?_put]

theorem get?_installList {version : UInt64} {entries : List (DocKey × Option Document)}
    {table : Table} {key : DocKey} (h : ∀ entry ∈ entries, entry.1 ≠ key) :
    (entries.foldl (installOne version) table).get? key = table.get? key := by
  induction entries generalizing table with
  | nil => rfl
  | cons entry entries ih =>
    simp only [List.mem_cons, forall_eq_or_imp] at h
    rw [List.foldl_cons, ih h.2, get?_installOne, if_neg h.1]

theorem get?_installList_mem {version : UInt64} {entries : List (DocKey × Option Document)}
    {table : Table} {key : DocKey} {made : Option Document}
    (hdistinct : entries.Pairwise fun a b => ¬ compare a.1 b.1 = .eq)
    (h : (key, made) ∈ entries) :
    (entries.foldl (installOne version) table).get? key = made.map (Stored.mk version) := by
  induction entries generalizing table with
  | nil => simp at h
  | cons entry entries ih =>
    rw [List.pairwise_cons] at hdistinct
    rw [List.foldl_cons]
    rcases List.mem_cons.mp h with rfl | hmem
    · have hlater : ∀ other ∈ entries, other.1 ≠ key := by
        intro other hother heq
        exact hdistinct.1 other hother (by rw [heq]; exact Std.compare_self)
      rw [get?_installList hlater, get?_installOne, if_pos rfl]
    · exact ih hdistinct.2 hmem

/-- Installing puts what was staged into the table and keeps the rest. -/
theorem get?_install (table : Table) (version : UInt64) (staged : Staged) (key : DocKey) :
    (install table version staged).get? key =
      match staged[key]? with
      | some made => made.map (Stored.mk version)
      | none => table.get? key := by
  unfold install
  cases hstaged : staged[key]? with
  | some made =>
    exact get?_installList_mem Std.ExtTreeMap.distinct_keys_toList
      (Std.ExtTreeMap.mem_toList_iff_getElem?_eq_some.mpr hstaged)
  | none =>
    apply get?_installList
    rintro ⟨name, made⟩ hmem rfl
    rw [Std.ExtTreeMap.mem_toList_iff_getElem?_eq_some, hstaged] at hmem
    cases hmem

theorem document?_install (table : Table) (version : UInt64) (staged : Staged) (key : DocKey) :
    (install table version staged).document? key = seen table staged key := by
  unfold Table.document? seen
  rw [get?_install]
  cases staged[key]? with
  | some made => cases made <;> rfl
  | none => rfl

/-! ## The cases of a commit -/

/-- All that a successful commit does, key by key. -/
structure Commits (db : Database) (attempt : Attempt) (left : Database) : Prop where
  active : attempt.status = .active
  /-- Every key that was read has the version that was read. -/
  valid : ∀ key version, attempt.reads[key]? = some version → db.table.versionOf key = version
  /-- A document becomes what the writes on its key make of it. -/
  applied : ∀ key, (writesOn key attempt.writes).foldlM applyWrite (db.table.document? key) =
    .ok (left.table.document? key)
  kept : ∀ key, writesOn key attempt.writes = [] → left.table.get? key = db.table.get? key
  /-- Written documents have the version of the commit. -/
  stamped : ∀ key stored, writesOn key attempt.writes ≠ [] →
    left.table.get? key = some stored → stored.version = left.version
  version : left.version = if attempt.writes.isEmpty then db.version else db.version + 1
  nextId : left.nextId = db.nextId

/-- The attempt as a failed commit or an abort leaves it. -/
def aborted (attempt : Attempt) (reason : String) : Attempt :=
  { attempt with status := .aborted reason, writes := [] }

theorem markValidating_eq (attempt : Attempt) :
    attempt.markValidating =
      if attempt.status = .active then .ok { attempt with status := .validating }
      else .error (.notInTransaction
        s!"transaction {attempt.id} is {attempt.status.display}") := by
  rcases attempt with ⟨id, reads, writes, status⟩
  cases status <;> rfl

theorem conflicts_eq_nil {table : Table} {attempt : Attempt} :
    conflicts table attempt = [] ↔
      ∀ key version, attempt.reads[key]? = some version → table.versionOf key = version := by
  unfold conflicts
  rw [List.filterMap_eq_nil_iff]
  constructor
  · intro h key version hread
    have hpair := h (key, version) (Std.ExtTreeMap.mem_toList_iff_getElem?_eq_some.mpr hread)
    simpa using hpair
  · rintro h ⟨key, version⟩ hmem
    have hread := Std.ExtTreeMap.mem_toList_iff_getElem?_eq_some.mp hmem
    simp [h key version hread]

/-- Conflicts are met in the documents that were read and have changed. -/
theorem mem_conflicts {table : Table} {attempt : Attempt} {key : DocKey} :
    key ∈ (conflicts table attempt).map Conflict.key ↔
      ∃ version, attempt.reads[key]? = some version ∧ table.versionOf key ≠ version := by
  simp only [conflicts, List.mem_map, List.mem_filterMap, Prod.exists,
    Std.ExtTreeMap.mem_toList_iff_getElem?_eq_some]
  constructor
  · rintro ⟨conflict, ⟨other, version, hread, hconflict⟩, rfl⟩
    split at hconflict
    · cases hconflict
    · rename_i hchanged
      cases hconflict
      exact ⟨version, hread, by simpa using hchanged⟩
  · rintro ⟨version, hread, hchanged⟩
    exact ⟨_, ⟨key, version, hread, if_neg (by simpa using hchanged)⟩, rfl⟩

/-- Conflicts are met in the order of the keys. -/
theorem sorted_conflicts (table : Table) (attempt : Attempt) :
    ((conflicts table attempt).map Conflict.key).Pairwise (compare · · = .lt) := by
  have hsorted : attempt.reads.toList.Pairwise fun a b => compare a.1 b.1 = .lt := by
    have hkeys : attempt.reads.keys.Pairwise (compare · · = .lt) := Std.ExtTreeMap.ordered_keys
    rw [← Std.ExtTreeMap.map_fst_toList_eq_keys] at hkeys
    exact List.pairwise_map.mp hkeys
  rw [List.pairwise_map, conflicts, List.pairwise_filterMap]
  refine hsorted.imp fun {a b} hlt conflict hconflict other hother => ?_
  dsimp only at hconflict hother
  split at hconflict
  · cases hconflict
  · split at hother
    · cases hother
    · cases hconflict
      cases hother
      exact hlt

/-- The database with staged documents installed, at a new version if there are
any. -/
def installed (db : Database) (staged : Staged) : Database :=
  { (if staged.isEmpty then db else db.allocateVersion.2) with
    table := install db.table
      (if staged.isEmpty then db.version else db.allocateVersion.1) staged }

theorem get?_installed (db : Database) (staged : Staged) (key : DocKey) :
    (db.installed staged).table.get? key =
      match staged[key]? with
      | some made => made.map (Stored.mk (db.version + 1))
      | none => db.table.get? key := by
  unfold installed
  rw [get?_install]
  cases hempty : staged.isEmpty with
  | false => rfl
  | true =>
    rw [Std.ExtTreeMap.isEmpty_iff] at hempty
    subst hempty
    simp

theorem document?_installed (db : Database) (staged : Staged) (key : DocKey) :
    (db.installed staged).table.document? key = seen db.table staged key :=
  document?_install _ _ _ _

theorem nextId_installed (db : Database) (staged : Staged) :
    (db.installed staged).nextId = db.nextId := by
  unfold installed
  cases staged.isEmpty <;> rfl

/-- What the parts of a successful commit amount to. -/
theorem commits_of_stage {db : Database} {attempt : Attempt} {staged : Staged}
    (hactive : attempt.status = .active) (hvalid : conflicts db.table attempt = [])
    (hstage : stage db.table attempt.writes = .ok staged) :
    Commits db attempt (db.installed staged) := by
  have hempty := stage_isEmpty hstage
  unfold installed
  refine ⟨hactive, conflicts_eq_nil.mp hvalid, ?_, ?_, ?_, ?_, ?_⟩
  · intro key
    rw [stage_seen hstage key, document?_install]
  · intro key hnil
    have hnone : staged[key]? = none := by
      rw [← Option.not_isSome_iff_eq_none, stage_isSome hstage key]
      simpa using hnil
    rw [get?_install, hnone]
  · intro key stored hwritten hstored
    obtain ⟨made, hmade⟩ := Option.isSome_iff_exists.mp ((stage_isSome hstage key).mpr hwritten)
    rw [get?_install, hmade] at hstored
    cases made with
    | none => simp at hstored
    | some document =>
      have hne : staged.isEmpty = false := by
        rw [Std.ExtTreeMap.isEmpty_eq_false_iff]
        rintro rfl
        simp at hmade
      simp only [Option.map_some, Option.some.injEq] at hstored
      rw [← hstored]
      simp [hne, allocateVersion]
  · rw [← hempty]
    cases staged.isEmpty <;> rfl
  · cases staged.isEmpty <;> rfl

theorem commit_inactive {db : Database} {attempt : Attempt} (h : attempt.status ≠ .active) :
    db.commit attempt = (.error (.invalidState (Error.notInTransaction
      s!"transaction {attempt.id} is {attempt.status.display}").message), attempt, db) := by
  rw [commit, markValidating_eq, if_neg h]

/-- Where a document that was read has changed, the commit fails. -/
theorem commit_conflicting {db : Database} {attempt : Attempt} (hactive : attempt.status = .active)
    (h : conflicts db.table attempt ≠ []) :
    db.commit attempt = (.error (.validationFailed (conflicts db.table attempt)),
      aborted attempt (CommitError.countText (conflicts db.table attempt)), db) := by
  have hsame : conflicts db.table { attempt with status := .validating } =
    conflicts db.table attempt := rfl
  rw [commit, markValidating_eq, if_pos hactive]
  dsimp only
  rw [hsame]
  cases hconflicts : conflicts db.table attempt with
  | nil => exact absurd hconflicts h
  | cons conflict more => rfl

/-- Where a write does not apply, the commit fails. -/
theorem commit_unstaged {db : Database} {attempt : Attempt} {error : Error}
    (hactive : attempt.status = .active) (hvalid : conflicts db.table attempt = [])
    (h : stage db.table attempt.writes = .error error) :
    db.commit attempt = (.error (.apply error), aborted attempt error.message, db) := by
  have hsame : conflicts db.table { attempt with status := .validating } =
    conflicts db.table attempt := rfl
  rw [commit, markValidating_eq, if_pos hactive]
  dsimp only
  rw [hsame, hvalid]
  dsimp only
  rw [h]
  rfl

/-- Otherwise the commit succeeds. -/
theorem commit_staged {db : Database} {attempt : Attempt} {staged : Staged}
    (hactive : attempt.status = .active) (hvalid : conflicts db.table attempt = [])
    (h : stage db.table attempt.writes = .ok staged) :
    db.commit attempt = (.ok (db.installed staged).version,
      { attempt with status := .committed }, db.installed staged) := by
  have hsame : conflicts db.table { attempt with status := .validating } =
    conflicts db.table attempt := rfl
  rw [commit, markValidating_eq, if_pos hactive]
  dsimp only
  rw [hsame, hvalid]
  dsimp only
  rw [h]
  dsimp only
  unfold installed
  cases staged.isEmpty <;> rfl

/-- A commit fails and leaves the database as it is, or it does what `Commits`
says. -/
theorem commit_cases (db : Database) (attempt : Attempt) :
    (∃ error reason, db.commit attempt = (.error error, attempt, db) ∧
        error = .invalidState reason ∧ attempt.status ≠ .active) ∨
      (∃ error reason, db.commit attempt = (.error error, aborted attempt reason, db) ∧
        (∀ reason, error ≠ .invalidState reason) ∧ attempt.status = .active) ∨
      ∃ version left, db.commit attempt =
        (.ok version, { attempt with status := .committed }, left) ∧ Commits db attempt left := by
  by_cases hactive : attempt.status = .active
  · by_cases hvalid : conflicts db.table attempt = []
    · cases hstage : stage db.table attempt.writes with
      | error error =>
        exact .inr (.inl ⟨_, _, commit_unstaged hactive hvalid hstage, by simp, hactive⟩)
      | ok staged =>
        exact .inr (.inr ⟨_, _, commit_staged hactive hvalid hstage,
          commits_of_stage hactive hvalid hstage⟩)
    · exact .inr (.inl ⟨_, _, commit_conflicting hactive hvalid, by simp, hactive⟩)
  · exact .inl ⟨_, _, commit_inactive hactive, rfl, hactive⟩

/-- A commit that succeeds returns the version that it leaves. -/
theorem commit_eq_ok {db left : Database} {attempt committed : Attempt} {version : UInt64}
    (h : db.commit attempt = (.ok version, committed, left)) :
    version = left.version ∧ Commits db attempt left := by
  by_cases hactive : attempt.status = .active
  · by_cases hvalid : conflicts db.table attempt = []
    · cases hstage : stage db.table attempt.writes with
      | error error => cases (commit_unstaged hactive hvalid hstage).symm.trans h
      | ok staged =>
        cases (commit_staged hactive hvalid hstage).symm.trans h
        exact ⟨rfl, commits_of_stage hactive hvalid hstage⟩
    · cases (commit_conflicting hactive hvalid).symm.trans h
  · cases (commit_inactive hactive).symm.trans h

end Database

namespace Store

theorem commit_closed {store : Store} (h : store.isOpen = false) (attempt : Attempt) :
    store.commit attempt = (.error (.ofStore "store is closed"), attempt, store) := by
  rw [commit, ensureOpen, h]
  rfl

/-- A commit that succeeds is counted. -/
theorem commit_ok {store : Store} {attempt changed : Attempt} {version : UInt64} {left : Database}
    (hopen : store.isOpen = true)
    (h : store.database.commit attempt = (.ok version, changed, left)) :
    store.commit attempt =
      (.ok version, changed, { store with database := left }.countCommitted) := by
  rw [commit, ensureOpen, hopen, h]
  rfl

/-- An attempt that was not active is not counted. -/
theorem commit_invalid {store : Store} {attempt changed : Attempt} {reason : String}
    {left : Database} (hopen : store.isOpen = true)
    (h : store.database.commit attempt = (.error (.invalidState reason), changed, left)) :
    store.commit attempt =
      (.error (.notInTransaction reason), changed, { store with database := left }) := by
  rw [commit, ensureOpen, hopen, h]
  rfl

/-- Other failures are counted. -/
theorem commit_failed {store : Store} {attempt changed : Attempt} {error : CommitError}
    {left : Database} (hopen : store.isOpen = true)
    (herror : ∀ reason, error ≠ .invalidState reason)
    (h : store.database.commit attempt = (.error error, changed, left)) :
    store.commit attempt =
      (.error error.toError, changed, { store with database := left }.countAborted) := by
  rw [commit, ensureOpen, hopen, h]
  cases error with
  | invalidState reason => exact absurd rfl (herror reason)
  | validationFailed conflicts => rfl
  | apply error => rfl

/-- A commit of the store fails and leaves the documents as they are, or it does
what `Database.Commits` says. -/
theorem commit_cases (store : Store) (attempt : Attempt) :
    (∃ error changed left, store.commit attempt = (.error error, changed, left) ∧
        left.database = store.database ∧
        (changed = attempt ∨ ∃ reason, changed = Database.aborted attempt reason)) ∨
      ∃ version left, store.commit attempt =
        (.ok version, { attempt with status := .committed }, left) ∧ store.isOpen = true ∧
          Database.Commits store.database attempt left.database := by
  cases hopen : store.isOpen with
  | false => exact .inl ⟨_, _, _, commit_closed hopen attempt, rfl, .inl rfl⟩
  | true =>
    rcases Database.commit_cases store.database attempt with
      ⟨error, reason, heq, rfl, -⟩ | ⟨error, reason, heq, hother, -⟩ | ⟨version, left, heq, hdone⟩
    · exact .inl ⟨_, _, _, commit_invalid hopen heq, rfl, .inl rfl⟩
    · exact .inl ⟨_, _, _, commit_failed hopen hother heq, rfl, .inr ⟨_, rfl⟩⟩
    · exact .inr ⟨_, _, commit_ok hopen heq, rfl, hdone⟩

/-- A commit of the store that succeeds returns the version that it leaves. -/
theorem commit_eq_ok {store left : Store} {attempt committed : Attempt} {version : UInt64}
    (h : store.commit attempt = (.ok version, committed, left)) :
    version = left.database.version ∧
      Database.Commits store.database attempt left.database := by
  cases hopen : store.isOpen with
  | false => cases (commit_closed hopen attempt).symm.trans h
  | true =>
    rcases hdone : store.database.commit attempt with ⟨error | number, changed, after⟩
    · cases error with
      | invalidState reason => cases (commit_invalid hopen hdone).symm.trans h
      | validationFailed conflicts =>
        cases (commit_failed hopen (by simp) hdone).symm.trans h
      | apply error => cases (commit_failed hopen (by simp) hdone).symm.trans h
    · cases (commit_ok hopen hdone).symm.trans h
      exact Database.commit_eq_ok hdone

/-- A commit leaves the settings of the store, and counts if it succeeds. -/
theorem commit_settings (store : Store) (attempt : Attempt) :
    (store.commit attempt).2.2.retry = store.retry ∧
      (store.commit attempt).2.2.isOpen = store.isOpen ∧
        (store.commit attempt).2.2.stats.committed =
          store.stats.committed + if (store.commit attempt).1.isOk then 1 else 0 := by
  unfold commit ensureOpen
  cases hopen : store.isOpen with
  | false => exact ⟨rfl, hopen, rfl⟩
  | true =>
    dsimp only [if_true]
    rcases store.database.commit attempt with ⟨error | version, changed, left⟩
    · cases error <;> exact ⟨rfl, rfl, rfl⟩
    · exact ⟨rfl, rfl, rfl⟩

/-- An abort fails, or leaves the documents as they are and the attempt without
writes. -/
theorem abort_cases (store : Store) (attempt : Attempt) (reason : String) :
    (∃ error, store.abort attempt reason = .error error) ∨
      ∃ left, store.abort attempt reason = .ok (Database.aborted attempt reason, left) ∧
        left.database = store.database := by
  unfold abort Attempt.markAborted
  cases hstatus : attempt.status with
  | active => exact .inr ⟨_, rfl, rfl⟩
  | validating => exact .inr ⟨_, rfl, rfl⟩
  | committed => exact .inl ⟨_, rfl⟩
  | aborted earlier => exact .inl ⟨_, rfl⟩

end Store

end Shardwise
