import Shardwise.Proofs.Store.Replay

/-!
# Outcomes of a commit

A commit compares versions, stages its writes, takes a version and installs what was
staged, in this order, and it can stop before the last two only.  Which of its outcomes
it has can be said without staging: it depends on the versions that were read, and on
whether the writes apply to the documents one after the other.

* `Documents.StopsAt` is the first write that does not apply, and
  `Documents.writeAll_eq_error_iff` says that there is one exactly if not all apply.
* `Database.stage_document?` follows the writes through the staging, up to the one that
  stops it.
* `Database.mem_conflicts_iff` says which conflicts a commit reports, and
  `Database.mem_reasons_iff` how it may word them.
* `Database.commit_outcome` is the result.
-/

namespace Shardwise

namespace Documents

/-! ## The first write that does not apply -/

/-- One of the writes does not apply to what those before it made. -/
def StopsAt (documents : Documents) (writes : List (DocKey × Write)) (error : Error) : Prop :=
  ∃ earlier key write later midway, writes = earlier ++ (key, write) :: later ∧
    documents.writeAll earlier = .ok midway ∧ midway.write key write = .error error

theorem writeAll_cons (documents : Documents) (key : DocKey) (write : Write)
    (writes : List (DocKey × Write)) :
    documents.writeAll ((key, write) :: writes) =
      documents.write key write >>= fun made => made.writeAll writes :=
  List.foldlM_cons

theorem writeAll_append (documents : Documents) (first second : List (DocKey × Write)) :
    documents.writeAll (first ++ second) =
      documents.writeAll first >>= fun made => made.writeAll second :=
  List.foldlM_append

/-- Writes fail with the error of the first one that does not apply.  The induction is on
the writes. -/
theorem writeAll_eq_error_iff {documents : Documents} {writes : List (DocKey × Write)}
    {error : Error} :
    documents.writeAll writes = .error error ↔ documents.StopsAt writes error := by
  constructor
  · intro h
    induction writes generalizing documents with
    | nil => cases h
    | cons entry writes ih =>
      obtain ⟨key, write⟩ := entry
      rw [writeAll_cons] at h
      cases hmade : documents.write key write with
      | error first =>
        rw [hmade] at h
        cases h
        exact ⟨[], key, write, writes, documents, rfl, rfl, hmade⟩
      | ok made =>
        rw [hmade] at h
        obtain ⟨earlier, other, stop, later, midway, rfl, hearlier, hstop⟩ := ih h
        refine ⟨(key, write) :: earlier, other, stop, later, midway, rfl, ?_, hstop⟩
        rw [writeAll_cons, hmade]
        exact hearlier
  · rintro ⟨earlier, key, write, later, midway, rfl, hearlier, hstop⟩
    rw [writeAll_append, hearlier]
    show midway.writeAll ((key, write) :: later) = _
    rw [writeAll_cons, hstop]
    rfl

end Documents

namespace Database

/-! ## Staging -/

theorem seen_insert_eq_update (table : Table) (staged : Staged) (key : DocKey)
    (made : Option Document) :
    seen table (staged.insert key made) = Function.update (seen table staged) key made := by
  funext other
  rw [seen_insert, Function.update_apply]
  by_cases h : key = other
  · rw [if_pos h, if_pos h.symm]
  · rw [if_neg h, if_neg (Ne.symm h)]

/-- Seen through its keys, staging applies the writes to the documents.  The induction is
on the writes; what was staged so far is any map. -/
theorem stageFrom_seen_eq (table : Table) (writes : List (DocKey × Write)) (staged : Staged) :
    (writes.foldlM (stageWrite table) staged).map (seen table) =
      Documents.writeAll (seen table staged) writes := by
  induction writes generalizing staged with
  | nil => rfl
  | cons entry writes ih =>
    obtain ⟨key, write⟩ := entry
    rw [List.foldlM_cons, stageWrite_eq, Documents.writeAll_cons, Documents.write_eq]
    cases hmade : applyWrite (seen table staged key) write with
    | error error => rfl
    | ok made =>
      show (writes.foldlM (stageWrite table) (staged.insert key made)).map (seen table) =
        Documents.writeAll (Function.update (seen table staged) key made) writes
      rw [ih, seen_insert_eq_update]

/-- Staging fails where the writes do, with their error, and otherwise makes of the
documents what the writes make of them. -/
theorem stage_document? (table : Table) (writes : List (DocKey × Write)) :
    (stage table writes).map (seen table) = Documents.writeAll table.document? writes := by
  have hempty : seen table ∅ = table.document? := funext (seen_empty table)
  rw [stage, stageFrom_seen_eq, hempty]

/-! ## Conflicts -/

/-- A document that the attempt read and that has another version now. -/
structure Stale (db : Database) (attempt : Attempt) (conflict : Conflict) : Prop where
  read : attempt.reads[conflict.key]? = some conflict.read
  current : conflict.current = db.table.versionOf conflict.key
  changed : conflict.current ≠ conflict.read

theorem mem_conflicts_iff {db : Database} {attempt : Attempt} {conflict : Conflict} :
    conflict ∈ conflicts db.table attempt ↔ db.Stale attempt conflict := by
  simp only [conflicts, List.mem_filterMap, Prod.exists,
    Std.ExtTreeMap.mem_toList_iff_getElem?_eq_some]
  constructor
  · rintro ⟨key, version, hread, hconflict⟩
    split at hconflict
    · cases hconflict
    · rename_i hchanged
      cases hconflict
      exact ⟨hread, rfl, by simpa using hchanged⟩
  · rintro ⟨hread, hcurrent, hchanged⟩
    refine ⟨conflict.key, conflict.read, hread, ?_⟩
    rw [← hcurrent, if_neg (by simpa using hchanged)]

/-- No key is reported twice. -/
theorem nodup_conflicts (table : Table) (attempt : Attempt) :
    ((conflicts table attempt).map Conflict.key).Nodup := by
  refine (sorted_conflicts table attempt).imp fun {a b} hlt heq => ?_
  rw [heq, Std.compare_self] at hlt
  cases hlt

/-- Where documents have changed, the caller is told of one of them. -/
theorem mem_reasons_iff {db : Database} {attempt : Attempt} {reason : String}
    (h : ∃ conflict, db.Stale attempt conflict) :
    reason ∈ CommitError.reasons (conflicts db.table attempt) ↔
      ∃ conflict, db.Stale attempt conflict ∧
        reason = CommitError.reasonOf (conflicts db.table attempt) conflict := by
  obtain ⟨stale, hstale⟩ := h
  have hne : conflicts db.table attempt ≠ [] :=
    List.ne_nil_of_mem (mem_conflicts_iff.mpr hstale)
  rw [CommitError.reasons, if_neg (by simpa using hne), List.mem_map]
  simp only [mem_conflicts_iff, eq_comm]

/-! ## Outcomes -/

/-- As long as the counter lasts, a commit moves it by one if something was written. -/
theorem toNat_version_installed {db : Database} {writes : List (DocKey × Write)}
    {staged : Staged} (room : db.version.toNat + 1 < UInt64.size)
    (h : stage db.table writes = .ok staged) :
    (db.installed staged).version.toNat = db.version.toNat + if writes = [] then 0 else 1 := by
  have hempty := stage_isEmpty h
  unfold installed
  cases writes with
  | nil =>
    rw [hempty]
    rfl
  | cons write writes =>
    rw [hempty]
    exact toNat_succ room

/-- What a commit comes to.  An attempt that is not active stays as it is, and so does the
database.  An active one fails if a document that it read has changed; the conflicts are
exactly these documents, each once and with both versions.  Otherwise it fails if its
writes do not all apply in their order, with the error of the first that does not.  In
both cases the database stays as it is, and the attempt is aborted, keeps its reads and
loses its writes.  Otherwise it is committed, the documents are what its writes make of
them, and the result is the version of the database, which grows by one unless there were
no writes. -/
theorem commit_outcome (db : Database) (attempt : Attempt)
    (room : db.version.toNat + 1 < UInt64.size) :
    (attempt.status ≠ .active → db.commit attempt =
      (.error (.invalidState (Error.notInTransaction
        s!"transaction {attempt.id} is {attempt.status.display}").message), attempt, db)) ∧
    (attempt.status = .active → (∃ conflict, db.Stale attempt conflict) →
      ∃ conflicts, db.commit attempt = (.error (.validationFailed conflicts),
          aborted attempt (CommitError.countText conflicts), db) ∧
        (conflicts.map Conflict.key).Nodup ∧
        ∀ conflict, conflict ∈ conflicts ↔ db.Stale attempt conflict) ∧
    (attempt.status = .active → (∀ conflict, ¬ db.Stale attempt conflict) →
      (∃ error, Documents.StopsAt db.table.document? attempt.writes error ∧
        db.commit attempt = (.error (.apply error), aborted attempt error.message, db)) ∨
      ∃ final left, Documents.writeAll db.table.document? attempt.writes = .ok final ∧
        db.commit attempt = (.ok left.version, { attempt with status := .committed }, left) ∧
        left.table.document? = final ∧ left.nextId = db.nextId ∧
        left.version.toNat = db.version.toNat + if attempt.writes = [] then 0 else 1) := by
  refine ⟨commit_inactive, fun hactive hstale => ?_, fun hactive hfresh => ?_⟩
  · obtain ⟨conflict, hconflict⟩ := hstale
    have hne : conflicts db.table attempt ≠ [] :=
      List.ne_nil_of_mem (mem_conflicts_iff.mpr hconflict)
    exact ⟨_, commit_conflicting hactive hne, nodup_conflicts db.table attempt,
      fun _ => mem_conflicts_iff⟩
  · have hvalid : conflicts db.table attempt = [] :=
      List.eq_nil_iff_forall_not_mem.mpr fun conflict hmem =>
        hfresh conflict (mem_conflicts_iff.mp hmem)
    have hwrites := stage_document? db.table attempt.writes
    cases hstage : stage db.table attempt.writes with
    | error error =>
      rw [hstage] at hwrites
      exact .inl ⟨error, Documents.writeAll_eq_error_iff.mp hwrites.symm,
        commit_unstaged hactive hvalid hstage⟩
    | ok staged =>
      rw [hstage] at hwrites
      exact .inr ⟨_, db.installed staged, hwrites.symm, commit_staged hactive hvalid hstage,
        funext (document?_installed db staged), nextId_installed db staged,
        toNat_version_installed room hstage⟩

/-! ## An outcome -/

/-- An attempt whose second write adds infinity to what the first one stores. -/
def overreach : Attempt where
  id := 1
  writes :=
    [(Store.shelf, .set (Std.ExtTreeMap.ofList [("Value", Value.int 1)]) false),
      (Store.shelf, .increment "Value" (.float (1 / 0))), (Store.crate, .set ∅ false)]

/-- The attempt is aborted, and neither its first nor its last write is to be seen. -/
theorem commit_overreach : ({} : Database).version.toNat + 1 < UInt64.size ∧
    ({} : Database).commit overreach =
      (.error (.apply (.typeMismatch "Value" "number" "Float")),
        aborted overreach "type mismatch on field 'Value': expected number, found Float", {}) := by
  have room : ({} : Database).version.toNat + 1 < UInt64.size := by decide
  have hfresh : ∀ conflict, ¬ ({} : Database).Stale overreach conflict := by
    rintro conflict ⟨hread, -⟩
    simp [overreach] at hread
  have hwrites : Documents.writeAll ({} : Database).table.document? overreach.writes =
      .error (.typeMismatch "Value" "number" "Float") := rfl
  obtain ⟨-, -, hvalid⟩ := commit_outcome {} overreach room
  refine ⟨room, ?_⟩
  rcases hvalid rfl hfresh with ⟨error, hstops, hcommit⟩ | ⟨final, left, happlied, -⟩
  · rw [Documents.writeAll_eq_error_iff.mpr hstops] at hwrites
    cases hwrites
    exact hcommit
  · cases hwrites.symm.trans happlied

end Database

end Shardwise
