import Mathlib.Logic.Function.Basic
import Shardwise.Proofs.Store.History

/-!
# Replaying a history

A commit stages all writes of its attempt in a map and then installs the map, each
document at the version of the commit.  What becomes of the documents is simpler than
that.  `Documents` knows no versions, no attempts and no staging: it is a map from
keys to documents, and `Documents.write` applies one write directly to it.

* `Documents.writeAll_eq_ok` says that applying writes one after the other makes of
  each document what the writes on its key make of it.
* `Store.Step.happens` follows one request.
* `Store.Runs.replay_eq` is the result: replaying the history of a store, event by
  event and write by write, gives the documents of its table.
-/

namespace Shardwise

/-- Documents by their keys. -/
abbrev Documents := DocKey → Option Document

namespace Documents

/-- No documents. -/
def empty : Documents := fun _ => none

/-- Applies a write.  With `merge`, a document that is there keeps its other fields.
An increment adds to a number, and puts its own number where there is none. -/
def write (documents : Documents) (key : DocKey) : Write → Except Error Documents
  | .set fields false => .ok (Function.update documents key (some ⟨fields⟩))
  | .set fields true =>
    .ok (Function.update documents key (some (((documents key).getD {}).merge fields)))
  | .increment field delta =>
    let document := (documents key).getD {}
    match (document.get? field).filter Value.isNumeric with
    | some number => (number.add delta field).map fun sum =>
      Function.update documents key (some (document.set field sum))
    | none => .ok (Function.update documents key (some (document.set field delta)))
  | .delete => .ok (Function.update documents key none)

/-- Applies writes one after the other. -/
def writeAll (documents : Documents) (writes : List (DocKey × Write)) :
    Except Error Documents :=
  writes.foldlM (fun documents entry => documents.write entry.1 entry.2) documents

/-- Applies what happened to a store. -/
def happen (documents : Documents) : Event → Except Error Documents
  | .began _ => .ok documents
  | .inserted key document => .ok (Function.update documents key (some document))
  | .removed key => .ok (Function.update documents key none)
  | .committed writes => documents.writeAll writes

/-- Applies a history to no documents. -/
def replay (events : List Event) : Except Error Documents := events.foldlM happen empty

/-! ## Writes one after the other -/

theorem merge_empty (fields : Fields) : ({} : Document).merge fields = ⟨fields⟩ := by
  apply Document.ext_get?
  intro name
  rw [Document.get?_merge]
  simp [Document.get?]

/-- Only the document of its key matters to a write. -/
theorem write_eq (documents : Documents) (key : DocKey) (write : Write) :
    documents.write key write =
      (Database.applyWrite (documents key) write).map (Function.update documents key) := by
  cases write with
  | set fields merge =>
    cases merge with
    | false => cases h : documents key <;> rfl
    | true =>
      cases h : documents key with
      | none => simp only [Documents.write, h, Option.getD_none, merge_empty]; rfl
      | some document => simp only [Documents.write, h]; rfl
  | increment field delta =>
    simp only [Documents.write, Database.applyWrite]
    cases h : ((documents key).getD {}).get? field with
    | none => rfl
    | some value =>
      cases hnumeric : value.isNumeric with
      | false => simp [Option.filter, hnumeric]; rfl
      | true =>
        simp only [Option.filter, hnumeric, if_true]
        cases value.add delta field <;> rfl
  | delete => rfl

/-- If the writes on each key apply, then so do all of them in their order, and each
document becomes what the writes on its key make of it.  The induction is on the
writes. -/
theorem writeAll_eq_ok {documents final : Documents} {writes : List (DocKey × Write)}
    (h : ∀ key, (writesOn key writes).foldlM Database.applyWrite (documents key) =
      .ok (final key)) : documents.writeAll writes = .ok final := by
  induction writes generalizing documents with
  | nil =>
    have heq : documents = final := by
      funext key
      exact Except.ok.inj (h key)
    rw [heq]
    rfl
  | cons entry writes ih =>
    obtain ⟨key, write⟩ := entry
    have hkey := h key
    rw [writesOn_cons, if_pos rfl, List.foldlM_cons] at hkey
    cases hmade : Database.applyWrite (documents key) write with
    | error error =>
      rw [hmade] at hkey
      cases hkey
    | ok made =>
      rw [hmade] at hkey
      have hrest : writeAll (Function.update documents key made) writes = .ok final := by
        apply ih
        intro other
        by_cases hother : other = key
        · rw [hother, Function.update_self]
          exact hkey
        · rw [Function.update_of_ne hother]
          have hsame := h other
          rwa [writesOn_cons, if_neg (Ne.symm hother)] at hsame
      rw [writeAll, List.foldlM_cons, write_eq, hmade]
      exact hrest

end Documents

/-! ## Requests -/

namespace Store

variable {store left : Store} {events : List Event}

/-- The documents of a store. -/
def documents (store : Store) : Documents := store.table.document?

/-- A commit makes of the documents what its writes make of them one after the
other. -/
theorem writeAll_of_commit {attempt committed : Attempt} {version : UInt64}
    (h : store.commit attempt = (.ok version, committed, left)) :
    store.documents.writeAll attempt.writes = .ok left.documents := by
  rcases store.commit_cases attempt with
    ⟨error, changed, other, hfailed, -⟩ | ⟨_, other, hdone, -, hcommits⟩
  · cases hfailed.symm.trans h
  · cases hdone.symm.trans h
    exact Documents.writeAll_eq_ok hcommits.applied

/-- The events of a request say what it does to the documents. -/
theorem Step.happens (h : Step store events left) :
    events.foldlM Documents.happen store.documents = .ok left.documents := by
  cases h with
  | begin h =>
    obtain ⟨-, -, rfl⟩ := begin_eq_ok h
    rfl
  | @insert _ key document h =>
    have hput : left.documents = Function.update store.documents key (some document) := by
      rw [insert_eq_ok h]
      exact Table.document?_put ..
    rw [hput]
    rfl
  | @delete _ key h =>
    have hremoved : left.documents = Function.update store.documents key none := by
      rcases delete_eq_ok h with ⟨rfl, hnone⟩ | rfl
      · have hgone : left.documents key = none := Table.document?_eq_none.mpr hnone
        exact (Function.update_eq_self_iff.mpr hgone.symm).symm
      · exact Table.document?_remove ..
    rw [hremoved]
    rfl
  | commit h =>
    rw [List.foldlM_cons, Documents.happen, writeAll_of_commit h]
    rfl
  | @fail _ attempt changed error h =>
    rcases store.commit_cases attempt with
      ⟨error, changed, other, hfailed, hsame, -⟩ | ⟨_, other, hdone, -⟩
    · cases hfailed.symm.trans h
      rw [documents, documents, Store.table, Store.table, hsame]
      rfl
    · cases hdone.symm.trans h
  | abort h =>
    rw [abort_eq_ok h]
    rfl
  | close | retry => rfl

/-- The events of requests say what they do to the documents. -/
theorem Runs.happens (h : Runs store events left) :
    events.foldlM Documents.happen store.documents = .ok left.documents := by
  induction h with
  | start => rfl
  | step _ next ih =>
    rw [List.foldlM_append, ih]
    exact next.happens

/-- Whatever was requested of a new store, its documents are those that its history
makes of none: the commits that succeeded, the insertions and the removals, each
applied where it happened, and the writes of a commit one after the other in the order
in which they were made.  Requests without events, such as aborts and commits that
fail, leave the documents as they are. -/
theorem Runs.replay_eq {policy : RetryPolicy} (h : Runs { retry := policy } events store) :
    Documents.replay events = .ok store.documents ∧
      ∀ left, store.Step [] left → left.documents = store.documents := by
  have hempty : ({ retry := policy } : Store).documents = Documents.empty := by
    funext key
    simp [documents, Store.table, Table.document?, Table.get?, Documents.empty]
  constructor
  · rw [Documents.replay, ← hempty]
    exact h.happens
  · intro left hstep
    exact (Except.ok.inj hstep.happens).symm

/-! ## A run -/

/-- A key. -/
def shelf : DocKey := ⟨"rooms", "shelf"⟩

/-- Another key. -/
def crate : DocKey := ⟨"rooms", "crate"⟩

/-- An attempt that found no document, makes it in three steps, and makes another one
after its removal. -/
def furnish : Attempt where
  id := 1
  reads := (∅ : Std.ExtTreeMap DocKey UInt64).insertIfNew shelf 0
  writes :=
    [(shelf, .set
        (Std.ExtTreeMap.ofList [("Owner", Value.text "a"), ("Value", Value.int 1)]) false),
      (crate, .delete), (shelf, .increment "Value" (.int 2)),
      (crate, .increment "Value" (.int 5)),
      (shelf, .set (Std.ExtTreeMap.ofList [("Owner", Value.text "b")]) true)]

/-- An attempt that found no document either. -/
def tidy : Attempt where
  id := 2
  reads := (∅ : Std.ExtTreeMap DocKey UInt64).insertIfNew shelf 0
  writes := [(shelf, .delete)]

/-- Two attempts begin, a document is inserted, and the first attempt commits. -/
def furnished : List Event :=
  [.began furnish.id] ++ [.began tidy.id] ++ [.inserted crate {}] ++ [.committed furnish.writes]

/-- Afterwards the second attempt meets a conflict. -/
theorem replay_furnished : ∃ store left, Runs {} furnished store ∧ store.Step [] left ∧
    store.stats.aborted < left.stats.aborted ∧
    Documents.replay furnished = .ok store.documents ∧ left.documents = store.documents := by
  have hfirst : begin {} = .ok ({ id := 1 }, begun {}) := rfl
  have hsecond : (begun {}).begin = .ok ({ id := 2 }, (begun {}).begun) := rfl
  obtain ⟨filled, hfilled⟩ : ∃ filled, (begun {}).begun.insert crate {} = .ok filled := ⟨_, rfl⟩
  obtain ⟨version, done, store, hcommit⟩ : ∃ version done store,
      filled.commit furnish = (.ok version, done, store) := by
    cases hfilled
    exact ⟨_, _, _, rfl⟩
  obtain ⟨error, lost, left, hfail, hmore⟩ : ∃ error lost left,
      store.commit tidy = (.error error, lost, left) ∧
        store.stats.aborted < left.stats.aborted := by
    cases hfilled
    cases hcommit
    exact ⟨_, _, _, rfl, by decide⟩
  have hruns : Runs {} furnished store :=
    (((Runs.start.step (.begin hfirst)).step (.begin hsecond)).step (.insert hfilled)).step
      (.commit hcommit)
  have hstep : store.Step [] left := .fail hfail
  obtain ⟨hreplay, hleft⟩ := Runs.replay_eq hruns
  exact ⟨store, left, hruns, hstep, hmore, hreplay, hleft left hstep⟩

end Store

end Shardwise
