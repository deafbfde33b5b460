import Shardwise.Proofs.Store.Replay

/-!
# Increments of one field

What increments leave in a field depends on what the field held and on the numbers alone.
This module says so of any run in which nothing else happens to the field, and so facts
about sums of numbers become facts about what is stored.

* `Value.tally` applies increments to what a field holds, one after the other.
* `Write.deltas?` and `Event.deltas?` say which numbers are added to a field, if nothing
  else is done to it.
* `Documents.Tallies` says that the field is what these leave.  `Documents.tallies_write`
  is the step, and `Documents.tallies_mapM` carries it along a list.
-/

namespace Shardwise

/-- The parts of a sequence that succeeds. -/
theorem parts_of_bind {α β : Type} {first : Except Error α} {next : α → Except Error β} {result : β}
    (h : first >>= next = .ok result) : ∃ value, first = .ok value ∧ next value = .ok result := by
  cases first with
  | error error => cases h
  | ok value => exact ⟨value, rfl, h⟩

/-- The value of an outcome that succeeds. -/
theorem parts_of_map {α β : Type} {outcome : Except Error α} {f : α → β} {result : β}
    (h : outcome.map f = .ok result) : ∃ value, outcome = .ok value ∧ f value = result := by
  cases outcome with
  | error error => cases h
  | ok value => exact ⟨value, rfl, Except.ok.inj h⟩

/-! ## Numbers one after the other -/

namespace Value

/-- What an increment leaves in a field. -/
def incremented (name : String) (held : Option Value) (delta : Value) : Except Error Value :=
  match held.filter isNumeric with
  | none => .ok delta
  | some number => number.add delta name

/-- What increments leave in a field. -/
def tally (name : String) (held : Option Value) (deltas : List Value) :
    Except Error (Option Value) :=
  deltas.foldlM (fun held delta => (incremented name held delta).map some) held

@[simp] theorem tally_singleton (name : String) (held : Option Value) (delta : Value) :
    tally name held [delta] = (incremented name held delta).map some := by
  rw [tally, List.foldlM_cons]
  cases incremented name held delta <;> rfl

theorem tally_append (name : String) (held : Option Value) (deltas more : List Value) :
    tally name held (deltas ++ more) =
      tally name held deltas >>= fun made => tally name made more :=
  List.foldlM_append

end Value

/-! ## Numbers added to a field -/

/-- The numbers that a write on the document adds to the field, if it does nothing else to
it. -/
def Write.deltas? (name : String) : Write → Option (List Value)
  | .increment other delta =>
    if other = name then if delta.isNumeric then some [delta] else none else some []
  | .set fields true => if fields[name]?.isSome then none else some []
  | .set _ false | .delete => none

/-- The numbers that writes add to a field, if they do nothing else to it. -/
def deltasOn? (key : DocKey) (name : String) (writes : List (DocKey × Write)) :
    Option (List Value) :=
  (writes.mapM fun entry => if entry.1 = key then entry.2.deltas? name else some []).map
    List.flatten

/-- The numbers that an event adds to a field, if it does nothing else to it. -/
def Event.deltas? (key : DocKey) (name : String) : Event → Option (List Value)
  | .began _ => some []
  | .inserted other _ | .removed other => if other = key then none else some []
  | .committed writes => deltasOn? key name writes

namespace Documents

/-- What a field holds, if there is the document and it has the field. -/
def field (documents : Documents) (key : DocKey) (name : String) : Option Value :=
  ((documents key).getD {}).get? name

variable {documents made : Documents} {key : DocKey} {name : String} {deltas : List Value}

theorem field_update (made : Option Document) :
    field (Function.update documents key made) key name = (made.getD {}).get? name := by
  rw [field, Function.update_self]

theorem field_update_of_ne {other : DocKey} (h : other ≠ key) (made : Option Document) :
    field (Function.update documents other made) key name = documents.field key name := by
  rw [field, Function.update_of_ne h.symm, field]

/-- An increment of another field. -/
theorem field_increment_of_ne {other : String} {delta : Value} (hother : other ≠ name)
    (h : documents.write key (.increment other delta) = .ok made) :
    made.field key name = documents.field key name := by
  rw [write] at h
  split at h
  · obtain ⟨sum, -, rfl⟩ := parts_of_map h
    rw [field_update, Option.getD_some, Document.get?_set, if_neg hother, field]
  · cases h
    rw [field_update, Option.getD_some, Document.get?_set, if_neg hother, field]

/-- The documents with an increment of a field. -/
theorem write_increment (documents : Documents) (key : DocKey) (name : String) (delta : Value) :
    documents.write key (.increment name delta) =
      (Value.incremented name (documents.field key name) delta).map fun value =>
        Function.update documents key (some (((documents key).getD {}).set name value)) := by
  rw [write, Value.incremented, field]
  cases (((documents key).getD {}).get? name).filter Value.isNumeric <;> rfl

/-- An increment of the field. -/
theorem field_increment {delta : Value}
    (h : documents.write key (.increment name delta) = .ok made) :
    ∃ value, Value.incremented name (documents.field key name) delta = .ok value ∧
      made.field key name = some value := by
  rw [write_increment] at h
  obtain ⟨value, hvalue, rfl⟩ := parts_of_map h
  exact ⟨value, hvalue, by rw [field_update, Option.getD_some, Document.get?_set, if_pos rfl]⟩

/-- What a write does to a field: the increments one after the other, of numbers. -/
structure Tallies (documents : Documents) (key : DocKey) (name : String) (deltas : List Value)
    (made : Documents) : Prop where
  tally : Value.tally name (documents.field key name) deltas = .ok (made.field key name)
  numeric : ∀ delta ∈ deltas, delta.isNumeric = true

theorem Tallies.refl (h : made.field key name = documents.field key name) :
    Tallies documents key name [] made where
  tally := congrArg Except.ok h.symm
  numeric := by simp

theorem Tallies.trans {midway : Documents} {more : List Value}
    (first : Tallies documents key name deltas midway)
    (second : Tallies midway key name more made) :
    Tallies documents key name (deltas ++ more) made where
  tally := by
    rw [Value.tally_append, first.tally]
    exact second.tally
  numeric := List.forall_mem_append.mpr ⟨first.numeric, second.numeric⟩

theorem tallies_write {write : Write} (h : documents.write key write = .ok made)
    (hdeltas : write.deltas? name = some deltas) : Tallies documents key name deltas made := by
  cases write with
  | set fields merge =>
    cases merge with
    | false => cases hdeltas
    | true =>
      rw [Write.deltas?] at hdeltas
      split at hdeltas <;> cases hdeltas
      rename_i hnone
      cases h
      refine .refl ?_
      rw [field_update, Option.getD_some, Document.get?_merge,
        Option.not_isSome_iff_eq_none.mp hnone, Option.none_or, field]
  | increment other delta =>
    rw [Write.deltas?] at hdeltas
    split at hdeltas
    · rename_i hname
      rw [hname] at h
      split at hdeltas <;> cases hdeltas
      rename_i hnumeric
      refine ⟨?_, by simpa using hnumeric⟩
      obtain ⟨value, hvalue, hmade⟩ := field_increment h
      rw [Value.tally_singleton, hvalue, hmade]
      rfl
    · rename_i hname
      cases hdeltas
      exact .refl (field_increment_of_ne hname h)
  | delete => cases hdeltas

/-- Items one after the other.  The induction is on the items. -/
theorem tallies_mapM {α : Type} {deltas? : α → Option (List Value)}
    {apply : Documents → α → Except Error Documents} {items : List α} {parts : List (List Value)}
    (h : items.foldlM apply documents = .ok made) (hparts : items.mapM deltas? = some parts)
    (hone : ∀ (documents made : Documents) (item : α) (deltas : List Value),
      apply documents item = .ok made → deltas? item = some deltas →
      Tallies documents key name deltas made) :
    Tallies documents key name parts.flatten made := by
  induction items generalizing documents parts with
  | nil =>
    cases h
    cases hparts
    exact .refl rfl
  | cons item items ih =>
    simp only [List.mapM_cons, Option.pure_def, Option.bind_eq_bind, Option.bind_eq_some_iff,
      Option.some.injEq] at hparts
    obtain ⟨first, hfirst, rest, hrest, rfl⟩ := hparts
    obtain ⟨midway, hmidway, hmade⟩ := parts_of_bind h
    exact (hone _ _ _ _ hmidway hfirst).trans (ih hmade hrest)

theorem tallies_writeAll {writes : List (DocKey × Write)} (h : documents.writeAll writes = .ok made)
    (hdeltas : deltasOn? key name writes = some deltas) :
    Tallies documents key name deltas made := by
  obtain ⟨parts, hparts, rfl⟩ := Option.map_eq_some_iff.mp hdeltas
  refine tallies_mapM h hparts fun documents made entry deltas hmade hone => ?_
  split at hone
  · rename_i hkey
    rw [hkey] at hmade
    exact tallies_write hmade hone
  · rename_i hkey
    cases hone
    rw [write_eq] at hmade
    obtain ⟨document, -, rfl⟩ := parts_of_map hmade
    exact .refl (field_update_of_ne hkey document)

theorem tallies_happen {event : Event} (h : documents.happen event = .ok made)
    (hdeltas : event.deltas? key name = some deltas) : Tallies documents key name deltas made := by
  cases event with
  | began id =>
    cases h
    cases hdeltas
    exact .refl rfl
  | inserted other document | removed other =>
    rw [Event.deltas?] at hdeltas
    split at hdeltas <;> cases hdeltas
    rename_i hother
    cases h
    exact .refl (field_update_of_ne hother _)
  | committed writes => exact tallies_writeAll h hdeltas

end Documents

end Shardwise
