import Shardwise.Proofs.Shards.Record
import Shardwise.Proofs.Value.Words

/-!
# How a document comes to name an owner

Queries by owner go by one text field.  A write puts a text there only if it sets the
field; an increment of the field puts a number there, whatever it held.

* `Write.Names` is a write that puts an owner's name into its document.
* `Database.Commits.names` says that after a commit a document names an owner only if
  it did before, or such a write of the attempt is on its key.
-/

namespace Shardwise

/-- The document of the key names the owner. -/
def Table.NamesAt (table : Table) (key : DocKey) (owner : String) : Prop :=
  ∃ document, table.document? key = some document ∧ document.names owner = true

/-! ## Writes -/

/-- The write puts the name of an owner into its document. -/
def Write.Names (owner : String) : Write → Prop
  | .set fields _ => (Document.mk fields).names owner = true
  | .increment field delta => field = ownerField ∧ delta = .text owner
  | .delete => False

namespace Database

/-- An increment sets its field to the delta, or to a sum. -/
theorem applyWrite_increment {current : Option Document} {field : String} {delta : Value}
    {made : Document} (h : applyWrite current (.increment field delta) = .ok (some made)) :
    ∃ value, made = (current.getD {}).set field value ∧
      (value = delta ∨ ∃ old : Value, old.add delta field = .ok value) := by
  simp only [applyWrite] at h
  split at h
  · rename_i old _
    split at h
    · cases hsum : old.add delta field with
      | error error =>
        rw [hsum] at h
        cases h
      | ok value =>
        rw [hsum] at h
        cases h
        exact ⟨value, rfl, .inr ⟨old, hsum⟩⟩
    · cases h
      exact ⟨delta, rfl, .inl rfl⟩
  · cases h
    exact ⟨delta, rfl, .inl rfl⟩

/-- A document names an owner after a write only if it did before, or the write
puts the name there. -/
theorem names_of_applyWrite {owner : String} {current : Option Document} {write : Write}
    {made : Document} (h : applyWrite current write = .ok (some made))
    (hnames : made.names owner = true) :
    (∃ document, current = some document ∧ document.names owner = true) ∨ write.Names owner := by
  cases write with
  | delete => cases h
  | set fields merge =>
    simp only [applyWrite] at h
    split at h
    · rename_i document
      cases h
      rw [Document.names_eq_true, Document.get?_merge] at hnames
      cases hfield : fields[ownerField]? with
      | none =>
        rw [hfield, Option.none_or] at hnames
        exact .inl ⟨document, rfl, Document.names_eq_true.mpr hnames⟩
      | some value =>
        rw [hfield, Option.some_or] at hnames
        exact .inr (Document.names_eq_true.mpr (hfield.trans hnames))
    · cases h
      exact .inr hnames
  | increment field delta =>
    obtain ⟨value, rfl, hvalue⟩ := applyWrite_increment h
    rw [Document.names_eq_true, Document.get?_set] at hnames
    by_cases hfield : field = ownerField
    · -- A sum is no text, so it is the delta that was put there.
      rw [if_pos hfield] at hnames
      cases hnames
      rcases hvalue with hdelta | ⟨old, hsum⟩
      · exact .inr ⟨hfield, hdelta.symm⟩
      · cases Value.isNumeric_of_add hsum
    · rw [if_neg hfield] at hnames
      cases current with
      | none => cases hnames
      | some document => exact .inl ⟨document, rfl, Document.names_eq_true.mpr hnames⟩

/-- The same for the writes on one key, in their order. -/
theorem names_of_applyWrites {owner : String} {writes : List Write} {current : Option Document}
    {made : Document} (h : writes.foldlM applyWrite current = .ok (some made))
    (hnames : made.names owner = true) :
    (∃ document, current = some document ∧ document.names owner = true) ∨
      ∃ write ∈ writes, write.Names owner := by
  induction writes generalizing current with
  | nil =>
    cases h
    exact .inl ⟨made, rfl, hnames⟩
  | cons write writes ih =>
    rw [List.foldlM_cons] at h
    cases hwrite : applyWrite current write with
    | error error =>
      rw [hwrite] at h
      cases h
    | ok between =>
      rw [hwrite] at h
      rcases ih h with ⟨document, rfl, hbetween⟩ | ⟨later, hlater, hput⟩
      · rcases names_of_applyWrite hwrite hbetween with hbefore | hput
        · exact .inl hbefore
        · exact .inr ⟨write, List.mem_cons_self, hput⟩
      · exact .inr ⟨later, List.mem_cons_of_mem _ hlater, hput⟩

/-- After a commit a document names an owner only if it did before, or the attempt
has put the name there. -/
theorem Commits.names {db left : Database} {attempt : Attempt} (h : db.Commits attempt left)
    {key : DocKey} {owner : String} (hnamed : left.table.NamesAt key owner) :
    db.table.NamesAt key owner ∨ ∃ write, (key, write) ∈ attempt.writes ∧ write.Names owner := by
  obtain ⟨made, hmade, hnames⟩ := hnamed
  have happlied := h.applied key
  rw [hmade] at happlied
  rcases names_of_applyWrites happlied hnames with hbefore | ⟨write, hwrite, hput⟩
  · exact .inl hbefore
  · exact .inr ⟨write, mem_writesOn.mp hwrite, hput⟩

end Database

end Shardwise
