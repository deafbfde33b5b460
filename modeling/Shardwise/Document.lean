import Shardwise.Error
import Shardwise.Value

/-!
# Documents

A document is a set of named fields, ordered by name.  Two documents are equal
when they hold the same fields; `Document.beq` is the weaker test by the
contents of the values.  `get?_set` and `get?_merge` say what a change does to
the fields, and `ext_get?` that the fields are all there is to a document.
-/

namespace Shardwise

/-- Named fields. -/
abbrev Fields := Std.ExtTreeMap String Value

/-- A stored document. -/
structure Document where
  fields : Fields := ∅

namespace Document

instance : Inhabited Document := ⟨{}⟩

/-- The value of a field, if there is one. -/
def get? (document : Document) (name : String) : Option Value := document.fields[name]?

theorem ext_get? {a b : Document} (h : ∀ name, a.get? name = b.get? name) : a = b := by
  cases a; cases b
  exact congrArg mk (Std.ExtTreeMap.ext_getElem? h)

/-- The value of a field that must be there. -/
def field (document : Document) (name : String) : Except Error Value :=
  match document.get? name with
  | some value => .ok value
  | none => .error (.typeMismatch name "present field" "missing")

/-- The document with one field set. -/
def set (document : Document) (name : String) (value : Value) : Document :=
  ⟨document.fields.insert name value⟩

theorem get?_set (document : Document) (name other : String) (value : Value) :
    (document.set name value).get? other =
      if name = other then some value else document.get? other := by
  simp [get?, set, Std.ExtTreeMap.getElem?_insert]

/-- The document with some fields set; others stay. -/
def merge (document : Document) (fields : Fields) : Document := ⟨document.fields ∪ fields⟩

theorem get?_merge (document : Document) (fields : Fields) (name : String) :
    (document.merge fields).get? name = fields[name]?.or (document.get? name) := by
  simp [get?, merge, Std.ExtTreeMap.getElem?_union]

/-- The number of fields. -/
def size (document : Document) : Nat := document.fields.size

/-- Both documents have the same field names, with values that agree. -/
protected def beq (a b : Document) : Bool := a.fields.toList == b.fields.toList

instance : BEq Document := ⟨Document.beq⟩

end Document

end Shardwise
