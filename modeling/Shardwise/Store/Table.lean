import Shardwise.Document
import Shardwise.Key

/-!
# The committed documents

A `Table` holds each committed document with the version of the commit that last
wrote it.  Absence reads as version 0.  A scan returns documents in the order of
their keys.

`Table.get?` is the view that the other operations are described by: `get?_put`,
`get?_remove` and `mem_scan` say what each does to it, and `ext_get?` that tables
with the same view are the same.
-/

namespace Shardwise

/-- A committed document and the version that wrote it. -/
structure Stored where
  version : UInt64
  document : Document

/-- The committed documents. -/
structure Table where
  entries : Std.ExtTreeMap DocKey Stored := ∅

namespace Table

instance : Inhabited Table := ⟨{}⟩

/-- What is stored under a key. -/
def get? (table : Table) (key : DocKey) : Option Stored := table.entries[key]?

theorem ext_get? {a b : Table} (h : ∀ key, a.get? key = b.get? key) : a = b := by
  cases a; cases b
  exact congrArg mk (Std.ExtTreeMap.ext_getElem? h)

/-- The document stored under a key. -/
def document? (table : Table) (key : DocKey) : Option Document :=
  (table.get? key).map Stored.document

/-- The version of a key, 0 where nothing is stored. -/
def versionOf (table : Table) (key : DocKey) : UInt64 :=
  ((table.get? key).map Stored.version).getD 0

/-- Stores a document at a version. -/
def put (table : Table) (key : DocKey) (document : Document) (version : UInt64) : Table :=
  ⟨table.entries.insert key ⟨version, document⟩⟩

theorem get?_put (table : Table) (key other : DocKey) (document : Document)
    (version : UInt64) :
    (table.put key document version).get? other =
      if key = other then some ⟨version, document⟩ else table.get? other := by
  simp [get?, put, Std.ExtTreeMap.getElem?_insert]

/-- Removes a document. -/
def remove (table : Table) (key : DocKey) : Table := ⟨table.entries.erase key⟩

theorem get?_remove (table : Table) (key other : DocKey) :
    (table.remove key).get? other = if key = other then none else table.get? other := by
  simp [get?, remove, Std.ExtTreeMap.getElem?_erase]

/-- All entries, ordered by key. -/
def toList (table : Table) : List (DocKey × Stored) := table.entries.toList

theorem mem_toList {table : Table} {key : DocKey} {stored : Stored} :
    (key, stored) ∈ table.toList ↔ table.get? key = some stored :=
  Std.ExtTreeMap.mem_toList_iff_getElem?_eq_some

/-- The documents of a collection whose `field` agrees with `value`, ordered by
key. -/
def scan (table : Table) (collection field : String) (value : Value) :
    List (DocKey × Document) :=
  let matching := table.toList.filter fun (key, stored) =>
    key.collection == collection && stored.document.get? field == some value
  matching.map fun (key, stored) => (key, stored.document)

theorem mem_scan {table : Table} {collection field : String} {value : Value} {key : DocKey}
    {document : Document} :
    (key, document) ∈ table.scan collection field value ↔
      table.document? key = some document ∧ key.collection = collection ∧
        (document.get? field == some value) = true := by
  simp [scan, document?, mem_toList]
  grind

/-- The number of documents. -/
def size (table : Table) : Nat := table.entries.size

end Table

end Shardwise
