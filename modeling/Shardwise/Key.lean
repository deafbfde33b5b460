import Std.Data.ExtTreeMap

/-!
# Document keys

A document lives in a collection under a name.  Keys are ordered by collection
first and name second, both by code points; `DocKey.instTransOrd` and
`DocKey.instLawfulEqOrd` make them usable as keys of ordered maps.
-/

namespace Shardwise

/-- The key of a document. -/
structure DocKey where
  /-- The collection that the document lives in. -/
  collection : String
  /-- The name of the document in its collection. -/
  name : String
deriving DecidableEq, Repr, Inhabited

namespace DocKey

instance : Ord DocKey := ⟨compareLex (compareOn collection) (compareOn name)⟩

instance instTransOrd : Std.TransOrd DocKey :=
  inferInstanceAs (Std.TransCmp (compareLex (compareOn collection) (compareOn name)))

instance instLawfulEqOrd : Std.LawfulEqOrd DocKey where
  eq_of_compare {a b} h := by
    change compareLex (compareOn collection) (compareOn name) a b = .eq at h
    cases a; cases b
    simp_all [compareLex, compareOn, Ordering.then_eq_eq]

/-- The form of a key in messages. -/
def display (key : DocKey) : String := key.collection ++ "/" ++ key.name

end DocKey

end Shardwise
