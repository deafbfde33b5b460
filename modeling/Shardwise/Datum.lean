/-!
# Interchange data

A `Datum` is what a settings file or a stored text holds before it is known what
it means: null, truth values, numbers, texts, dates, lists, and records of named
parts.  A part of a record can also be found by its place in a list.
-/

namespace Shardwise

/-- Data of no particular meaning. -/
inductive Datum where
  | null
  | bool (b : Bool)
  /-- A number written without fraction and exponent. -/
  | int (n : Int)
  | float (x : Float)
  | text (s : String)
  /-- A date or a time, as it is written. -/
  | date (s : String)
  | list (items : List Datum)
  /-- Named parts; no name occurs twice. -/
  | record (parts : List (String × Datum))

namespace Datum

instance : Inhabited Datum := ⟨.null⟩

/-- The part of a record with a name. -/
def get? (datum : Datum) (name : String) : Option Datum :=
  match datum with
  | .record parts => parts.lookup name
  | _ => none

/-- A record from parts in the order they were written; a later part replaces an
earlier one of the same name. -/
def ofParts (parts : List (String × Datum)) : Datum :=
  .record <| parts.foldl (fun kept part => (kept.filter (·.1 != part.1)) ++ [part]) []

/-- A part of data that stands for the fields `names`: the part with the name, or
in a list the item at the name's place. -/
def part? (names : List String) (name : String) : Datum → Option Datum
  | .record parts => parts.lookup name
  | .list items => items[names.idxOf name]?
  | _ => none

end Datum

end Shardwise
