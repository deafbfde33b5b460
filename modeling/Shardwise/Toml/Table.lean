import Shardwise.Datum

/-!
# Tables of TOML

A document is built up by headers and by keys with values.  A header `[a.b]` opens
a table and implies the tables on the way to it; a dotted key `a.b = 1` makes
tables too.  How a table came to be decides what may still be added to it, and
`Origin` keeps that.

`Entries.openTable` and `Entries.openItem` do what a header says, and
`Entries.insert` adds a value under a dotted key; each fails where the document
says something twice.  An array of tables is entered at its last table.
-/

namespace Shardwise.Toml

/-- How a table came to be. -/
inductive Origin where
  /-- A header of a table inside it implies it. -/
  | implied
  /-- A dotted key made it. -/
  | dotted
  /-- A header opened it. -/
  | opened
deriving DecidableEq, Repr

/-- What stands under a key. -/
inductive Node where
  | value (datum : Datum)
  | table (origin : Origin) (entries : List (String × Node))
  /-- An array of tables, one per header. -/
  | tables (items : List (List (String × Node)))

instance : Inhabited Node := ⟨.value .null⟩

/-- The keys of a table with what stands under them. -/
abbrev Entries := List (String × Node)

namespace Entries

/-- Sets what stands under a key. -/
def put (entries : Entries) (key : String) (node : Node) : Entries :=
  if (entries.lookup key).isSome then
    entries.map fun entry => if entry.1 == key then (key, node) else entry
  else entries ++ [(key, node)]

/-- Changes the last table of an array. -/
def changeLast (items : List Entries) (change : Entries → Option Entries) :
    Option (List Entries) := do
  let last ← items.getLast?
  return items.dropLast ++ [← change last]

/-- Changes the table at the end of a path.  Tables on the way that are not there
are implied. -/
def changeAt (change : Entries → Option Entries) : List String → Entries → Option Entries
  | [], entries => change entries
  | key :: path, entries =>
    match entries.lookup key with
    | none => do return entries.put key (.table .implied (← changeAt change path []))
    | some (.table origin inner) => do
      return entries.put key (.table origin (← changeAt change path inner))
    | some (.tables items) => do
      return entries.put key (.tables (← changeLast items (changeAt change path)))
    | some (.value _) => none

/-- Opens the table of a header `[...]` that ends in `key`.  Only a table that was
implied may be there already. -/
def openTable (key : String) (entries : Entries) : Option Entries :=
  match entries.lookup key with
  | none => some (entries.put key (.table .opened []))
  | some (.table .implied inner) => some (entries.put key (.table .opened inner))
  | some _ => none

/-- Opens a further table of the array of a header `[[...]]` that ends in `key`. -/
def openItem (key : String) (entries : Entries) : Option Entries :=
  match entries.lookup key with
  | none => some (entries.put key (.tables [[]]))
  | some (.tables items) => some (entries.put key (.tables (items ++ [[]])))
  | some _ => none

/-- Adds a value under a dotted key, which must not be there.  `fits` says whether
a value may stand in this table itself: in the table that a header opened, and in
tables that dotted keys made. -/
def insert (datum : Datum) : Bool → List String → Entries → Option Entries
  | _, [], _ => none
  | fits, [key], entries =>
    if fits && (entries.lookup key).isNone then some (entries.put key (.value datum)) else none
  | _, key :: path, entries =>
    match entries.lookup key with
    | none => do return entries.put key (.table .dotted (← insert datum true path []))
    | some (.table .dotted inner) => do
      return entries.put key (.table .dotted (← insert datum true path inner))
    | some (.table .implied inner) => do
      return entries.put key (.table .implied (← insert datum false path inner))
    | some (.tables items) => do
      return entries.put key (.tables (← changeLast items (insert datum false path)))
    | some _ => none

end Entries

mutual

/-- The data under a key. -/
def Node.datum : Node → Datum
  | .value datum => datum
  | .table _ entries => .record (entriesData entries)
  | .tables items => .list (itemsData items)

/-- The data of the tables of an array. -/
def itemsData : List Entries → List Datum
  | [] => []
  | entries :: items => .record (entriesData entries) :: itemsData items

/-- The data of a table. -/
def entriesData : Entries → List (String × Datum)
  | [] => []
  | (key, node) :: entries => (key, node.datum) :: entriesData entries

end

end Shardwise.Toml
