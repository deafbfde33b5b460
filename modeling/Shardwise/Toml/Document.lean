import Shardwise.Toml.Scalar
import Shardwise.Toml.Table

/-!
# Documents of TOML

`Toml.ofText?` reads a settings document: lines with keys and values, and headers
that say which table the following lines belong to.  Arrays and inline tables are
nested at most 79 deep, and dotted keys have at most 79 parts.
-/

namespace Shardwise.Toml

open Text

/-- How deep arrays and inline tables are nested at most, and how many parts a
dotted key has. -/
def deepest : Nat := 79

/-! ## Lines -/

/-- A comment, up to the end of the line. -/
def readComment : Reader Unit := do
  Reader.char '#'
  discard (Reader.takeWhile isVisible)

/-- What may stand behind a value or a header. -/
def readLineEnd : Reader Unit := do
  readSpaces
  discard (Reader.optional? readComment)
  readNewline <|> Reader.atEnd

/-- White space, comments and line ends inside an array. -/
def readGaps : Reader Unit :=
  let gap := discard (Reader.takeWhile1 isSpace) <|> readNewline <|> readComment
  discard (Reader.many gap)

/-! ## Keys -/

/-- A key without dots. -/
def readSimpleKey : Reader String :=
  let bare := do
    let cs ← Reader.takeWhile1 fun c => c.isAlphanum || c == '-' || c == '_'
    return String.ofList cs
  readBasic <|> readLiteral <|> bare

/-- A dotted key. -/
def readKey : Reader (List String) := do
  let part := readSpaces *> readSimpleKey <* readSpaces
  let keys ← Reader.sepBy part (Reader.char '.')
  if keys.isEmpty || deepest < keys.length then failure else return keys

/-! ## Values -/

/-- A key and its value. -/
def readPair (value : Reader Datum) : Reader (List String × Datum) := do
  let key ← readKey
  Reader.char '='
  readSpaces
  return (key, ← value)

/-- The table that keys with values make up. -/
def inlineTable (pairs : List (List String × Datum)) : Option Datum := do
  let entries ← pairs.foldlM (fun entries (key, datum) => Entries.insert datum true key entries)
    ([] : Entries)
  return .record (entriesData entries)

/-- A value with arrays and inline tables nested at most as deep as given; scalars
count for nothing. -/
def readValue : Nat → Reader Datum
  | 0 => readScalar
  | depth + 1 =>
    let item := readGaps *> readValue depth <* readGaps
    let array : Reader Datum := do
      Reader.char '['
      let items ← Reader.sepBy item (Reader.char ',')
      if !items.isEmpty then discard (Reader.optional? (Reader.char ','))
      readGaps
      Reader.char ']'
      return .list items
    let table : Reader Datum := do
      Reader.char '\x7b'
      let pair := readPair (readValue depth) <* readSpaces
      let pairs ← Reader.sepBy pair (Reader.char ',')
      readSpaces
      Reader.char '\x7d'
      match inlineTable pairs with
      | some datum => return datum
      | none => failure
    array <|> table <|> readScalar

/-! ## Documents -/

/-- A line of a document. -/
inductive Line where
  | blank
  /-- A header `[...]`. -/
  | table (path : List String)
  /-- A header `[[...]]`. -/
  | item (path : List String)
  | pair (key : List String) (datum : Datum)

/-- A line, up to and with its end.  A blank line has at least one character. -/
def readLine : Reader Line := do
  readSpaces
  let blank := (readComment *> (readNewline <|> Reader.atEnd)) <|> readNewline
  let item := Reader.literal "[[" *> readKey <* Reader.literal "]]" <* readLineEnd
  let table := Reader.char '[' *> readKey <* Reader.char ']' <* readLineEnd
  let pair := readPair (readValue deepest) <* readLineEnd
  (blank *> pure .blank) <|> (.item <$> item) <|> (.table <$> table) <|>
    ((fun (key, datum) => .pair key datum) <$> pair)

/-- All lines of a document. -/
def readLines : Reader (List Line) := do
  discard (Reader.optional? (Reader.char '\ufeff'))
  let lines ← Reader.many readLine
  readSpaces
  return lines

/-- A document as far as it was read: its tables, and the path of the open one. -/
structure Draft where
  entries : Entries := []
  path : List String := []

/-- Adds a line to a document. -/
def Draft.add (draft : Draft) : Line → Option Draft
  | .blank => some draft
  | .table path => do
    let key ← path.getLast?
    return ⟨← Entries.changeAt (Entries.openTable key) path.dropLast draft.entries, path⟩
  | .item path => do
    let key ← path.getLast?
    return ⟨← Entries.changeAt (Entries.openItem key) path.dropLast draft.entries, path⟩
  | .pair key datum => do
    let change := Entries.insert datum true key
    return { draft with entries := ← Entries.changeAt change draft.path draft.entries }

/-- The data of a document. -/
def ofText? (text : String) : Option Datum := do
  let lines ← Reader.readAll readLines text
  let draft ← lines.foldlM Draft.add ({} : Draft)
  return .record (entriesData draft.entries)

end Shardwise.Toml
