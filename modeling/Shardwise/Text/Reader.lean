import Shardwise.Text.Blank

/-!
# Readers of text

A `Reader` takes a value off the front of a list of characters, or fails and
takes nothing.  The alternative of two readers tries the second where the first
fails.  `Reader.many` repeats a reader as long as it succeeds; the length of the
rest bounds the repetitions, so that every reader ends.
-/

namespace Shardwise.Text

/-- Takes a value off the front of the characters, or fails. -/
abbrev Reader := StateT (List Char) Option

namespace Reader

variable {α : Type}

/-- The next character, which stays where it is. -/
def next? : Reader (Option Char) := return (← get).head?

/-- One character of a class. -/
def charIf (accepts : Char → Bool) : Reader Char := do
  match ← get with
  | c :: rest => if accepts c then set rest; return c else failure
  | [] => failure

/-- The character `c`. -/
def char (c : Char) : Reader Unit := discard (charIf (· == c))

/-- The characters of `text`, in their order. -/
def literal (text : String) : Reader Unit := do
  let rest ← get
  if text.toList.isPrefixOf rest then set (rest.drop text.length) else failure

/-- The longest run of characters of a class, at most `most` of them. -/
def takeUpTo (most : Nat) (accepts : Char → Bool) : Reader (List Char) := do
  let rest ← get
  let taken := (rest.take most).takeWhile accepts
  set (rest.drop taken.length)
  return taken

/-- The longest run of characters of a class. -/
def takeWhile (accepts : Char → Bool) : Reader (List Char) := do
  let (taken, rest) := (← get).span accepts
  set rest
  return taken

/-- The longest run of characters of a class, which must not be empty. -/
def takeWhile1 (accepts : Char → Bool) : Reader (List Char) := do
  let taken ← takeWhile accepts
  if taken.isEmpty then failure else return taken

/-- Succeeds at the end of the text. -/
def atEnd : Reader Unit := do
  if (← get).isEmpty then return () else failure

/-- The value of a reader, if it succeeds. -/
def optional? (reader : Reader α) : Reader (Option α) :=
  (some <$> reader) <|> pure none

/-- At most `most` repetitions of a reader. -/
def manyUpTo (reader : Reader α) : Nat → Reader (List α)
  | 0 => pure []
  | most + 1 => do
    match ← optional? reader with
    | some value => return value :: (← manyUpTo reader most)
    | none => return []

/-- As many repetitions of a reader as there are.  The reader takes at least one
character each time, so the length of the text bounds their number. -/
def many (reader : Reader α) : Reader (List α) := do
  manyUpTo reader (← get).length

/-- Values with a separator between each two of them; there may be none. -/
def sepBy (value : Reader α) (separator : Reader Unit) : Reader (List α) := do
  match ← optional? value with
  | some first => return first :: (← many (separator *> value))
  | none => return []

/-- What a reader makes of a whole text. -/
def readAll (reader : Reader α) (text : String) : Option α :=
  (StateT.run (reader <* atEnd) text.toList).map Prod.fst

/-- Leaves out white space. -/
def blanks : Reader Unit := discard (takeWhile isBlank)

/-- The number that decimal digits write. -/
def numberOfDigits (digits : List Char) : Nat :=
  digits.foldl (fun n c => 10 * n + (c.toNat - '0'.toNat)) 0

/-- A decimal number of one to `most` digits. -/
def decimalUpTo (most : Nat) : Reader Nat := do
  let digits ← takeUpTo most Char.isDigit
  if digits.isEmpty then failure else return numberOfDigits digits

/-- A decimal number of exactly `count` digits. -/
def decimalOf (count : Nat) : Reader Nat := do
  let digits ← takeUpTo count Char.isDigit
  if digits.length == count then return numberOfDigits digits else failure

end Reader

end Shardwise.Text
