import Shardwise.Key

/-!
# Errors

Every operation that can fail returns an `Error`.  A store error says during
which operation, for which owner and on which document it arose; where the store
does not know, `Error.withStoreContext` fills in what its caller knows, and what
is filled in already stays.  `Error.message` is the wording.
-/

namespace Shardwise

/-- Why an operation failed. -/
inductive Error where
  /-- The context was cancelled, or its deadline has passed. -/
  | canceled (reason : String)
  /-- A name is empty, a shard count is unusable, or a setting is. -/
  | invalidConfiguration (message : String)
  /-- An argument is out of range. -/
  | invalidInput (message : String)
  /-- The attempt does not take operations. -/
  | notInTransaction (state : String)
  /-- A write phase came without its read phase in the same attempt. -/
  | missingReadPhase (owner reason : String)
  /-- A field does not hold what was expected of it. -/
  | typeMismatch (field expected actual : String)
  /-- A number does not fit the width of a code. -/
  | capacityExceeded (widthBits : Nat) (number : Nat)
  /-- What an attempt read has changed before its commit. -/
  | conflict (reason : String)
  /-- The store failed. -/
  | store (operation collection owner key message : String)
deriving DecidableEq, Repr

namespace Error

/-- A store error that does not know yet where it arose. -/
def ofStore (message : String) : Error := .store "" "" "" "" message

/-- `known` where it says something, and otherwise `supplied`. -/
def filled (known supplied : String) : String := if known.isEmpty then supplied else known

/-- Fills the empty fields of a store error; other errors stay as they are. -/
def withStoreContext (operation owner : String) (key : DocKey) : Error → Error
  | .store op collection own name message =>
    .store (filled op operation) (filled collection key.collection) (filled own owner)
      (filled name key.name) message
  | other => other

/-- The wording of an error. -/
def message : Error → String
  | .canceled reason => s!"canceled: {reason}"
  | .invalidConfiguration message => s!"invalid configuration: {message}"
  | .invalidInput message => s!"invalid input: {message}"
  | .notInTransaction state => s!"not in an active transaction (state: {state})"
  | .missingReadPhase owner reason => s!"missing read phase for '{owner}': {reason}"
  | .typeMismatch field expected actual =>
    s!"type mismatch on field '{field}': expected {expected}, found {actual}"
  | .capacityExceeded widthBits number =>
    s!"number {number} does not fit in a {widthBits}-bit code"
  | .conflict reason => s!"transaction conflict: {reason}"
  | .store operation collection owner key message =>
    s!"store error during {operation} on {collection}/{key} (owner '{owner}'): {message}"

/-- An optimistic conflict: the attempt may be tried again. -/
def isConflict : Error → Bool
  | .conflict .. => true
  | _ => false

/-- The context was done. -/
def isCanceled : Error → Bool
  | .canceled .. => true
  | _ => false

/-- The store failed. -/
def isStoreError : Error → Bool
  | .store .. => true
  | _ => false

/-- The caller made a mistake, and trying again does not help. -/
def isMisuse : Error → Bool
  | .invalidConfiguration .. | .invalidInput .. => true
  | .notInTransaction .. | .missingReadPhase .. => true
  | _ => false

end Error

/-- Fills the empty fields of a store error, if there is one. -/
def withStoreContext {α : Type} (operation owner : String) (key : DocKey)
    (outcome : Except Error α) : Except Error α :=
  outcome.mapError (Error.withStoreContext operation owner key)

end Shardwise
