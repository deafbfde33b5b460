import Shardwise.Store.Env

/-!
# Requests to the store

What an operation may ask of the store: outside transactions of the documents
that are there, and inside an attempt of what the attempt reads and keeps for its
commit.  A request that fails changes nothing.

Shards are chosen at random.  The random numbers are a list in the environment:
each choice takes the first, and the shard is its remainder by the number of
shards.  When none is left the first shard is chosen.
-/

namespace Shardwise

variable {υ α : Type}

/-! ## Outside transactions -/

namespace Op

/-- Reads from the store. -/
def ask (request : Store → Except Error α) : Op υ α := do
  ofExcept (request (← env).store)

@[simp] theorem runIn_ask (request : Store → Except Error α) (env : Env υ) :
    (ask request).runIn env = (request env.store, env) := rfl

/-- Changes the store, unless the request fails. -/
def change (request : Store → Except Error Store) : Op υ Unit := do
  let env ← env
  let store ← ofExcept (request env.store)
  setEnv { env with store }

@[simp] theorem runIn_change (request : Store → Except Error Store) (env : Env υ) :
    (change request).runIn env =
      match request env.store with
      | .ok store => (.ok (), { env with store })
      | .error error => (.error error, env) := by
  cases h : request env.store <;> simp [change, h]

/-- The document stored under a key. -/
def get (ctx : Context) (key : DocKey) : Op υ (Option Document) := do
  check ctx
  ask (·.get key)

/-- The documents of a collection whose `field` agrees with `value`, ordered by
key. -/
def query (ctx : Context) (collection field : String) (value : Value) :
    Op υ (List (DocKey × Document)) := do
  check ctx
  ask (·.query collection field value)

/-- Removes a document. -/
def delete (ctx : Context) (key : DocKey) : Op υ Unit := do
  check ctx
  change (·.delete key)

/-- Stores a document. -/
def insert (key : DocKey) (document : Document) : Op υ Unit := change (·.insert key document)

/-- Begins an attempt. -/
def begin : Op υ Attempt := do
  let env ← env
  let (attempt, store) ← ofExcept env.store.begin
  setEnv { env with store }
  return attempt

@[simp] theorem runIn_begin (env : Env υ) :
    begin.runIn env =
      match env.store.begin with
      | .ok (attempt, store) => (.ok attempt, { env with store })
      | .error error => (.error error, env) := by
  rcases h : env.store.begin with error | ⟨attempt, store⟩ <;> simp [begin, h]

end Op

/-! ## Inside an attempt -/

namespace TxOp

/-- Fails if a context is done. -/
def check (ctx : Context) : TxOp υ Unit := ofOp (Op.check ctx)

/-- Changes the attempt, unless the change fails. -/
def change (request : Attempt → Except Error Attempt) : TxOp υ Unit := do
  setAttempt (← ofExcept (request (← attempt)))

@[simp] theorem runIn_change (request : Attempt → Except Error Attempt) (attempt : Attempt)
    (env : Env υ) :
    (change request).runIn attempt env =
      match request attempt with
      | .ok changed => (.ok (), changed, env)
      | .error error => (.error error, attempt, env) := by
  cases h : request attempt <;> simp [change, h]

/-- Reads a document. -/
def get (key : DocKey) : TxOp υ (Option Document) := do
  let (document, changed) ← ofExcept ((← attempt).get (← env).store.table key)
  setAttempt changed
  return document

@[simp] theorem runIn_get (key : DocKey) (attempt : Attempt) (env : Env υ) :
    (get key).runIn attempt env =
      match attempt.get env.store.table key with
      | .ok (document, changed) => (.ok document, changed, env)
      | .error error => (.error error, attempt, env) := by
  rcases h : attempt.get env.store.table key with error | ⟨document, changed⟩ <;>
    simp [get, h]

/-- Stores a document, or with `merge` some fields of it. -/
def set (key : DocKey) (fields : Fields) (merge : Bool) : TxOp υ Unit :=
  change (·.set key fields merge)

/-- Adds a number to a field. -/
def increment (key : DocKey) (field : String) (delta : Value) : TxOp υ Unit :=
  change (·.increment key field delta)

/-- Removes a document. -/
def delete (key : DocKey) : TxOp υ Unit := change (·.delete key)

/-- Takes a random number and chooses one of `numShards` shards by it. -/
def pickShard (numShards : Nat) : TxOp υ Nat := do
  let env ← env
  ofOp (Op.setEnv { env with picks := env.picks.tail })
  return env.picks.headD 0 % numShards

@[simp] theorem runIn_pickShard (numShards : Nat) (attempt : Attempt) (env : Env υ) :
    (pickShard numShards).runIn attempt env =
      (.ok (env.picks.headD 0 % numShards), attempt, { env with picks := env.picks.tail }) := by
  simp [pickShard]

end TxOp

end Shardwise
