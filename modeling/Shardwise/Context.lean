import Shardwise.Error

/-!
# Contexts

Every operation takes a context and fails when it is done: when it or a context
it derives from was cancelled, or has a deadline that has come.

A context is the chain of its own link and the links of its ancestors, nearest
first.  Cancelling does not change the context but raises the flag of its own
link, so that all copies and all descendants of it see the change.  `Flags` says
which flags are raised and hands out fresh ones.  Time is counted in
milliseconds from a fixed moment.
-/

namespace Shardwise

/-- The flags that contexts are cancelled by. -/
structure Flags where
  /-- The flags handed out are the numbers below this one. -/
  issued : Nat := 0
  /-- The flags of cancelled contexts. -/
  raised : List Nat := []
deriving Repr

/-- One context of a chain: its flag, and its own deadline if it has one. -/
structure Link where
  flag : Nat
  deadline : Option Int
deriving DecidableEq, Repr

/-- A context: its own link, and those of the contexts it derives from. -/
structure Context where
  own : Link
  ancestors : List Link
deriving DecidableEq, Repr

namespace Context

/-- The links of a context, its own first. -/
def chain (ctx : Context) : List Link := ctx.own :: ctx.ancestors

/-! ## Making and cancelling -/

/-- A context that derives from no other. -/
def background (flags : Flags) : Context × Flags :=
  (⟨⟨flags.issued, none⟩, []⟩, { flags with issued := flags.issued + 1 })

/-- A context that derives from `parent`, with a deadline of its own if one is
given. -/
def derive (parent : Context) (deadline : Option Int) (flags : Flags) : Context × Flags :=
  (⟨⟨flags.issued, deadline⟩, parent.chain⟩, { flags with issued := flags.issued + 1 })

/-- A context that ends with its parent. -/
def child (parent : Context) (flags : Flags) : Context × Flags := parent.derive none flags

/-- A context that ends with its parent or at `deadline`. -/
def withDeadline (parent : Context) (deadline : Int) (flags : Flags) : Context × Flags :=
  parent.derive (some deadline) flags

/-- A context that ends with its parent or `timeout` milliseconds after `now`. -/
def withTimeout (parent : Context) (now timeout : Int) (flags : Flags) : Context × Flags :=
  parent.withDeadline (now + timeout) flags

/-- Cancels a context, its copies and its descendants. -/
def cancel (ctx : Context) (flags : Flags) : Flags :=
  { flags with raised := ctx.own.flag :: flags.raised }

/-! ## Asking -/

/-- One link's reason to be done. -/
def checkLink (flags : Flags) (now : Int) (link : Link) : Except Error Unit :=
  if link.flag ∈ flags.raised then .error (.canceled "context canceled")
  else match link.deadline with
    | some deadline =>
      if deadline ≤ now then .error (.canceled "deadline exceeded") else .ok ()
    | none => .ok ()

/-- Fails if the context is done; the nearest link of the chain gives the
reason. -/
def check (ctx : Context) (flags : Flags) (now : Int) : Except Error Unit :=
  ctx.chain.forM (checkLink flags now)

/-- The context is done. -/
def isDone (ctx : Context) (flags : Flags) (now : Int) : Bool :=
  match ctx.check flags now with
  | .ok _ => false
  | .error _ => true

/-- The earlier of two deadlines, where an absent one never comes. -/
def earlier : Option Int → Option Int → Option Int
  | some a, some b => some (min a b)
  | some a, none => some a
  | none, b => b

/-- The earliest deadline of the chain. -/
def deadline (ctx : Context) : Option Int :=
  ctx.chain.foldr (fun link rest => earlier link.deadline rest) none

end Context

end Shardwise
