import Mathlib.Order.Bounds.Basic
import Shardwise.Proofs.Context

/-!
# Trees of contexts

A context is a chain of links, and nothing in it points to the contexts that it was made
from.  `Grove` keeps the trees beside the chains: each context that is held has a node, and
a node says which node it derives from and which deadline it was given.  Copies of a context
share its node, and so do their cancellations.

* `Grove.Above` follows the nodes up to the root, and `Grove.Ended` says of one node that it
  was cancelled or that its deadline has come.
* `Grove.Chained` says that a chain has the links of the nodes above a node, and
  `Grove.Sound` that this is so for all contexts that are held.  Every action keeps it
  (`Sound.act`).
* `Context.deadline_eq_some_iff` is what a chain makes of its deadlines, and
  `Context.check_congr` what its check depends on.
* `Grove.done_along_chain` is the result: a context is done by what happened to the nodes
  above its own, and by nothing else.
-/

namespace Shardwise

/-- What a context was made of: the node that it derives from, if it derives from any, and the
deadline that it was given. -/
structure Grove.Node where
  parent : Option Nat
  deadline : Option Int

/-- Contexts with the trees that they form. -/
structure Grove where
  flags : Flags := {}
  /-- The contexts in the order in which they were made, each with its node. -/
  held : List (Context × Nat) := []
  nodes : List Grove.Node := []
  /-- The nodes that were cancelled. -/
  cancelled : List Nat := []

/-! ## Chains -/

namespace Context

@[simp] theorem earlier_none (deadline : Option Int) : earlier none deadline = deadline := rfl

@[simp] theorem earlier_some_none (deadline : Int) :
    earlier (some deadline) none = some deadline := rfl

@[simp] theorem earlier_some (deadline other : Int) :
    earlier (some deadline) (some other) = some (min deadline other) := rfl

/-- A chain ends at the earliest of its deadlines.  The induction is on the links. -/
theorem foldr_earlier_cases (links : List Link) :
    (links.foldr (fun link rest => earlier link.deadline rest) none = none ∧
        ∀ link ∈ links, link.deadline = none) ∨
      ∃ deadline, links.foldr (fun link rest => earlier link.deadline rest) none = some deadline ∧
        IsLeast {d | ∃ link ∈ links, link.deadline = some d} deadline := by
  induction links with
  | nil => simp
  | cons link links ih =>
    simp only [List.foldr_cons, List.mem_cons, exists_eq_or_imp, forall_eq_or_imp]
    cases hown : link.deadline with
    | none =>
      simpa using ih
    | some own =>
      right
      rcases ih with ⟨hrest, hnone⟩ | ⟨deadline, hrest, ⟨other, hmem, hother⟩, hlower⟩
      · rw [hrest, earlier_some_none]
        refine ⟨own, rfl, .inl rfl, fun d hd => ?_⟩
        rcases hd with hd | ⟨other, hmem, hother⟩
        · exact (Option.some.inj hd).le
        · simp [hnone other hmem] at hother
      · rw [hrest, earlier_some]
        refine ⟨min own deadline, rfl, ?_, fun d hd => ?_⟩
        · rcases le_total own deadline with hle | hle
          · rw [min_eq_left hle]
            exact .inl rfl
          · rw [min_eq_right hle]
            exact .inr ⟨other, hmem, hother⟩
        · rcases hd with hd | hd
          · exact (min_le_left _ _).trans (Option.some.inj hd).le
          · exact (min_le_right _ _).trans (hlower hd)

theorem deadline_eq_some_iff (ctx : Context) (deadline : Int) :
    ctx.deadline = some deadline ↔
      IsLeast {d | ∃ link ∈ ctx.chain, link.deadline = some d} deadline := by
  rcases foldr_earlier_cases ctx.chain with ⟨hnone, hlinks⟩ | ⟨least, hsome, hleast⟩
  · rw [Context.deadline, hnone]
    constructor
    · intro h
      cases h
    · intro h
      obtain ⟨link, hmem, hlink⟩ := h.1
      simp [hlinks link hmem] at hlink
  · rw [Context.deadline, hsome, Option.some.injEq]
    constructor
    · intro h
      exact h ▸ hleast
    · intro h
      exact hleast.unique h

theorem deadline_eq_none_iff (ctx : Context) :
    ctx.deadline = none ↔ ∀ link ∈ ctx.chain, link.deadline = none := by
  rcases foldr_earlier_cases ctx.chain with ⟨hnone, hlinks⟩ | ⟨least, hsome, hleast⟩
  · rw [Context.deadline, hnone]
    exact iff_of_true rfl hlinks
  · obtain ⟨link, hmem, hlink⟩ := hleast.1
    rw [Context.deadline, hsome]
    refine iff_of_false (by simp) fun h => ?_
    simp [h link hmem] at hlink

/-- Where nothing was cancelled, the deadline decides. -/
theorem done_iff_deadline {ctx : Context} {flags : Flags} {now : Int}
    (hlive : ∀ link ∈ ctx.chain, link.flag ∉ flags.raised) :
    ctx.Done flags now ↔ ∃ deadline, ctx.deadline = some deadline ∧ deadline ≤ now := by
  constructor
  · intro hdone
    obtain ⟨link, hmem, hended⟩ := hdone
    obtain ⟨own, hown, hcome⟩ := hended.resolve_left (hlive link hmem)
    cases hdeadline : ctx.deadline with
    | none => simp [ctx.deadline_eq_none_iff.mp hdeadline link hmem] at hown
    | some deadline =>
      have hleast := (ctx.deadline_eq_some_iff deadline).mp hdeadline
      exact ⟨deadline, rfl, (hleast.2 ⟨link, hmem, hown⟩).trans hcome⟩
  · intro hdeadline
    obtain ⟨deadline, hdeadline, hcome⟩ := hdeadline
    obtain ⟨link, hmem, hown⟩ := ((ctx.deadline_eq_some_iff deadline).mp hdeadline).1
    exact ⟨link, hmem, .inr ⟨deadline, hown, hcome⟩⟩

/-- Only the flags of the chain matter to a check. -/
theorem check_congr {ctx : Context} {flags other : Flags}
    (h : ∀ link ∈ ctx.chain, link.flag ∈ other.raised ↔ link.flag ∈ flags.raised) (now : Int) :
    ctx.check other now = ctx.check flags now := by
  unfold check
  generalize ctx.chain = links at h
  induction links with
  | nil => rfl
  | cons link links ih =>
    rw [List.forall_mem_cons] at h
    have hfirst : checkLink other now link = checkLink flags now link := by
      simp only [checkLink, h.1]
    rw [forM_checkLink_cons, forM_checkLink_cons, hfirst, ih h.2]

/-- Flags stay raised and deadlines stay past. -/
theorem Done.mono {ctx : Context} {flags other : Flags} {now later : Int}
    (h : ctx.Done flags now) (hraised : ∀ flag ∈ flags.raised, flag ∈ other.raised)
    (hlater : now ≤ later) : ctx.Done other later := by
  obtain ⟨link, hmem, hended⟩ := h
  refine ⟨link, hmem, ?_⟩
  rcases hended with hflag | ⟨deadline, hdeadline, hcome⟩
  · exact .inl (hraised _ hflag)
  · exact .inr ⟨deadline, hdeadline, hcome.trans hlater⟩

theorem isDone_iff {ctx : Context} {flags : Flags} {now : Int} :
    ctx.isDone flags now = true ↔ ctx.Done flags now := by
  rcases ctx.check_cases flags now with ⟨hdone, reason, hcheck⟩ | ⟨hlive, hcheck⟩
  · simp [isDone, hcheck, hdone]
  · simp [isDone, hcheck, hlive]

end Context

namespace Grove

/-! ## What is done with contexts -/

/-- What is done with contexts.  They are named by their place among those that are held. -/
inductive Action where
  | background
  | child (place : Nat)
  /-- Copies a context. -/
  | clone (place : Nat)
  | withDeadline (place : Nat) (deadline : Int)
  | withTimeout (place : Nat) (now timeout : Int)
  | cancel (place : Nat)

/-- Holds one more context, which has a new node. -/
def grow (grove : Grove) (made : Context × Flags) (node : Node) : Grove :=
  { grove with
    flags := made.2
    held := grove.held ++ [(made.1, grove.nodes.length)]
    nodes := grove.nodes ++ [node] }

/-- Does one thing, and nothing if there is no context at the place. -/
def act (grove : Grove) : Action → Grove
  | .background => grove.grow (Context.background grove.flags) ⟨none, none⟩
  | .child place =>
    match grove.held[place]? with
    | some (ctx, node) => grove.grow (ctx.child grove.flags) ⟨some node, none⟩
    | none => grove
  | .clone place =>
    match grove.held[place]? with
    | some entry => { grove with held := grove.held ++ [entry] }
    | none => grove
  | .withDeadline place deadline =>
    match grove.held[place]? with
    | some (ctx, node) =>
      grove.grow (ctx.withDeadline deadline grove.flags) ⟨some node, some deadline⟩
    | none => grove
  | .withTimeout place now timeout =>
    match grove.held[place]? with
    | some (ctx, node) =>
      grove.grow (ctx.withTimeout now timeout grove.flags) ⟨some node, some (now + timeout)⟩
    | none => grove
  | .cancel place =>
    match grove.held[place]? with
    | some (ctx, node) =>
      { grove with flags := ctx.cancel grove.flags, cancelled := node :: grove.cancelled }
    | none => grove

/-- What some actions make of a grove. -/
def run (grove : Grove) (actions : List Action) : Grove := actions.foldl act grove

/-! ## Trees -/

/-- A node is above itself, and what is above the node that it derives from is above it. -/
inductive Above (nodes : List Node) (ancestor : Nat) : Nat → Prop
  | self : Above nodes ancestor ancestor
  | derived {node parent : Nat} {deadline : Option Int}
      (h : nodes[node]? = some ⟨some parent, deadline⟩) (rest : Above nodes ancestor parent) :
      Above nodes ancestor node

/-- The deadline that a node was given. -/
def deadlineOf (nodes : List Node) (node : Nat) : Option Int := nodes[node]?.bind Node.deadline

/-- The node was cancelled, or its own deadline has come. -/
def Ended (grove : Grove) (now : Int) (node : Nat) : Prop :=
  node ∈ grove.cancelled ∨
    ∃ deadline, deadlineOf grove.nodes node = some deadline ∧ deadline ≤ now

/-- The links are those of the nodes above a node, which they have for flags. -/
inductive Chained (nodes : List Node) : Nat → List Link → Prop
  | root {node : Nat} {deadline : Option Int} (h : nodes[node]? = some ⟨none, deadline⟩) :
      Chained nodes node [⟨node, deadline⟩]
  | derived {node parent : Nat} {deadline : Option Int} {links : List Link}
      (h : nodes[node]? = some ⟨some parent, deadline⟩) (rest : Chained nodes parent links) :
      Chained nodes node (⟨node, deadline⟩ :: links)

variable {grove : Grove} {nodes : List Node} {node ancestor : Nat} {links : List Link}

namespace Chained

/-- Above a node are the nodes of its chain. -/
theorem above_iff (h : Chained nodes node links) :
    Above nodes ancestor node ↔ ∃ link ∈ links, link.flag = ancestor := by
  induction h with
  | @root node deadline hnode =>
    simp only [List.mem_singleton, exists_eq_left]
    constructor
    · intro habove
      cases habove with
      | self => rfl
      | derived hparent _ => simp [hnode] at hparent
    · intro hsame
      rw [← hsame]
      exact .self
  | @derived node parent deadline links hnode rest ih =>
    simp only [List.mem_cons, exists_eq_or_imp, ← ih]
    constructor
    · intro habove
      cases habove with
      | self => exact .inl rfl
      | derived hparent above =>
        simp only [hnode, Option.some.injEq, Node.mk.injEq] at hparent
        rw [hparent.1]
        exact .inr above
    · intro habove
      rcases habove with hsame | above
      · rw [← hsame]
        exact .self
      · exact .derived hnode above

/-- Links have the deadlines of their nodes. -/
theorem deadlineOf_flag (h : Chained nodes node links) :
    ∀ link ∈ links, deadlineOf nodes link.flag = link.deadline := by
  induction h with
  | root hnode => simp [deadlineOf, hnode]
  | derived hnode rest ih =>
    simp only [List.mem_cons, forall_eq_or_imp]
    exact ⟨by simp [deadlineOf, hnode], ih⟩

/-- What is so of a link of the chain is so of a node above, and the other way round. -/
theorem exists_iff (h : Chained nodes node links) (p : Nat → Option Int → Prop) :
    (∃ link ∈ links, p link.flag link.deadline) ↔
      ∃ ancestor, Above nodes ancestor node ∧ p ancestor (deadlineOf nodes ancestor) := by
  constructor
  · intro hlink
    obtain ⟨link, hmem, hp⟩ := hlink
    refine ⟨link.flag, h.above_iff.mpr ⟨link, hmem, rfl⟩, ?_⟩
    rwa [h.deadlineOf_flag link hmem]
  · intro hnode
    obtain ⟨ancestor, habove, hp⟩ := hnode
    obtain ⟨link, hmem, hflag⟩ := h.above_iff.mp habove
    refine ⟨link, hmem, ?_⟩
    rwa [← h.deadlineOf_flag link hmem, hflag]

/-- The flag of a context is its node. -/
theorem own_flag {ctx : Context} (h : Chained nodes node ctx.chain) : ctx.own.flag = node := by
  obtain ⟨own, ancestors⟩ := ctx
  cases h <;> rfl

/-- Nodes that are added later change no chain. -/
theorem append (h : Chained nodes node links) (more : List Node) :
    Chained (nodes ++ more) node links := by
  have hkept : ∀ {node : Nat} {found : Node}, nodes[node]? = some found →
      (nodes ++ more)[node]? = some found := by
    intro node found hfound
    rw [List.getElem?_append_left (List.getElem?_eq_some_iff.mp hfound).1, hfound]
  induction h with
  | root hnode => exact .root (hkept hnode)
  | derived hnode rest ih => exact .derived (hkept hnode) ih

end Chained

/-! ## What actions keep -/

/-- The contexts that are held have the chains of their nodes, and both count the same
cancellations. -/
structure Sound (grove : Grove) : Prop where
  issued : grove.flags.issued = grove.nodes.length
  raised : grove.flags.raised = grove.cancelled
  chained : ∀ entry ∈ grove.held, Chained grove.nodes entry.2 entry.1.chain

/-- A context that is made has the chain of its node. -/
theorem Sound.grow (hsound : grove.Sound) {parent : Option Nat} {deadline : Option Int}
    {ancestors : List Link}
    (hparent : parent = none ∧ ancestors = [] ∨
      ∃ above, parent = some above ∧ Chained grove.nodes above ancestors) :
    (grove.grow (⟨⟨grove.flags.issued, deadline⟩, ancestors⟩,
      { grove.flags with issued := grove.flags.issued + 1 }) ⟨parent, deadline⟩).Sound := by
  refine ⟨by simp [Grove.grow, hsound.issued], hsound.raised, fun entry hmem => ?_⟩
  have hnode : (grove.nodes ++ [⟨parent, deadline⟩])[grove.nodes.length]? =
      some ⟨parent, deadline⟩ := by
    simp
  rcases List.mem_append.mp hmem with hold | hnew
  · exact (hsound.chained entry hold).append _
  · rw [List.mem_singleton.mp hnew, hsound.issued]
    show Chained _ grove.nodes.length (⟨grove.nodes.length, deadline⟩ :: ancestors)
    rcases hparent with ⟨hroot, hnone⟩ | ⟨above, habove, hchained⟩
    · rw [hnone]
      exact .root (hroot ▸ hnode)
    · exact .derived (habove ▸ hnode) (hchained.append _)

theorem Sound.act (hsound : grove.Sound) (action : Action) : (grove.act action).Sound := by
  have hchained : ∀ {place : Nat} {entry : Context × Nat}, grove.held[place]? = some entry →
      Chained grove.nodes entry.2 entry.1.chain := fun hheld =>
    hsound.chained _ (List.mem_of_getElem? hheld)
  cases action with
  | background => exact hsound.grow (.inl ⟨rfl, rfl⟩)
  | child place | withDeadline place _ | withTimeout place _ _ =>
    simp only [Grove.act]
    split
    · rename_i ctx node hheld
      exact hsound.grow (.inr ⟨node, rfl, hchained hheld⟩)
    · exact hsound
  | clone place =>
    simp only [Grove.act]
    split
    · rename_i entry hheld
      refine ⟨hsound.issued, hsound.raised, fun other hmem => ?_⟩
      rcases List.mem_append.mp hmem with hold | hnew
      · exact hsound.chained other hold
      · rw [List.mem_singleton.mp hnew]
        exact hchained hheld
    · exact hsound
  | cancel place =>
    simp only [Grove.act]
    split
    · rename_i ctx node hheld
      have hflag : ctx.own.flag = node := (hchained hheld).own_flag
      refine ⟨hsound.issued, ?_, hsound.chained⟩
      simp [Context.cancel, hflag, hsound.raised]
    · exact hsound

theorem Sound.run (hsound : grove.Sound) (actions : List Action) : (grove.run actions).Sound := by
  induction actions generalizing grove with
  | nil => exact hsound
  | cons action actions ih => exact ih (hsound.act action)

theorem sound_run (actions : List Action) : (run {} actions).Sound :=
  Sound.run ⟨rfl, rfl, by simp⟩ actions

/-- What no action takes back. -/
structure Extends (grove later : Grove) : Prop where
  held : grove.held <+: later.held
  raised : ∀ flag ∈ grove.flags.raised, flag ∈ later.flags.raised

theorem extends_act (grove : Grove) (action : Action) : Extends grove (grove.act action) := by
  cases action with
  | background => exact ⟨List.prefix_append _ _, fun _ h => h⟩
  | child place | clone place | withDeadline place _ | withTimeout place _ _ =>
    simp only [act]
    split
    · exact ⟨List.prefix_append _ _, fun _ h => h⟩
    · exact ⟨List.prefix_rfl, fun _ h => h⟩
  | cancel place =>
    simp only [act]
    split
    · exact ⟨List.prefix_rfl, fun _ h => List.mem_cons_of_mem _ h⟩
    · exact ⟨List.prefix_rfl, fun _ h => h⟩

theorem extends_run (grove : Grove) (actions : List Action) :
    Extends grove (grove.run actions) := by
  induction actions generalizing grove with
  | nil => exact ⟨List.prefix_rfl, fun _ h => h⟩
  | cons action actions ih =>
    obtain ⟨hheld, hraised⟩ := extends_act grove action
    obtain ⟨hheld', hraised'⟩ := ih (grove.act action)
    exact ⟨hheld.trans hheld', fun flag hflag => hraised' flag (hraised flag hflag)⟩

/-! ## Contexts by their trees -/

/-- A context is done if one of the nodes above its own has ended. -/
theorem Sound.done_iff (hsound : grove.Sound) {ctx : Context} (hheld : (ctx, node) ∈ grove.held)
    (now : Int) :
    ctx.Done grove.flags now ↔
      ∃ ancestor, Above grove.nodes ancestor node ∧ grove.Ended now ancestor := by
  have hchained : Chained grove.nodes node ctx.chain := hsound.chained _ hheld
  simp only [Ended, ← hsound.raised]
  exact hchained.exists_iff fun flag deadline =>
    flag ∈ grove.flags.raised ∨ ∃ come, deadline = some come ∧ come ≤ now

/-- A cancellation is not seen by contexts that the cancelled node is not above. -/
theorem Sound.check_cancel (hsound : grove.Sound) {ctx cancelled : Context} {place target : Nat}
    (hheld : (ctx, node) ∈ grove.held) (hplace : grove.held[place]? = some (cancelled, target))
    (hapart : ¬ Above grove.nodes target node) (now : Int) :
    ctx.check (grove.act (.cancel place)).flags now = ctx.check grove.flags now := by
  have hchained : Chained grove.nodes node ctx.chain := hsound.chained _ hheld
  have hraised : (grove.act (.cancel place)).flags.raised = target :: grove.flags.raised := by
    have hlater : (grove.act (.cancel place)).Sound := hsound.act _
    rw [hlater.raised, hsound.raised, Grove.act, hplace]
  refine Context.check_congr (fun link hmem => ?_) now
  rw [hraised, List.mem_cons]
  refine or_iff_right fun hsame => hapart ?_
  exact hchained.above_iff.mpr ⟨link, hmem, hsame⟩

/-- Contexts follow their trees, whatever was done with contexts before.  The check of a
context fails if a node above its own, which is above itself, was cancelled or had a deadline
that has come.  Its deadline is the earliest of those above, and without cancellations above
it this deadline alone decides.  A cancellation changes the check of no context but those
that the cancelled node is above: the context, its copies, and what derives from them.  A
context that is done stays done. -/
theorem done_along_chain {actions : List Action} (hrun : run {} actions = grove) {ctx : Context}
    (hheld : (ctx, node) ∈ grove.held) :
    (∀ now, (∃ error, ctx.check grove.flags now = .error error) ↔
      ∃ ancestor, Above grove.nodes ancestor node ∧ grove.Ended now ancestor) ∧
    (∀ deadline, ctx.deadline = some deadline ↔
      IsLeast {d | ∃ ancestor, Above grove.nodes ancestor node ∧
        deadlineOf grove.nodes ancestor = some d} deadline) ∧
    (ctx.deadline = none ↔
      ∀ ancestor, Above grove.nodes ancestor node → deadlineOf grove.nodes ancestor = none) ∧
    (∀ now, (∀ ancestor, Above grove.nodes ancestor node → ancestor ∉ grove.cancelled) →
      (ctx.isDone grove.flags now = true ↔
        ∃ deadline, ctx.deadline = some deadline ∧ deadline ≤ now)) ∧
    (∀ place cancelled target, grove.held[place]? = some (cancelled, target) →
      ¬ Above grove.nodes target node → ∀ now,
        ctx.check (grove.act (.cancel place)).flags now = ctx.check grove.flags now) ∧
    ∀ further now later, ctx.isDone grove.flags now = true → now ≤ later →
      (ctx, node) ∈ (grove.run further).held ∧
        ctx.isDone (grove.run further).flags later = true := by
  have hsound : grove.Sound := hrun ▸ sound_run actions
  have hchained : Chained grove.nodes node ctx.chain := hsound.chained _ hheld
  refine ⟨fun now => ?_, fun deadline => ?_, ?_, fun now hlive => ?_, ?_, ?_⟩
  · rw [← hsound.done_iff hheld]
    rcases ctx.check_cases grove.flags now with ⟨hdone, reason, hcheck⟩ | ⟨hlive, hcheck⟩
    · exact iff_of_true ⟨_, hcheck⟩ hdone
    · exact iff_of_false (by simp [hcheck]) hlive
  · have hdeadlines : {d | ∃ link ∈ ctx.chain, link.deadline = some d} =
        {d | ∃ ancestor, Above grove.nodes ancestor node ∧
          deadlineOf grove.nodes ancestor = some d} :=
      Set.ext fun d => hchained.exists_iff fun _ given => given = some d
    rw [Context.deadline_eq_some_iff, hdeadlines]
  · have hgiven := not_congr (hchained.exists_iff fun _ given => given ≠ none)
    rw [Context.deadline_eq_none_iff]
    simpa using hgiven
  · rw [Context.isDone_iff, Context.done_iff_deadline]
    intro link hmem
    rw [hsound.raised]
    exact hlive link.flag (hchained.above_iff.mpr ⟨link, hmem, rfl⟩)
  · intro place cancelled target hplace hapart now
    exact hsound.check_cancel hheld hplace hapart now
  · intro further now later hdone hlater
    have hextends := extends_run grove further
    rw [Context.isDone_iff] at hdone ⊢
    exact ⟨hextends.held.subset hheld, hdone.mono hextends.raised hlater⟩

/-! ## A grove -/

/-- Two trees: a deadline with a context that derives from it and a copy of that, and beside
them a timeout. -/
def copies : List Action :=
  [.background, .withDeadline 0 10, .child 1, .clone 2, .background, .withTimeout 4 5 20]

/-- The copied context. -/
def copied : Context := ⟨⟨2, none⟩, [⟨1, some 10⟩, ⟨0, none⟩]⟩

/-- The copy is done when the deadline above it comes, and stays so; cancelling the timeout is
not seen by it. -/
theorem done_along_chain_copied :
    (copied, 2) ∈ (run {} copies).held ∧
      (∃ error, copied.check (run {} copies).flags 10 = .error error) ∧
      copied.isDone (run {} copies).flags 10 = true ∧
      (∀ now, copied.check ((run {} copies).act (.cancel 5)).flags now =
        copied.check (run {} copies).flags now) ∧
      copied.isDone ((run {} copies).run [.cancel 5, .child 3]).flags 11 = true := by
  have hheld : (copied, 2) ∈ (run {} copies).held := by decide
  have habove : Above (run {} copies).nodes 1 2 := .derived rfl .self
  have hapart : ¬ Above (run {} copies).nodes 4 2 := by
    rw [((sound_run copies).chained _ hheld).above_iff]
    decide
  obtain ⟨hfails, -, -, hdone, hcancel, hstays⟩ := done_along_chain rfl hheld
  have hcome : copied.isDone (run {} copies).flags 10 = true :=
    (hdone 10 fun _ _ => List.not_mem_nil).mpr ⟨10, rfl, le_rfl⟩
  exact ⟨hheld, (hfails 10).mpr ⟨1, habove, .inr ⟨10, rfl, le_rfl⟩⟩, hcome,
    hcancel 5 _ 4 rfl hapart, (hstays [.cancel 5, .child 3] 10 11 hcome (by decide)).2⟩

end Grove

end Shardwise
