import Mathlib.Algebra.BigOperators.Group.List.Basic
import Mathlib.Algebra.Ring.Int.Defs
import Shardwise.Proofs.Shards.Keys
import Shardwise.Proofs.Shards.Record
import Shardwise.Shards.Counter

/-!
# The ledger of a counter

Every committed increment makes one posting for each level that it counts in, and
the documents of a counter are what the postings under their keys come to.

* `Posting.tally` is the document that some postings make, and
  `Posting.applyWrite_tally` the posting of one more.
* `Increment.postings` are the postings of an increment, at most one under each
  key (`Increment.filter_postings`).
* `Increment.posted_levelKey` says of which increments the postings under a key
  are, and `Increment.Covers.coarser` that what counts for a period counts for the
  periods around it.
* `sum_partition` adds a list up group by group.
-/

namespace Shardwise

/-! ## Sums over groups -/

section Sums

variable {α κ : Type} [DecidableEq κ]

/-- Only one group is that of a given key. -/
theorem sum_map_ite_eq {keys : List κ} (hkeys : keys.Nodup) {key : κ} (hmem : key ∈ keys)
    (n : Int) : (keys.map fun k => if key = k then n else 0).sum = n := by
  induction keys with
  | nil => simp at hmem
  | cons first more ih =>
    rw [List.nodup_cons] at hkeys
    by_cases hfirst : key = first
    · have hzero : (more.map fun k => if key = k then n else 0).sum = 0 := by
        apply List.sum_eq_zero
        intro x hx
        obtain ⟨k, hk, rfl⟩ := List.mem_map.mp hx
        have hne : key ≠ k := by
          rintro rfl
          exact hkeys.1 (hfirst ▸ hk)
        rw [if_neg hne]
      simp [hfirst] at hzero ⊢
      exact hzero
    · have hlater := ih hkeys.2 ((List.mem_cons.mp hmem).resolve_left hfirst)
      simp [hfirst, hlater]

/-- A list is added up group by group, by keys that leave out nothing. -/
theorem sum_partition {keys : List κ} (hkeys : keys.Nodup) (key : α → κ) (value : α → Int)
    {items : List α} (hall : ∀ item ∈ items, key item ∈ keys) :
    (keys.map fun k => ((items.filter (key · = k)).map value).sum).sum =
      (items.map value).sum := by
  induction items with
  | nil => simp
  | cons item items ih =>
    rw [List.forall_mem_cons] at hall
    have hsplit : ∀ k, (((item :: items).filter (key · = k)).map value).sum =
        (if key item = k then value item else 0) +
          ((items.filter (key · = k)).map value).sum := by
      intro k
      by_cases h : key item = k <;> simp [h]
    simp only [hsplit, List.sum_map_add, List.map_cons, List.sum_cons, ih hall.2,
      sum_map_ite_eq hkeys hall.1]

end Sums

/-! ## Postings -/

/-- One increment, as it counts in the document of one level. -/
structure Posting where
  key : DocKey
  level : Level
  time : Instant
  amount : Int64

/-- What the document says when it is made by the posting. -/
def Posting.record (owner : String) (posting : Posting) : ShardRecord where
  owner := owner
  value := .int posting.amount
  level := some posting.level
  time := some posting.time

namespace Posting

/-- What some postings come to. -/
def total (postings : List Posting) : Int := (postings.map (·.amount.toInt)).sum

@[simp] theorem total_nil : total [] = 0 := rfl

@[simp] theorem total_append (first second : List Posting) :
    total (first ++ second) = total first + total second := by
  simp [total]

@[simp] theorem total_cons (posting : Posting) (postings : List Posting) :
    total (posting :: postings) = posting.amount.toInt + total postings := by
  simp [total]

theorem total_nonneg {postings : List Posting}
    (h : ∀ posting ∈ postings, 0 < posting.amount.toInt) : 0 ≤ total postings := by
  induction postings with
  | nil => simp
  | cons posting postings ih =>
    rw [List.forall_mem_cons] at h
    have hmore := ih h.2
    rw [total_cons]
    omega

/-- The document that some postings make: the first one makes it, and the others
add to its value. -/
def tally (owner : String) : List Posting → Option Document
  | [] => none
  | first :: more =>
    some ((first.record owner).withValue (Int64.ofInt (total (first :: more)))).document

theorem tally_eq_none {owner : String} {postings : List Posting} :
    tally owner postings = none ↔ postings = [] := by
  cases postings <;> simp [tally]

theorem tally_isSome (owner : String) (postings : List Posting) :
    (tally owner postings).isSome = !postings.isEmpty := by
  cases postings <;> rfl

theorem tally_eq_some {owner : String} {postings : List Posting} {document : Document}
    (h : tally owner postings = some document) :
    ∃ first ∈ postings,
      document = ((first.record owner).withValue (Int64.ofInt (total postings))).document := by
  cases postings with
  | nil => cases h
  | cons first more => exact ⟨first, List.mem_cons_self, (Option.some.inj h).symm⟩

/-- One more posting. -/
theorem applyWrite_tally {owner : String} {postings : List Posting} {posting : Posting}
    (hpositive : ∀ other ∈ postings ++ [posting], 0 < other.amount.toInt)
    (hfits : total (postings ++ [posting]) < 2 ^ 63) :
    Database.applyWrite (tally owner postings)
      (ShardGroup.shardWrite (!postings.isEmpty) (posting.record owner)) =
        .ok (tally owner (postings ++ [posting])) := by
  cases postings with
  | nil =>
    simp only [List.nil_append, tally, total_cons, total_nil, Int.add_zero, Int64.ofInt_toInt]
    exact ShardRecord.applyWrite_make _ _
  | cons first more =>
    have hsome : 0 ≤ total (first :: more) :=
      total_nonneg fun other hother => hpositive other (List.mem_append_left _ hother)
    have hone : 0 < posting.amount.toInt := hpositive posting (by simp)
    rw [total_append, total_cons posting, total_nil] at hfits
    have hword : (Int64.ofInt (total (first :: more))).toInt = total (first :: more) :=
      Int64.toInt_ofInt_of_le (by omega) (by omega)
    simp only [List.cons_append, tally, List.isEmpty_cons, Bool.not_false, ShardGroup.shardWrite,
      if_true]
    have hvalue : (posting.record owner).value = .int posting.amount := rfl
    rw [hvalue, ShardRecord.applyWrite_add rfl (by omega) (by omega), hword]
    simp only [ShardRecord.withValue, total_cons, total_append, total_nil, Int.add_zero,
      Int.add_assoc]

end Posting

/-! ## Increments -/

/-- A committed increment: the shard that was chosen, the time of the read phase,
whether it keeps the date hierarchy, and what it adds. -/
structure Increment where
  index : Nat
  time : Instant
  dated : Bool
  value : Int64
deriving DecidableEq

namespace Increment

/-- What some increments come to. -/
def total (increments : List Increment) : Int := (increments.map (·.value.toInt)).sum

/-- The levels of an increment. -/
def levelsOf (dated : Bool) : List Level :=
  if dated then Level.datedFinestFirst ++ [.total] else [.total]

variable (collection owner : String)

/-- The posting of an increment for one level. -/
def posting (increment : Increment) (level : Level) : Posting where
  key := counterShardKey collection owner level increment.time increment.index
  level := level
  time := increment.time
  amount := increment.value

/-- The postings of an increment. -/
def postings (increment : Increment) : List Posting :=
  (levelsOf increment.dated).map (increment.posting collection owner)

/-- The increment counts for the shard of a level, a period and an index. -/
def Covers (increment : Increment) (level : Level) (t : Instant) (index : Nat) : Prop :=
  increment.index = index ∧ (increment.dated = true ∨ level = .total) ∧
    level.SamePeriod increment.time t

instance (level : Level) (t u : Instant) : Decidable (level.SamePeriod t u) :=
  decidable_of_iff _ Level.suffix?_eq_iff

instance (increment : Increment) (level : Level) (t : Instant) (index : Nat) :
    Decidable (increment.Covers level t index) :=
  inferInstanceAs (Decidable (_ ∧ _))

/-- An increment has at most one posting under a key. -/
theorem filter_postings (increment : Increment) (level : Level) (t : Instant) (index : Nat) :
    (increment.postings collection owner).filter
        (·.key = counterShardKey collection owner level t index) =
      if increment.Covers level t index then [increment.posting collection owner level]
      else [] := by
  have hkey : ∀ other, (increment.posting collection owner other).key =
      counterShardKey collection owner level t index ↔
        other = level ∧ level.SamePeriod increment.time t ∧ increment.index = index := by
    intro other
    rw [posting, counterShardKey_eq_iff]
    constructor
    · rintro ⟨rfl, hperiod, hindex⟩
      exact ⟨rfl, hperiod, hindex⟩
    · rintro ⟨rfl, hperiod, hindex⟩
      exact ⟨rfl, hperiod, hindex⟩
  by_cases hplace : level.SamePeriod increment.time t ∧ increment.index = index
  · have honly : ∀ other, (increment.posting collection owner other).key =
        counterShardKey collection owner level t index ↔ other = level :=
      fun other => (hkey other).trans (and_iff_left hplace)
    obtain ⟨hperiod, hindex⟩ := hplace
    simp only [postings, List.filter_map, Function.comp_def, honly, Covers, hperiod, hindex,
      and_true, true_and]
    cases increment.dated <;> cases level <;> rfl
  · have hnone : ∀ other, (increment.posting collection owner other).key ≠
        counterShardKey collection owner level t index :=
      fun other heq => hplace ((hkey other).mp heq).2
    have hcovers : ¬ increment.Covers level t index := fun h => hplace ⟨h.2.2, h.1⟩
    rw [if_neg hcovers, List.filter_eq_nil_iff]
    intro other hother
    obtain ⟨made, -, rfl⟩ := List.mem_map.mp hother
    simpa using hnone made

/-- The postings under one key. -/
def posted (key : DocKey) (increments : List Increment) : List Posting :=
  (increments.flatMap (postings collection owner)).filter (·.key = key)

theorem posted_append (key : DocKey) (first second : List Increment) :
    posted collection owner key (first ++ second) =
      posted collection owner key first ++ posted collection owner key second := by
  simp [posted]

/-- Under the key of a shard are the postings of the increments that count for it. -/
theorem posted_levelKey (level : Level) (t : Instant) (index : Nat)
    (increments : List Increment) :
    posted collection owner (counterShardKey collection owner level t index) increments =
      (increments.filter (·.Covers level t index)).map (·.posting collection owner level) := by
  induction increments with
  | nil => rfl
  | cons increment increments ih =>
    have hone := increment.filter_postings collection owner level t index
    simp only [posted] at ih
    simp only [posted, List.flatMap_cons, List.filter_append, hone, ih, List.filter_cons]
    by_cases h : increment.Covers level t index <;> simp [h]

/-- What is posted for a period is posted for the periods of the coarser levels
around it, since an increment with the date hierarchy counts in all levels. -/
theorem Covers.coarser {increment : Increment} {level coarse : Level} {t : Instant} {index : Nat}
    (h : increment.Covers level t index) (hdepth : coarse.depth ≤ level.depth) :
    increment.Covers coarse t index := by
  obtain ⟨hindex, hdated, hperiod⟩ := h
  refine ⟨hindex, ?_, hperiod.coarser hdepth⟩
  rcases hdated with hdated | rfl
  · exact .inl hdated
  · refine .inr ?_
    cases coarse <;> first | rfl | exact absurd hdepth (by decide)

end Increment

end Shardwise
