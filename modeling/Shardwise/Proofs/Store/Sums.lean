import Mathlib.Algebra.BigOperators.Group.Finset.Basic
import Mathlib.Algebra.Ring.Int.Defs
import Shardwise.Proofs.Store.Operations

/-!
# Sums over a table

Queries add up some of the documents of a table.  `Table.weigh` adds up what every
document weighs, where those that a query leaves out weigh nothing, and
`Table.sum_scan` says that a sum over a query is such a sum.

`Table.weigh_change` compares two tables: the sums differ by what the documents
under the changed keys differ.
-/

namespace Shardwise.Table

variable {table left : Table} {weight : DocKey → Document → Int}

/-- What the documents weigh together. -/
def weigh (table : Table) (weight : DocKey → Document → Int) : Int :=
  (table.toList.map fun entry => weight entry.1 entry.2.document).sum

/-- What the document of a key weighs, 0 if there is none. -/
def weightAt (table : Table) (weight : DocKey → Document → Int) (key : DocKey) : Int :=
  ((table.document? key).map (weight key)).getD 0

/-- The keys of the documents. -/
def keys (table : Table) : Finset DocKey := (table.toList.map Prod.fst).toFinset

theorem weightAt_of_notMem {key : DocKey} (h : key ∉ table.keys) :
    table.weightAt weight key = 0 := by
  have hnone : table.get? key = none := by
    cases hstored : table.get? key with
    | none => rfl
    | some stored =>
      have hmem : key ∈ table.toList.map Prod.fst :=
        List.mem_map_of_mem (mem_toList.mpr hstored)
      exact absurd (List.mem_toFinset.mpr hmem) h
  simp [weightAt, document?, hnone]

/-- The sum over any keys that leave no document out. -/
theorem weigh_eq {chosen : Finset DocKey} (h : table.keys ⊆ chosen) :
    table.weigh weight = ∑ key ∈ chosen, table.weightAt weight key := by
  have hentry : ∀ entry ∈ table.toList,
      weight entry.1 entry.2.document = table.weightAt weight entry.1 := by
    rintro ⟨key, stored⟩ hentry
    simp [weightAt, document?, mem_toList.mp hentry]
  rw [weigh, List.map_congr_left hentry, ← Finset.sum_subset h fun _ _ => weightAt_of_notMem,
    keys, List.sum_toFinset _ table.nodup_toList, List.map_map]
  rfl

/-- Two tables differ in their sums by what they differ under the keys that were
changed. -/
theorem weigh_change {changed : Finset DocKey}
    (h : ∀ key ∉ changed, left.weightAt weight key = table.weightAt weight key) :
    left.weigh weight = table.weigh weight +
      ∑ key ∈ changed, (left.weightAt weight key - table.weightAt weight key) := by
  let all := table.keys ∪ left.keys ∪ changed
  have hbefore : table.weigh weight = ∑ key ∈ all, table.weightAt weight key :=
    weigh_eq fun key hkey => by simp [all, hkey]
  have hafter : left.weigh weight = ∑ key ∈ all, left.weightAt weight key :=
    weigh_eq fun key hkey => by simp [all, hkey]
  have hchanged : ∑ key ∈ changed, (left.weightAt weight key - table.weightAt weight key) =
      ∑ key ∈ all, (left.weightAt weight key - table.weightAt weight key) := by
    refine Finset.sum_subset (fun key hkey => by simp [all, hkey]) fun key _ hkey => ?_
    rw [h key hkey, sub_self]
  rw [hchanged, Finset.sum_sub_distrib, hbefore, hafter, add_sub_cancel]

/-! ## Queries -/

/-- A sum over some of the documents that a query finds. -/
theorem sum_scan (table : Table) (collection field : String) (value : Value)
    (chosen : Document → Bool) (amount : Document → Int) :
    (((table.scan collection field value).filter fun entry => chosen entry.2).map
        fun entry => amount entry.2).sum =
      table.weigh fun key document =>
        if key.collection == collection && document.get? field == some value && chosen document
        then amount document else 0 := by
  rw [scan, weigh]
  induction table.toList with
  | nil => rfl
  | cons entry entries ih =>
    obtain ⟨key, stored⟩ := entry
    simp only [List.filter_cons, List.map_cons, List.sum_cons, ← ih]
    by_cases hfound :
        (key.collection == collection && stored.document.get? field == some value) = true
    · by_cases hchosen : chosen stored.document = true <;> simp [hfound, hchosen]
    · simp [hfound]

end Shardwise.Table
