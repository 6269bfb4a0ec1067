import Mathlib.Algebra.Order.BigOperators.Group.Finset
import Gosestor.Lib.GoMap

/-!
# Totals over a map

A charge per entry, summed up over a map. The total depends on the lookups only, so it is bounded
key by key.
-/

namespace Gosestor.Lib.GoMap

variable {K V N : Type} [DecidableEq K] [AddCommMonoid N] (f : K → V → N)

def total (m : GoMap K V) : N := (m.entries.map fun e => f e.1 e.2).sum

def charge (m : GoMap K V) (k : K) : N := (m.get k).elim 0 (f k)

variable {f} {m m' : GoMap K V} {k : K}

theorem charge_of_get {v : V} (held : m.get k = some v) : m.charge f k = f k v := by
  rw [charge, held]
  rfl

theorem charge_of_none (gone : m.get k = none) : m.charge f k = 0 := by
  rw [charge, gone]
  rfl

theorem total_eq_sum (f : K → V → N) (m : GoMap K V) {keys : Finset K}
    (covers : ∀ k, m.get k ≠ none → k ∈ keys) : m.total f = keys.sum (m.charge f) := by
  have own : (m.entries.map Prod.fst).toFinset ⊆ keys := by
    intro k member
    obtain ⟨e, found, rfl⟩ := List.mem_map.mp (List.mem_toFinset.mp member)
    apply covers
    rw [mem_entries.mp (show (e.1, e.2) ∈ m.entries from found)]
    exact Option.some_ne_none e.2
  rw [← Finset.sum_subset own, List.sum_toFinset _ m.entries_nodup, List.map_map, total]
  · congr 1
    refine List.map_congr_left fun e found => ?_
    exact (charge_of_get (mem_entries.mp (show (e.1, e.2) ∈ m.entries from found))).symm
  · intro k _ other
    apply charge_of_none
    refine Option.eq_none_iff_forall_ne_some.mpr fun v held => other ?_
    exact List.mem_toFinset.mpr (List.mem_map.mpr ⟨(k, v), mem_entries.mpr held, rfl⟩)

theorem total_congr (same : ∀ k, m.get k = m'.get k) : m.total f = m'.total f := by
  have covers : ∀ k, m.get k ≠ none → k ∈ m.keys.toFinset := fun k held =>
    List.mem_toFinset.mpr (mem_keys.mpr held)
  have covers' : ∀ k, m'.get k ≠ none → k ∈ m.keys.toFinset := fun k held =>
    covers k ((same k).trans_ne held)
  rw [total_eq_sum f m covers, total_eq_sum f m' covers']
  refine Finset.sum_congr rfl fun k _ => ?_
  rw [charge, same, charge]

theorem total_le_total [PartialOrder N] [IsOrderedAddMonoid N]
    (le : ∀ k, m.charge f k ≤ m'.charge f k) : m.total f ≤ m'.total f := by
  let keys := m.keys.toFinset ∪ m'.keys.toFinset
  have covers : ∀ k, m.get k ≠ none → k ∈ keys := fun k held =>
    Finset.mem_union_left _ (List.mem_toFinset.mpr (mem_keys.mpr held))
  have covers' : ∀ k, m'.get k ≠ none → k ∈ keys := fun k held =>
    Finset.mem_union_right _ (List.mem_toFinset.mpr (mem_keys.mpr held))
  rw [total_eq_sum f m covers, total_eq_sum f m' covers']
  exact Finset.sum_le_sum fun k _ => le k

theorem total_set (m : GoMap K V) (k : K) (v : V) :
    (m.set k v).total f + m.charge f k = m.total f + f k v := by
  let keys := insert k m.keys.toFinset
  have covers : ∀ k', m.get k' ≠ none → k' ∈ keys := fun k' held =>
    Finset.mem_insert_of_mem (List.mem_toFinset.mpr (mem_keys.mpr held))
  have covers' : ∀ k', (m.set k v).get k' ≠ none → k' ∈ keys := by
    intro k' held
    rw [get_set] at held
    split_ifs at held with same
    · rw [same]
      exact Finset.mem_insert_self k _
    · exact covers k' held
  have member : k ∈ keys := Finset.mem_insert_self k _
  have rest : ∀ k' ∈ keys.erase k, (m.set k v).charge f k' = m.charge f k' := by
    intro k' other
    rw [charge, get_set_of_ne (Finset.ne_of_mem_erase other), charge]
  rw [total_eq_sum f m covers, total_eq_sum f (m.set k v) covers', ← Finset.sum_erase_add _ _ member,
    ← Finset.sum_erase_add keys (m.charge f) member, Finset.sum_congr rfl rest,
    charge_of_get (get_set_self m k v), add_right_comm]

end Gosestor.Lib.GoMap
