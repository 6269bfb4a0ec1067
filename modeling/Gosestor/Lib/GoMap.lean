import Mathlib.Data.List.AList

/-!
# Finite maps

Association lists without repeated keys under the names of Go's map operations. A lookup of an
absent key is `none`; the order of `entries` is one of the orders a `range` loop may take.
-/

namespace Gosestor.Lib

structure GoMap (K V : Type) where
  alist : AList (fun _ : K => V)

namespace GoMap

variable {K V : Type}

instance : EmptyCollection (GoMap K V) := ⟨⟨∅⟩⟩

instance : Inhabited (GoMap K V) := ⟨∅⟩

instance [DecidableEq K] [DecidableEq V] : DecidableEq (GoMap K V) := fun a b =>
  decidable_of_iff (a.alist.entries = b.alist.entries) (by cases a; cases b; simp [AList.ext_iff])

def keys (m : GoMap K V) : List K := m.alist.keys

def entries (m : GoMap K V) : List (K × V) := m.alist.entries.map fun e => (e.1, e.2)

def len (m : GoMap K V) : Nat := m.alist.entries.length

/-- The loop `for k, v := range m { if drop(k, v) { delete(m, k) } }`. -/
def deleteIf (m : GoMap K V) (drop : K → V → Bool) : GoMap K V :=
  ⟨m.alist.entries.filter fun e => !drop e.1 e.2,
    List.NodupKeys.sublist List.filter_sublist m.alist.nodupKeys⟩

theorem keys_nodup (m : GoMap K V) : m.keys.Nodup := m.alist.keys_nodup

theorem entries_nodup (m : GoMap K V) : (m.entries.map Prod.fst).Nodup := by
  have same : m.entries.map Prod.fst = m.keys := by
    simp [entries, keys, AList.keys, List.keys, Function.comp_def]
  rw [same]
  exact m.keys_nodup

theorem eq_empty_of_len {m : GoMap K V} (none : m.len = 0) : m = ∅ := by
  obtain ⟨alist⟩ := m
  exact congrArg mk (AList.ext (List.length_eq_zero_iff.mp none))

variable [DecidableEq K]

def get (m : GoMap K V) (k : K) : Option V := m.alist.lookup k

def set (m : GoMap K V) (k : K) (v : V) : GoMap K V := ⟨m.alist.insert k v⟩

def delete (m : GoMap K V) (k : K) : GoMap K V := ⟨m.alist.erase k⟩

/-- The loop `for k, v := range src { m[k] = v }`. -/
def copyFrom (m src : GoMap K V) : GoMap K V := src.entries.foldl (fun m (k, v) => m.set k v) m

@[simp] theorem get_empty (k : K) : (∅ : GoMap K V).get k = none := rfl

theorem get_set (m : GoMap K V) (k k' : K) (v : V) :
    (m.set k v).get k' = if k' = k then some v else m.get k' := by
  split_ifs with h
  · subst h
    exact AList.lookup_insert m.alist
  · exact AList.lookup_insert_ne h

theorem get_delete (m : GoMap K V) (k k' : K) :
    (m.delete k).get k' = if k' = k then none else m.get k' := by
  split_ifs with h
  · subst h
    exact AList.lookup_erase k' m.alist
  · exact AList.lookup_erase_ne h

@[simp] theorem get_set_self (m : GoMap K V) (k : K) (v : V) : (m.set k v).get k = some v := by
  simp [get_set]

@[simp] theorem get_delete_self (m : GoMap K V) (k : K) : (m.delete k).get k = none := by
  simp [get_delete]

theorem get_set_of_ne {m : GoMap K V} {k k' : K} {v : V} (h : k' ≠ k) :
    (m.set k v).get k' = m.get k' := by
  simp [get_set, h]

theorem get_delete_of_ne {m : GoMap K V} {k k' : K} (h : k' ≠ k) :
    (m.delete k).get k' = m.get k' := by
  simp [get_delete, h]

theorem get_eq_some_iff {m : GoMap K V} {k : K} {v : V} :
    m.get k = some v ↔ (⟨k, v⟩ : Σ _ : K, V) ∈ m.alist.entries :=
  AList.mem_lookup_iff

theorem get_deleteIf (m : GoMap K V) (drop : K → V → Bool) (k : K) :
    (m.deleteIf drop).get k = (m.get k).filter fun v => !drop k v := by
  ext v
  rw [get_eq_some_iff, Option.filter_eq_some_iff, get_eq_some_iff]
  exact List.mem_filter

theorem mem_entries {m : GoMap K V} {k : K} {v : V} : (k, v) ∈ m.entries ↔ m.get k = some v := by
  rw [get_eq_some_iff, entries, List.mem_map]
  constructor
  · rintro ⟨⟨a, b⟩, member, same⟩
    simp only [Prod.mk.injEq] at same
    obtain ⟨rfl, rfl⟩ := same
    exact member
  · exact fun member => ⟨⟨k, v⟩, member, rfl⟩

theorem filter_entries {m : GoMap K V} {k : K} {v : V} (held : m.get k = some v) :
    m.entries.filter (fun e => e.1 = k) = [(k, v)] := by
  obtain ⟨before, after, split⟩ := List.append_of_mem (mem_entries.mpr held)
  have distinct := m.entries_nodup
  rw [split] at distinct ⊢
  simp only [List.map_append, List.map_cons, List.nodup_append, List.nodup_cons, List.mem_cons,
    List.mem_map] at distinct
  obtain ⟨-, ⟨later, -⟩, apart⟩ := distinct
  have left : before.filter (fun e => e.1 = k) = [] := by
    apply List.filter_eq_nil_iff.mpr
    intro e member
    simpa using apart e.1 ⟨e, member, rfl⟩ k (.inl rfl)
  have right : after.filter (fun e => e.1 = k) = [] := by
    apply List.filter_eq_nil_iff.mpr
    intro e member
    simpa using fun same => later ⟨e, member, same⟩
  rw [List.filter_append, left, List.filter_cons_of_pos (by simp), right]
  rfl

theorem filter_entries_of_none {m : GoMap K V} {k : K} (absent : m.get k = none) :
    m.entries.filter (fun e => e.1 = k) = [] := by
  refine List.filter_eq_nil_iff.mpr fun e member => ?_
  have held : m.get e.1 = some e.2 := mem_entries.mp member
  simp only [decide_eq_true_eq]
  rintro rfl
  cases absent.symm.trans held

theorem get_foldl_set (es : List (K × V)) (m : GoMap K V) (k : K) :
    (es.foldl (fun m (k, v) => m.set k v) m).get k =
      ((es.reverse.find? fun e => e.1 == k).map Prod.snd).or (m.get k) := by
  induction es generalizing m with
  | nil => rfl
  | cons e es ih =>
      rw [List.foldl_cons, ih, get_set, List.reverse_cons, List.find?_append]
      cases (es.reverse.find? fun e => e.1 == k) with
      | some found => rfl
      | none =>
          by_cases same : e.1 = k
          · simp [same]
          · simp [same, Ne.symm same]

theorem get_copyFrom (m src : GoMap K V) (k : K) :
    (m.copyFrom src).get k = (src.get k).or (m.get k) := by
  rw [copyFrom, get_foldl_set]
  congr 1
  cases found : src.entries.reverse.find? fun e => e.1 == k with
  | none =>
      symm
      refine Option.eq_none_iff_forall_ne_some.mpr fun v held => ?_
      have absent := List.find?_eq_none.mp found (k, v) (List.mem_reverse.mpr (mem_entries.mpr held))
      simp at absent
  | some e =>
      have named : e.1 = k := by simpa using List.find?_some found
      have member : (e.1, e.2) ∈ src.entries :=
        List.mem_reverse.mp (List.mem_of_find?_eq_some found)
      rw [← named, mem_entries.mp member]
      rfl

theorem mem_keys {m : GoMap K V} {k : K} : k ∈ m.keys ↔ m.get k ≠ none := by
  rw [keys, ← AList.mem_keys, ← AList.lookup_isSome, Option.isSome_iff_ne_none]
  rfl

theorem len_eq_zero_iff {m : GoMap K V} : m.len = 0 ↔ ∀ k, m.get k = none := by
  rw [len, List.length_eq_zero_iff]
  constructor
  · intro empty k
    refine Option.eq_none_iff_forall_ne_some.mpr fun v found => ?_
    rw [get_eq_some_iff, empty] at found
    cases found
  · intro absent
    refine List.eq_nil_iff_forall_not_mem.mpr fun e member => ?_
    have found : m.get e.1 = some e.2 := get_eq_some_iff.mpr member
    simp [absent e.1] at found

section Beside

variable {W : Type} {R : V → W → Prop} {m : GoMap K V} {m' : GoMap K W}

/-- The maps have the same keys, and beside each value of one a related value of the other. -/
def Beside (R : V → W → Prop) (m : GoMap K V) (m' : GoMap K W) : Prop :=
  ∀ k, Option.Rel R (m.get k) (m'.get k)

theorem Beside.empty : Beside R (∅ : GoMap K V) (∅ : GoMap K W) := fun _ => .none

theorem Beside.set (beside : Beside R m m') (k : K) {v : V} {w : W} (related : R v w) :
    Beside R (m.set k v) (m'.set k w) := by
  intro k'
  rw [get_set, get_set]
  split_ifs
  · exact .some related
  · exact beside k'

theorem Beside.delete (beside : Beside R m m') (k : K) : Beside R (m.delete k) (m'.delete k) := by
  intro k'
  rw [get_delete, get_delete]
  split_ifs
  · exact .none
  · exact beside k'

theorem Beside.get_eq_none (beside : Beside R m m') (k : K) :
    m.get k = none ↔ m'.get k = none := by
  have both := beside k
  cases left : m.get k <;> cases right : m'.get k <;> simp_all

theorem Beside.related (beside : Beside R m m') {k : K} {v : V} {w : W} (left : m.get k = some v)
    (right : m'.get k = some w) : R v w := by
  have both := beside k
  rw [left, right] at both
  exact Option.rel_some_some.mp both

theorem Beside.getD_empty {V W : Type} {R : V → W → Prop} {o : Option (GoMap K V)}
    {o' : Option (GoMap K W)} (both : Option.Rel (Beside R) o o') :
    Beside R (o.getD ∅) (o'.getD ∅) := by
  cases both with
  | none => exact .empty
  | some beside => exact beside

end Beside

end GoMap

end Gosestor.Lib
