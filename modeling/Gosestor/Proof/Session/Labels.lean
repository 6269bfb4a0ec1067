import Gosestor.Handler.Interceptor
import Gosestor.Proof.Go.Fields

/-!
# Label sets

A session stores its labels as one string. For labels without white space that string is canonical:
it determines the set of the labels and is determined by it.
-/

namespace Gosestor

open Gosestor.Go Gosestor.Session

def labelSep (rest : GoString) : Nat := if rest.head? = some 44 then 1 else spaceLen rest

theorem splitLabels_eq (s : GoString) : splitLabels s = fieldsFunc s labelSep := rfl

theorem labelSep_separates : Separates labelSep where
  bounded s := by
    unfold labelSep
    split_ifs with comma
    · cases s with
      | nil => cases comma
      | cons b s => simp
    · exact spaceLen_bounded s
  disjoint {s i} inside short := by
    unfold labelSep at short ⊢
    split_ifs at short with comma
    · omega
    · obtain ⟨c, rest, same, low, high⟩ := spaceLen_inside inside short
      have other : c ≠ 44 := by
        rintro rfl
        exact absurd low (by decide)
      simp [same, other, spaceLen_continuation low high rest]

theorem comma_standalone : Standalone labelSep 44 where
  single s := by simp [labelSep]
  apart {s} some rest := by
    obtain ⟨b, s, rfl⟩ := List.exists_cons_of_ne_nil some
    have same : spaceLen (b :: (s ++ 44 :: rest)) = spaceLen (b :: s) :=
      spaceLen_append (by decide) some rest
    simp [labelSep, same]

def IsLabel (x : GoString) : Prop := x ≠ [] ∧ Unbroken spaceLen x []

theorem isLabel_of_mem_splitLabels {s x : GoString} (member : x ∈ splitLabels s) : IsLabel x := by
  obtain ⟨some, before, after, -, unbroken, -⟩ := (mem_fieldsFunc labelSep_separates).mp member
  refine ⟨some, fun t nonempty suffix => ?_⟩
  have none := unbroken t nonempty suffix
  unfold labelSep at none
  split_ifs at none
  rw [List.append_nil]
  exact spaceLen_of_prefix (List.prefix_append t after) none

theorem mem_splitLabels_join {values : List GoString} {x : GoString} :
    x ∈ splitLabels (join values (lit ",")) ↔ ∃ value ∈ values, Token labelSep value x := by
  have comma : lit "," = [44] := by decide
  rw [comma, splitLabels_eq, fieldsFunc_join labelSep_separates comma_standalone, List.mem_flatMap]
  simp only [mem_fieldsFunc labelSep_separates]

theorem spaceLenLast_reverse {s : GoString} (unbroken : Unbroken spaceLen s []) :
    spaceLenLast s.reverse = 0 := by
  have clean : ∀ t, t ≠ [] → t <:+ s.reverse.reverse → spaceLen t = 0 := by
    intro t some suffix
    rw [List.reverse_reverse] at suffix
    simpa using unbroken t some suffix
  match s.reverse, clean with
  | [], _ => rfl
  | [d], clean => exact clean [d] (by simp) (List.suffix_refl _)
  | [d, c], clean =>
      have one := clean [d] (by simp) ⟨[c], rfl⟩
      have two := clean [c, d] (by simp) (List.suffix_refl _)
      simp only [spaceLen, spaceLenLast] at one two ⊢
      split_ifs at one two ⊢
      simp_all
  | d :: c :: b :: rest, clean =>
      have one := clean [d] (by simp) ⟨rest.reverse ++ [b, c], by simp⟩
      have two := clean [c, d] (by simp) ⟨rest.reverse ++ [b], by simp⟩
      have three := clean [b, c, d] (by simp) ⟨rest.reverse, by simp⟩
      simp only [spaceLen, spaceLenLast] at one two three ⊢
      split_ifs at one two three ⊢
      simp_all

theorem IsLabel.trimSpace {x : GoString} (label : IsLabel x) : trimSpace x = x := by
  have left : spaceLen x = 0 := by
    simpa using label.2 x label.1 (List.suffix_refl x)
  rw [Go.trimSpace, trimLeftSpace, dropRunes_of_zero left, trimRightSpace,
    dropRunes_of_zero (spaceLenLast_reverse label.2), List.reverse_reverse]

theorem sortStrings_perm {xs ys : List GoString} (perm : xs.Perm ys) :
    sortStrings xs = sortStrings ys := by
  have total : Std.Total fun s t : GoString => s ≤ t := inferInstance
  have trans : IsTrans GoString (· ≤ ·) := inferInstance
  have antisymm : Std.Antisymm fun s t : GoString => s ≤ t := inferInstance
  have same := ((List.perm_insertionSort (· ≤ ·) xs).trans perm).trans
    (List.perm_insertionSort (· ≤ ·) ys).symm
  exact same.eq_of_pairwise' (List.pairwise_insertionSort _ xs) (List.pairwise_insertionSort _ ys)

theorem dedupe_nodup (labels seen : List GoString) :
    (dedupe labels seen).Nodup ∧ ∀ x ∈ dedupe labels seen, x ∉ seen := by
  induction labels generalizing seen with
  | nil => simp [dedupe]
  | cons label labels ih =>
      unfold dedupe
      dsimp only
      split_ifs with skip
      · exact ih seen
      · obtain ⟨distinct, new⟩ := ih (Go.trimSpace label :: seen)
        simp only [List.mem_cons, not_or] at new skip
        refine ⟨List.nodup_cons.mpr ⟨fun member => (new _ member).1 rfl, distinct⟩, fun x member => ?_⟩
        obtain rfl | later := List.mem_cons.mp member
        · exact skip.2
        · exact (new x later).2

section Plain

variable {labels : List GoString} (plain : ∀ x ∈ labels, IsLabel x)

include plain

theorem mem_dedupe {seen : List GoString} {x : GoString} :
    x ∈ dedupe labels seen ↔ x ∈ labels ∧ x ∉ seen := by
  induction labels generalizing seen with
  | nil => simp [dedupe]
  | cons label labels ih =>
      have first := plain label List.mem_cons_self
      have rest : ∀ {seen}, x ∈ dedupe labels seen ↔ x ∈ labels ∧ x ∉ seen :=
        ih fun x member => plain x (List.mem_cons_of_mem label member)
      unfold dedupe
      dsimp only
      rw [first.trimSpace]
      split_ifs with skip
      · rw [rest]
        have listed : label ∈ seen := skip.resolve_left first.1
        constructor
        · rintro ⟨member, new⟩
          exact ⟨List.mem_cons_of_mem label member, new⟩
        · rintro ⟨member, new⟩
          obtain rfl | later := List.mem_cons.mp member
          · exact absurd listed new
          · exact ⟨later, new⟩
      · simp only [not_or] at skip
        rw [List.mem_cons, rest, List.mem_cons, List.mem_cons]
        by_cases same : x = label
        · simp [same, skip.2]
        · simp [same]

theorem fields_normalizeLabels :
    fields (normalizeLabels labels) = sortStrings (dedupe labels []) := by
  have blank : lit " " = [32] := by decide
  have each : ∀ x ∈ sortStrings (dedupe labels []), fieldsFunc x spaceLen = [x] := by
    intro x member
    have label := plain x ((mem_dedupe plain).mp ((List.mem_insertionSort _).mp member)).1
    exact fieldsFunc_unbroken label.1 label.2
  rw [fields, normalizeLabels, blank, fieldsFunc_join spaceLen_separates blank_standalone]
  rw [List.flatMap_congr each]
  simp

theorem mem_fields_normalizeLabels {x : GoString} :
    x ∈ fields (normalizeLabels labels) ↔ x ∈ labels := by
  rw [fields_normalizeLabels plain, sortStrings, List.mem_insertionSort, mem_dedupe plain]
  simp

/-- Two label lists are stored alike if and only if they have the same members. -/
theorem normalizeLabels_eq_iff {others : List GoString} (plain' : ∀ x ∈ others, IsLabel x) :
    normalizeLabels labels = normalizeLabels others ↔ ∀ x, x ∈ labels ↔ x ∈ others := by
  constructor
  · intro same x
    rw [← mem_fields_normalizeLabels plain, same, mem_fields_normalizeLabels plain']
  · intro same
    have perm : (dedupe labels []).Perm (dedupe others []) := by
      apply (List.perm_ext_iff_of_nodup (dedupe_nodup labels []).1 (dedupe_nodup others []).1).mpr
      intro x
      rw [mem_dedupe plain, mem_dedupe plain', same x]
    rw [normalizeLabels, normalizeLabels, sortStrings_perm perm]

end Plain

end Gosestor
