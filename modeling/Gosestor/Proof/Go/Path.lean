import Gosestor.Go.Path
import Gosestor.Proof.Go.Strings

/-!
# Paths as lists of segments

A cleaned absolute path and its list of segments determine each other, and one path lies below
another if and only if its segments continue those of the other.
-/

namespace Gosestor.Go

def walk (kept : List GoString) (element : GoString) : List GoString :=
  if element = [] ∨ element = lit "." then kept
  else if element = lit ".." then kept.dropLast
  else kept ++ [element]

def segments (path : GoString) : List GoString := (split path 47).foldl walk []

theorem lit_slash : lit "/" = [47] := by decide

theorem segments_slash (path : GoString) : segments (lit "/" ++ path) = segments path := by
  rw [lit_slash, segments, split, List.singleton_append, List.splitOn_cons_eq_if_modifyHead]
  simp [segments, split, walk]

def IsSegment (s : GoString) : Prop := s ≠ [] ∧ 47 ∉ s

theorem isSegment_of_mem_segments {path s : GoString} (member : s ∈ segments path) :
    IsSegment s := by
  have loop : ∀ (elements kept : List GoString), (∀ e ∈ elements, 47 ∉ e) →
      (∀ k ∈ kept, IsSegment k) → ∀ k ∈ elements.foldl walk kept, IsSegment k := by
    intro elements
    induction elements with
    | nil => exact fun kept _ good => good
    | cons e elements ih =>
        intro kept slashless good
        apply ih
        · exact fun e' later => slashless e' (List.mem_cons_of_mem e later)
        · intro k found
          unfold walk at found
          split_ifs at found with skipped up
          · exact good k found
          · exact good k (List.dropLast_subset kept found)
          · rcases List.mem_append.mp found with before | last
            · exact good k before
            · rw [List.mem_singleton.mp last]
              exact ⟨fun empty => skipped (.inl empty), slashless e List.mem_cons_self⟩
  exact loop _ [] (fun e piece => notMem_of_mem_split piece) (by simp) s member

theorem cleanElements_eq_walk (elements kept : List GoString)
    (plain : lit ".." ∉ kept) :
    (cleanElements true kept.reverse elements).reverse = elements.foldl walk kept := by
  induction elements generalizing kept with
  | nil => simp [cleanElements]
  | cons e elements ih =>
      rw [List.foldl_cons]
      by_cases skipped : e = [] ∨ e = lit "."
      · have stays : walk kept e = kept := by simp [walk, skipped]
        unfold cleanElements
        rw [stays, if_pos skipped]
        exact ih _ plain
      by_cases up : e = lit ".."
      · have shorter : walk kept e = kept.dropLast := by
          rw [walk, if_neg skipped, if_pos up]
        unfold cleanElements
        rw [shorter, if_neg skipped, if_pos up]
        rcases List.eq_nil_or_concat kept with rfl | ⟨earlier, last, rfl⟩
        · simpa using ih _ plain
        · have other : last ≠ lit ".." := by
            rintro rfl
            simp at plain
          have rest : lit ".." ∉ earlier := by
            intro member
            apply plain
            simp [member]
          simpa [other] using ih _ rest
      · have longer : walk kept e = kept ++ [e] := by simp [walk, skipped, up]
        have next : lit ".." ∉ kept ++ [e] := by simp [plain, Ne.symm up]
        unfold cleanElements
        rw [longer, if_neg skipped, if_neg up]
        simpa using ih _ next

def absolute (names : List GoString) : GoString := lit "/" ++ join names (lit "/")

theorem clean_rooted {path : GoString} (rooted : hasPrefix path (lit "/") = true) :
    clean path = absolute (segments path) := by
  have walked := cleanElements_eq_walk (split path 47) [] (by simp)
  rw [List.reverse_nil] at walked
  simp only [clean, rooted, if_true]
  rw [walked, absolute, segments]

def dir (names : List GoString) : GoString := names.flatMap (47 :: ·)

theorem dir_cons (name : GoString) (names : List GoString) :
    dir (name :: names) = 47 :: (name ++ dir names) := by simp [dir]

theorem slash_join {names : List GoString} (some : names ≠ []) :
    lit "/" ++ join names (lit "/") = dir names := by
  induction names with
  | nil => exact absurd rfl some
  | cons name names ih =>
      cases names with
      | nil => simp [lit_slash, join, dir]
      | cons next names =>
          have rest := ih (by simp)
          rw [lit_slash, join] at rest ⊢
          rw [dir_cons, List.intercalate_cons_cons, ← rest]
          simp

theorem prefix_at_slash {s t a b : GoString} (left : 47 ∉ s) (right : 47 ∉ t) :
    s ++ 47 :: a <+: t ++ 47 :: b ↔ s = t ∧ a <+: b := by
  induction s generalizing t with
  | nil =>
      cases t with
      | nil => simp
      | cons c t =>
          have other : 47 ≠ c := fun same => right (by simp [same])
          simp [other]
  | cons c s ih =>
      cases t with
      | nil =>
          have other : c ≠ 47 := fun same => left (by simp [same])
          simp [other]
      | cons d t =>
          have rest := ih (t := t) (fun member => left (by simp [member]))
            (fun member => right (by simp [member]))
          simp only [List.cons_append, List.cons_prefix_cons, rest, List.cons.injEq, and_assoc]

theorem dir_prefix_iff {S P : List GoString} (left : ∀ s ∈ S, IsSegment s)
    (right : ∀ s ∈ P, IsSegment s) : dir S ++ [47] <+: dir P ++ [47] ↔ S <+: P := by
  induction S generalizing P with
  | nil =>
      cases P with
      | nil => simp [dir]
      | cons q P => simp [dir]
  | cons s S ih =>
      cases P with
      | nil =>
          have long : s ≠ [] := (left s List.mem_cons_self).1
          simp [dir, long]
      | cons q P =>
          have opens : ∀ names : List GoString, ∃ rest, dir names ++ [47] = 47 :: rest := by
            intro names
            cases names with
            | nil => exact ⟨[], rfl⟩
            | cons n names => exact ⟨_, by rw [dir_cons, List.cons_append]⟩
          have deeper := ih (P := P) (fun x member => left x (List.mem_cons_of_mem s member))
            (fun x member => right x (List.mem_cons_of_mem q member))
          obtain ⟨a, below⟩ := opens S
          obtain ⟨b, below'⟩ := opens P
          rw [below, below', List.cons_prefix_cons] at deeper
          rw [dir_cons, dir_cons, List.cons_append, List.cons_append, List.append_assoc,
            List.append_assoc, below, below', List.cons_prefix_cons, List.cons_prefix_cons,
            prefix_at_slash (left s List.mem_cons_self).2 (right q List.mem_cons_self).2, ← deeper]
          simp

theorem below_iff {p q : GoString} : q ++ [47] <+: p ++ [47] ↔ p = q ∨ q ++ [47] <+: p := by
  constructor
  · rintro ⟨rest, same⟩
    rcases List.eq_nil_or_concat rest with rfl | ⟨rest, last, rfl⟩
    · left
      simpa using same.symm
    · right
      rw [List.concat_eq_append, ← List.append_assoc] at same
      exact ⟨rest, List.append_inj_left' same rfl⟩
  · rintro (rfl | below)
    · exact List.prefix_refl _
    · exact below.trans (List.prefix_append p _)

theorem absolute_nil : absolute [] = [47] := by decide

theorem absolute_eq_dir {names : List GoString} (some : names ≠ []) : absolute names = dir names :=
  slash_join some

section Ancestors

variable {S P : List GoString} (left : ∀ s ∈ S, IsSegment s) (right : ∀ s ∈ P, IsSegment s)

include right in
theorem absolute_ne_root (some : P ≠ []) : 1 < (absolute P).length := by
  cases P with
  | nil => exact absurd rfl some
  | cons q P =>
      have long := List.length_pos_iff.mpr (right q List.mem_cons_self).1
      rw [absolute_eq_dir some, dir_cons, List.length_cons, List.length_append]
      omega

include left right in
theorem absolute_below_iff :
    (absolute S = lit "/" ∨ absolute P = absolute S ∨
      hasPrefix (absolute P) (absolute S ++ lit "/") = true) ↔ S <+: P := by
  rw [lit_slash, hasPrefix, List.isPrefixOf_iff_prefix]
  by_cases root : S = []
  · subst root
    simp [absolute_nil]
  have long := absolute_ne_root left root
  have notRoot : absolute S ≠ [47] := by
    intro same
    rw [same] at long
    simp at long
  by_cases top : P = []
  · subst top
    have shorter : ¬ absolute S ++ [47] <+: [47] := by
      intro pre
      have bound := pre.length_le
      simp only [List.length_append, List.length_singleton] at bound
      omega
    simp [absolute_nil, notRoot, Ne.symm notRoot, shorter, root]
  · rw [absolute_eq_dir root] at notRoot ⊢
    rw [absolute_eq_dir top, ← dir_prefix_iff left right, below_iff]
    simp [notRoot]

include right in
theorem length_absolute_lt (pre : S <+: P) (shorter : S ≠ P) :
    (absolute S).length < (absolute P).length := by
  have some : P ≠ [] := by
    rintro rfl
    exact shorter (List.prefix_nil.mp pre)
  by_cases root : S = []
  · subst root
    simpa [absolute_nil] using absolute_ne_root right some
  · rw [absolute_eq_dir root, absolute_eq_dir some]
    obtain ⟨rest, rfl⟩ := pre
    cases rest with
    | nil => simp at shorter
    | cons q rest => simp [dir]

end Ancestors

end Gosestor.Go
