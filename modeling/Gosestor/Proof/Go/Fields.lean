import Gosestor.Proof.Go.Strings

/-!
# Fields

`fieldsFunc` is described from outside: a field is what stands between separators and has none in
it. Joined with a separator, fields are read back.
-/

namespace Gosestor.Go

structure Separates (width : GoString → Nat) : Prop where
  bounded : ∀ s, width s ≤ s.length
  disjoint : ∀ {s i}, 0 < i → i < width s → width (s.drop i) = 0

structure Standalone (width : GoString → Nat) (sep : UInt8) : Prop where
  single : ∀ s, width (sep :: s) = 1
  apart : ∀ {s}, s ≠ [] → ∀ rest, width (s ++ sep :: rest) = width s

def Unbroken (width : GoString → Nat) (s rest : GoString) : Prop :=
  ∀ t, t ≠ [] → t <:+ s → width (t ++ rest) = 0

/-- The piece `x` stands in `s` between separators, or between one and an end of `s`. -/
def Token (width : GoString → Nat) (s x : GoString) : Prop :=
  x ≠ [] ∧ ∃ before after, s = before ++ x ++ after ∧ Unbroken width x after ∧
    (before = [] ∨ ∃ start sep, before = start ++ sep ∧ sep ≠ [] ∧
      width (sep ++ x ++ after) = sep.length) ∧
    (after = [] ∨ width after ≠ 0)

section Scan

variable {width : GoString → Nat}

def flush (field : GoString) : List GoString := if field = [] then [] else [field]

theorem mem_flush {field x : GoString} : x ∈ flush field ↔ x = field ∧ x ≠ [] := by
  unfold flush
  split_ifs with empty
  · simp [empty]
  · simp only [List.mem_singleton]
    exact ⟨fun same => ⟨same, same ▸ empty⟩, And.left⟩

def scan (width : GoString → Nat) (field s : GoString) : List GoString :=
  fieldsFrom width (s.length + 1) field s

theorem fieldsFrom_fuel {fuel fuel' : Nat} {field s : GoString} (enough : s.length < fuel)
    (enough' : s.length < fuel') :
    fieldsFrom width fuel field s = fieldsFrom width fuel' field s := by
  induction fuel generalizing fuel' field s with
  | zero => omega
  | succ fuel ih =>
      cases fuel' with
      | zero => omega
      | succ fuel' =>
          cases s with
          | nil => rfl
          | cons b s =>
              simp only [List.length_cons] at enough enough'
              unfold fieldsFrom
              split_ifs with none
              · exact ih (by omega) (by omega)
              all_goals
                rw [ih]
                all_goals
                  simp only [List.length_drop, List.length_cons]
                  omega

theorem scan_nil (field : GoString) : scan width field [] = flush field := rfl

theorem scan_step {field s : GoString} {b : UInt8} (none : width (b :: s) = 0) :
    scan width field (b :: s) = scan width (field ++ [b]) s := by
  rw [scan, fieldsFrom, if_pos none]
  rfl

theorem scan_break {field s : GoString} (found : width s ≠ 0) (bounded : width s ≤ s.length) :
    scan width field s = flush field ++ scan width [] (s.drop (width s)) := by
  cases s with
  | nil => simp at bounded; omega
  | cons b s =>
      rw [scan, fieldsFrom, if_neg found, flush]
      refine congrArg _ (fieldsFrom_fuel ?_ (by simp))
      simp only [List.length_drop, List.length_cons]
      omega

theorem scan_unbroken (field : GoString) {x rest : GoString} (unbroken : Unbroken width x rest) :
    scan width field (x ++ rest) = scan width (field ++ x) rest := by
  induction x generalizing field with
  | nil => simp
  | cons b x ih =>
      have none : width (b :: (x ++ rest)) = 0 := unbroken (b :: x) (by simp) (List.suffix_refl _)
      rw [List.cons_append, scan_step none, ih, List.append_assoc, List.singleton_append]
      exact fun t some suffix => unbroken t some (suffix.trans (List.suffix_cons b x))

variable (separates : Separates width)

include separates

theorem scan_stop (start field : GoString) {rest : GoString} (found : width rest ≠ 0) :
    ∃ out, scan width field (start ++ rest) = out ++ scan width [] (rest.drop (width rest)) := by
  induction length : start.length using Nat.strong_induction_on generalizing start field with
  | _ n ih =>
      subst length
      cases start with
      | nil => exact ⟨flush field, scan_break found (separates.bounded rest)⟩
      | cons b start =>
          by_cases none : width (b :: (start ++ rest)) = 0
          · obtain ⟨out, scanned⟩ := ih start.length (by simp) start (field ++ [b]) rfl
            exact ⟨out, by rw [List.cons_append, scan_step none, scanned]⟩
          · have inside : width (b :: (start ++ rest)) ≤ (b :: start).length := by
              by_contra beyond
              apply found
              have gone := separates.disjoint (s := b :: (start ++ rest))
                (i := (b :: start).length) (by simp) (by omega)
              rwa [← List.cons_append, List.drop_left] at gone
            obtain ⟨out, scanned⟩ := ih ((b :: start).drop (width (b :: (start ++ rest)))).length
              (by simp only [List.length_drop, List.length_cons]; omega) _ [] rfl
            refine ⟨flush field ++ out, ?_⟩
            rw [List.cons_append, scan_break none (separates.bounded _), ← List.cons_append,
              List.drop_append_of_le_length (by simpa using inside), List.append_assoc, ← scanned]
            rfl

theorem token_of_mem_scan (before field s : GoString) {x : GoString}
    (unbroken : Unbroken width field s)
    (begins : before = [] ∨ ∃ start sep, before = start ++ sep ∧ sep ≠ [] ∧
      width (sep ++ field ++ s) = sep.length) (member : x ∈ scan width field s) :
    Token width (before ++ field ++ s) x := by
  induction length : s.length using Nat.strong_induction_on generalizing before field s with
  | _ n ih =>
      subst length
      cases s with
      | nil =>
          obtain ⟨rfl, some⟩ := mem_flush.mp member
          exact ⟨some, before, [], rfl, unbroken, begins, .inl rfl⟩
      | cons b s =>
          by_cases none : width (b :: s) = 0
          · rw [scan_step none] at member
            have later := ih s.length (by simp) before (field ++ [b]) s ?_ ?_ member rfl
            · simpa using later
            · intro t some suffix
              obtain rfl | ⟨t, rfl, shorter⟩ := List.suffix_concat_iff.mp suffix
              · exact absurd rfl some
              · by_cases empty : t = []
                · simpa [empty] using none
                · simpa using unbroken t empty shorter
            · simpa using begins
          · have bounded := separates.bounded (b :: s)
            rw [scan_break none bounded] at member
            obtain now | later := List.mem_append.mp member
            · obtain ⟨rfl, some⟩ := mem_flush.mp now
              exact ⟨some, before, b :: s, rfl, unbroken, begins, .inr none⟩
            · have rest := ih ((b :: s).drop (width (b :: s))).length
                (by simp only [List.length_drop, List.length_cons]; omega)
                (before ++ field ++ (b :: s).take (width (b :: s))) []
                ((b :: s).drop (width (b :: s)))
                (fun t some suffix => absurd (List.suffix_nil.mp suffix) some)
                (.inr ⟨before ++ field, (b :: s).take (width (b :: s)), rfl, ?_, ?_⟩) later rfl
              · simpa using rest
              · intro empty
                exact none (by simpa [List.take_eq_nil_iff] using empty)
              · rw [List.append_nil, List.take_append_drop, List.length_take, min_eq_left bounded]

theorem mem_fieldsFunc {s x : GoString} : x ∈ fieldsFunc s width ↔ Token width s x := by
  constructor
  · intro member
    exact token_of_mem_scan separates [] [] s
      (fun t some suffix => absurd (List.suffix_nil.mp suffix) some) (.inl rfl) member
  · rintro ⟨some, before, after, rfl, unbroken, begins, ends⟩
    have last : x ∈ scan width [] (x ++ after) := by
      rw [scan_unbroken [] unbroken]
      obtain rfl | found := ends
      · exact mem_flush.mpr ⟨rfl, some⟩
      · rw [scan_break found (separates.bounded _)]
        exact List.mem_append_left _ (mem_flush.mpr ⟨rfl, some⟩)
    obtain rfl | ⟨start, sep, rfl, nonempty, found⟩ := begins
    · exact last
    · have wide : width (sep ++ (x ++ after)) = sep.length := by simpa using found
      have stops : width (sep ++ (x ++ after)) ≠ 0 := by simpa [wide] using nonempty
      obtain ⟨out, scanned⟩ := scan_stop separates start [] stops
      rw [wide, List.drop_left] at scanned
      have whole : start ++ sep ++ x ++ after = start ++ (sep ++ (x ++ after)) := by simp
      rw [fieldsFunc, whole, ← scan, scanned]
      exact List.mem_append_right _ last

theorem scan_append {sep : UInt8} (standalone : Standalone width sep) (field s rest : GoString) :
    scan width field (s ++ sep :: rest) = scan width field s ++ scan width [] rest := by
  induction length : s.length using Nat.strong_induction_on generalizing field s with
  | _ n ih =>
      subst length
      cases s with
      | nil =>
          have one := standalone.single rest
          rw [List.nil_append, scan_break (by omega) (separates.bounded _), one, scan_nil]
          rfl
      | cons b s =>
          have same := standalone.apart (List.cons_ne_nil b s) rest
          by_cases none : width (b :: s) = 0
          · rw [List.cons_append, scan_step (by simpa [none] using same), scan_step none]
            exact ih s.length (by simp) (field ++ [b]) s rfl
          · have bounded := separates.bounded (b :: s)
            rw [scan_break (by rwa [same]) (separates.bounded _), scan_break none bounded, same,
              List.drop_append_of_le_length bounded, List.append_assoc]
            rw [ih ((b :: s).drop (width (b :: s))).length
              (by simp only [List.length_drop, List.length_cons]; omega) [] _ rfl]

theorem fieldsFunc_join {sep : UInt8} (standalone : Standalone width sep) (parts : List GoString) :
    fieldsFunc (join parts [sep]) width = parts.flatMap (fieldsFunc · width) := by
  induction parts with
  | nil => rfl
  | cons part parts ih =>
      cases parts with
      | nil => simp [join]
      | cons next parts =>
          rw [List.flatMap_cons, ← ih]
          have whole : join (part :: next :: parts) [sep] =
              part ++ sep :: join (next :: parts) [sep] := by
            simp [join, List.intercalate_cons_cons]
          rw [whole]
          exact scan_append separates standalone [] part _

omit separates in
theorem fieldsFunc_unbroken {x : GoString} (some : x ≠ []) (unbroken : Unbroken width x []) :
    fieldsFunc x width = [x] := by
  have scanned := scan_unbroken [] unbroken
  rw [List.append_nil] at scanned
  rw [fieldsFunc, ← scan, scanned]
  simp [scan_nil, flush, some]

end Scan

theorem spaceLen_bounded (s : GoString) : spaceLen s ≤ s.length := by
  match s with
  | [] => exact le_rfl
  | [b] =>
      simp only [spaceLen, List.length_cons]
      split_ifs <;> simp
  | [b, c] =>
      simp only [spaceLen, List.length_cons]
      split_ifs <;> simp
  | b :: c :: d :: s =>
      simp only [spaceLen, List.length_cons]
      split_ifs <;> omega

theorem spaceLen_continuation {c : UInt8} (low : 0x80 ≤ c) (high : c < 0xC0) (s : GoString) :
    spaceLen (c :: s) = 0 := by
  have plain : ∀ c : UInt8, 0x80 ≤ c ∧ c < 0xC0 →
      isSpaceByte c = false ∧ c ≠ 0xC2 ∧ c ≠ 0xE1 ∧ c ≠ 0xE2 ∧ c ≠ 0xE3 := by
    apply forall_byte
    decide +kernel
  obtain ⟨space, two, three, three', three''⟩ := plain c ⟨low, high⟩
  match s with
  | [] => simp [spaceLen, space]
  | [d] => simp [spaceLen, space, two]
  | d :: e :: s => simp [spaceLen, space, two, isWideSpace, three, three', three'']

theorem isWideSpace_continuation {b c d : UInt8} (wide : isWideSpace b c d = true) :
    (0x80 ≤ c ∧ c < 0xC0) ∧ 0x80 ≤ d ∧ d < 0xC0 := by
  simp only [isWideSpace, Bool.or_eq_true, Bool.and_eq_true, beq_iff_eq, decide_eq_true_eq] at wide
  obtain ((⟨⟨-, rfl⟩, rfl⟩ | ⟨⟨-, rfl⟩, ((⟨low, high⟩ | rfl) | rfl) | rfl⟩) | ⟨⟨-, rfl⟩, rfl⟩) |
    ⟨⟨-, rfl⟩, rfl⟩ := wide
  · decide
  · exact ⟨by decide, low, UInt8.lt_of_le_of_lt high (by decide)⟩
  all_goals decide

theorem spaceLen_inside {s : GoString} {i : Nat} (inside : 0 < i) (short : i < spaceLen s) :
    ∃ c rest, s.drop i = c :: rest ∧ 0x80 ≤ c ∧ c < 0xC0 := by
  match s with
  | [] => simp [spaceLen] at short
  | [b] =>
      simp only [spaceLen] at short
      split_ifs at short <;> omega
  | [b, c] =>
      simp only [spaceLen] at short
      split_ifs at short with space two
      · omega
      · have first : i = 1 := by omega
        subst first
        simp only [Bool.and_eq_true, Bool.or_eq_true, beq_iff_eq] at two
        obtain ⟨-, rfl | rfl⟩ := two <;> exact ⟨_, _, rfl, by decide, by decide⟩
      · omega
  | b :: c :: d :: s =>
      simp only [spaceLen] at short
      split_ifs at short with space two wide
      · omega
      · have first : i = 1 := by omega
        subst first
        simp only [Bool.and_eq_true, Bool.or_eq_true, beq_iff_eq] at two
        obtain ⟨-, rfl | rfl⟩ := two <;> exact ⟨_, _, rfl, by decide, by decide⟩
      · obtain ⟨second, third⟩ := isWideSpace_continuation wide
        have cases : i = 1 ∨ i = 2 := by omega
        obtain rfl | rfl := cases
        · exact ⟨_, _, rfl, second⟩
        · exact ⟨_, _, rfl, third⟩
      · omega

theorem spaceLen_disjoint {s : GoString} {i : Nat} (inside : 0 < i) (short : i < spaceLen s) :
    spaceLen (s.drop i) = 0 := by
  obtain ⟨c, rest, same, low, high⟩ := spaceLen_inside inside short
  rw [same]
  exact spaceLen_continuation low high rest

theorem spaceLen_separates : Separates spaceLen := ⟨spaceLen_bounded, spaceLen_disjoint⟩

theorem spaceLen_append {sep : UInt8} (ascii : sep < 0x80) {s : GoString} (some : s ≠ [])
    (rest : GoString) : spaceLen (s ++ sep :: rest) = spaceLen s := by
  -- A byte below 0x80 does not continue a rune.
  have notTwo : ∀ sep : UInt8, sep < 0x80 → sep ≠ 0x85 ∧ sep ≠ 0xA0 := by
    apply forall_byte
    decide +kernel
  have narrow : ∀ b c, isWideSpace b c sep = false := by
    intro b c
    by_contra wide
    have low := (isWideSpace_continuation (by simpa using wide)).2.1
    exact absurd ascii (UInt8.not_lt.mpr low)
  have narrow' : ∀ b d, isWideSpace b sep d = false := by
    intro b d
    by_contra wide
    have low := (isWideSpace_continuation (by simpa using wide)).1.1
    exact absurd ascii (UInt8.not_lt.mpr low)
  match s, rest with
  | [b], [] => simp [spaceLen, notTwo sep ascii]
  | [b], c :: rest => simp [spaceLen, notTwo sep ascii, narrow']
  | [b, c], rest => simp [spaceLen, narrow]
  | b :: c :: d :: s, rest => simp [spaceLen]

theorem blank_standalone : Standalone spaceLen 32 where
  single s := by
    match s with
    | [] => rfl
    | [_] => rfl
    | _ :: _ :: _ => rfl
  apart some rest := spaceLen_append (by decide) some rest

end Gosestor.Go
