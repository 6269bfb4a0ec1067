import Gosestor.Go.Strings

/-!
# Trimming, splitting, decimal texts and the range of `int64`
-/

namespace Gosestor.Go

theorem forall_byte {P : UInt8 → Prop} (holds : ∀ n < 256, P (UInt8.ofNat n)) (b : UInt8) : P b := by
  have same := holds b.toNat b.toNat_lt
  rwa [UInt8.ofNat_toNat] at same

section Runes

variable {width : GoString → Nat}

theorem dropRunes_of_zero {s : GoString} (none : width s = 0) (fuel : Nat) :
    dropRunes width fuel s = s := by
  cases fuel with
  | zero => rfl
  | succ fuel => simp [dropRunes, none]

theorem dropRunes_suffix (fuel : Nat) (s : GoString) : dropRunes width fuel s <:+ s := by
  induction fuel generalizing s with
  | zero => exact List.suffix_refl s
  | succ fuel ih =>
      unfold dropRunes
      split_ifs with none
      · exact List.suffix_refl s
      · exact (ih _).trans (List.drop_suffix _ _)

theorem width_dropRunes (empty : width [] = 0) {fuel : Nat} {s : GoString}
    (enough : s.length ≤ fuel) : width (dropRunes width fuel s) = 0 := by
  induction fuel generalizing s with
  | zero =>
      have nil : s = [] := List.length_eq_zero_iff.mp (by omega)
      subst nil
      exact empty
  | succ fuel ih =>
      unfold dropRunes
      split_ifs with none
      · exact none
      · refine ih ?_
        rw [List.length_drop]
        omega

end Runes

theorem spaceLen_of_prefix {s t : GoString} (pre : s <+: t) (none : spaceLen t = 0) :
    spaceLen s = 0 := by
  obtain ⟨rest, rfl⟩ := pre
  match s, rest with
  | [], _ => rfl
  | [b], [] => exact none
  | [b], [c] =>
      simp only [spaceLen, List.cons_append, List.nil_append] at none ⊢
      split_ifs at none ⊢
      rfl
  | [b], c :: d :: rest =>
      simp only [spaceLen, List.cons_append, List.nil_append] at none ⊢
      split_ifs at none ⊢
      rfl
  | [b, c], [] => exact none
  | [b, c], d :: rest =>
      simp only [spaceLen, List.cons_append, List.nil_append] at none ⊢
      split_ifs at none ⊢
      rfl
  | b :: c :: d :: s, rest => simpa [spaceLen] using none

theorem trimLeftSpace_space (s : GoString) : trimLeftSpace (32 :: s) = trimLeftSpace s := by
  have one : spaceLen (32 :: s) = 1 := by
    match s with
    | [] => rfl
    | [_] => rfl
    | _ :: _ :: _ => rfl
  simp [trimLeftSpace, dropRunes, one]

theorem trimSpace_space (s : GoString) : trimSpace (32 :: s) = trimSpace s := by
  rw [trimSpace, trimLeftSpace_space, trimSpace]

theorem trimRightSpace_isPrefix (s : GoString) : trimRightSpace s <+: s := by
  have suffix : dropRunes spaceLenLast s.length s.reverse <:+ s.reverse := dropRunes_suffix _ _
  simpa [trimRightSpace] using List.reverse_prefix.mpr suffix

theorem trimSpace_subset (s : GoString) : trimSpace s ⊆ s :=
  List.Subset.trans (trimRightSpace_isPrefix _).subset (dropRunes_suffix _ _).subset

theorem trimSpace_idem (s : GoString) : trimSpace (trimSpace s) = trimSpace s := by
  have left : spaceLen (trimSpace s) = 0 :=
    spaceLen_of_prefix (trimRightSpace_isPrefix _) (width_dropRunes rfl le_rfl)
  have right : spaceLenLast (trimSpace s).reverse = 0 := by
    rw [trimSpace, trimRightSpace, List.reverse_reverse]
    exact width_dropRunes rfl (by simp)
  rw [trimSpace, trimLeftSpace, dropRunes_of_zero left, trimRightSpace, dropRunes_of_zero right,
    List.reverse_reverse]

theorem notMem_of_mem_split {s piece : GoString} {sep : UInt8} (member : piece ∈ split s sep) :
    sep ∉ piece := by
  induction s generalizing piece with
  | nil =>
      have empty : piece = [] := by simpa [split] using member
      simp [empty]
  | cons b s ih =>
      rw [split, List.splitOn_cons_eq_if_modifyHead] at member
      split_ifs at member with same
      · obtain rfl | later := List.mem_cons.mp member
        · simp
        · exact ih later
      · cases pieces : s.splitOn sep with
        | nil => simp [pieces] at member
        | cons first rest =>
            rw [pieces, List.modifyHead_cons] at member
            obtain rfl | later := List.mem_cons.mp member
            · have clean : sep ∉ first := ih (by simp [split, pieces])
              have other : sep ≠ b := by
                rintro rfl
                simp at same
              simp [clean, other]
            · exact ih (by simp [split, pieces, later])

theorem join_blank (sep : UInt8) (first : GoString) (rest : List GoString) :
    join (first :: rest) [sep, 32] = [sep].intercalate (first :: rest.map (32 :: ·)) := by
  rw [join]
  induction rest generalizing first with
  | nil => rfl
  | cons next rest ih =>
      rw [List.intercalate_cons_cons, ih, List.map_cons, List.intercalate_cons_cons]
      cases rest with
      | nil => simp
      | cons last rest => simp [List.intercalate_cons_cons]

theorem split_join_blank {sep : UInt8} (other : sep ≠ 32) {first : GoString}
    {rest : List GoString} (clean : ∀ part ∈ first :: rest, sep ∉ part) :
    split (join (first :: rest) [sep, 32]) sep = first :: rest.map (32 :: ·) := by
  have pieces : ∀ piece ∈ first :: rest.map (32 :: ·), sep ∉ piece := by
    intro piece member
    obtain rfl | later := List.mem_cons.mp member
    · exact clean piece List.mem_cons_self
    · obtain ⟨part, listed, rfl⟩ := List.mem_map.mp later
      simpa [other] using clean part (List.mem_cons_of_mem first listed)
  rw [join_blank, split, List.splitOn_intercalate sep pieces (by simp)]

theorem split_join_comma {names : List GoString} (clean : ∀ name ∈ names, 44 ∉ name)
    (trimmed : ∀ name ∈ names, trimSpace name = name) (some : names ≠ []) :
    (split (join names (lit ", ")) 44).map trimSpace = names := by
  have comma : lit ", " = [44, 32] := by decide
  cases names with
  | nil => exact absurd rfl some
  | cons first rest =>
      have read : rest.map (trimSpace ∘ (32 :: ·)) = rest := by
        refine (List.map_congr_left fun name member => ?_).trans rest.map_id
        exact (trimSpace_space name).trans (trimmed name (List.mem_cons_of_mem first member))
      rw [comma, split_join_blank (by decide) clean, List.map_cons, List.map_map, read,
        trimmed first List.mem_cons_self]

theorem digit_spec (n : Nat) : isDigit (UInt8.ofNat (48 + n % 10)) = true ∧
    (UInt8.ofNat (48 + n % 10)).toNat - 48 = n % 10 := by
  have each : ∀ d < 10, isDigit (UInt8.ofNat (48 + d)) = true ∧
      (UInt8.ofNat (48 + d)).toNat - 48 = d := by decide
  exact each _ (Nat.mod_lt n (by decide))

theorem decimal_spec {fuel n : Nat} (enough : n < fuel) (acc : GoString) :
    ∃ first rest, decimal fuel n acc = first :: rest ∧ isDigit first = true ∧
      (acc.all isDigit = true → rest.all isDigit = true) ∧
      (first :: rest).foldl (fun n b => 10 * n + (b.toNat - 48)) 0 =
        acc.foldl (fun n b => 10 * n + (b.toNat - 48)) n := by
  induction fuel generalizing n acc with
  | zero => omega
  | succ fuel ih =>
      unfold decimal
      dsimp only
      split_ifs with last
      · refine ⟨_, _, rfl, (digit_spec n).1, id, ?_⟩
        rw [List.foldl_cons, (digit_spec n).2, Nat.mod_eq_of_lt last]
        simp
      · obtain ⟨first, rest, same, digit, all, value⟩ :=
          ih (n := n / 10) (by omega) (UInt8.ofNat (48 + n % 10) :: acc)
        refine ⟨first, rest, same, digit, fun rest => all ?_, value.trans ?_⟩
        · rw [List.all_cons, (digit_spec n).1, rest]
          rfl
        · rw [List.foldl_cons, (digit_spec n).2]
          congr 1
          omega

theorem parseInt_digits {first : UInt8} {rest : GoString} (digit : isDigit first = true)
    (digits : rest.all isDigit = true) (fits : (digitsValue (first :: rest) : Int) < 2 ^ 63) :
    parseInt (first :: rest) = some (digitsValue (first :: rest) : Int) := by
  unfold parseInt
  split
  rename_i negative digits' found
  split at found
  · rename_i same
    cases same
    cases digit
  · rename_i same
    cases same
    cases digit
  · cases found
    simpa [digit, digits] using fits

theorem parseInt_minus {first : UInt8} {rest : GoString} (digit : isDigit first = true)
    (digits : rest.all isDigit = true) (fits : (digitsValue (first :: rest) : Int) ≤ 2 ^ 63) :
    parseInt (45 :: first :: rest) = some (-(digitsValue (first :: rest) : Int)) := by
  simpa [parseInt, digit, digits] using fits

/-- A number is read back from its decimal text. -/
theorem parseInt_formatInt {n : Int} (low : -2 ^ 63 ≤ n) (high : n < 2 ^ 63) :
    parseInt (formatInt n) = some n := by
  obtain ⟨first, rest, same, digit, all, value⟩ :=
    decimal_spec (Nat.lt_succ_self n.natAbs) []
  have value : digitsValue (first :: rest) = n.natAbs := value
  unfold formatInt
  rw [same]
  dsimp only
  split_ifs with negative
  · rw [parseInt_minus digit (all rfl) (by omega), value]
    congr 1
    omega
  · rw [parseInt_digits digit (all rfl) (by omega), value]
    congr 1
    omega

theorem parseInt_nonneg {first : UInt8} {rest : GoString} {m : Int} (digit : isDigit first = true)
    (parsed : parseInt (first :: rest) = some m) : 0 ≤ m := by
  -- A text that starts with a digit has no sign.
  unfold parseInt at parsed
  split at parsed
  rename_i negative digits found
  split at found
  · rename_i same
    cases same
    cases digit
  · rename_i same
    cases same
    cases digit
  · cases found
    simp only [Bool.false_eq_true, if_false] at parsed
    split_ifs at parsed
    all_goals
      cases parsed
      exact Int.natCast_nonneg _

theorem parseInt_formatInt_nonneg {n m : Int} (nonneg : 0 ≤ n)
    (parsed : parseInt (formatInt n) = some m) : 0 ≤ m := by
  obtain ⟨first, rest, same, digit, -, -⟩ := decimal_spec (Nat.lt_succ_self n.natAbs) []
  have text : formatInt n = first :: rest := by
    unfold formatInt
    rw [same]
    exact if_neg (not_lt.mpr nonneg)
  rw [text] at parsed
  exact parseInt_nonneg digit parsed

theorem formatInt_injective : Function.Injective formatInt := by
  intro n m same
  obtain ⟨first, rest, digits, digit, -, value⟩ := decimal_spec (Nat.lt_succ_self n.natAbs) []
  obtain ⟨first', rest', digits', digit', -, value'⟩ := decimal_spec (Nat.lt_succ_self m.natAbs) []
  have abs : first :: rest = first' :: rest' → n.natAbs = m.natAbs := by
    intro equal
    rw [equal] at value
    exact value.symm.trans value'
  unfold formatInt at same
  rw [digits, digits'] at same
  dsimp only at same
  split_ifs at same with negative negative' negative'
  · have := abs (List.cons.inj same).2
    omega
  · cases same
    cases digit'
  · cases same
    cases digit
  · have := abs same
    omega

theorem int64_of_range {n : Int} (low : -2 ^ 63 ≤ n) (high : n < 2 ^ 63) : int64 n = n := by
  unfold int64
  apply Int.bmod_eq_of_le <;> omega

theorem int64_le {n : Int} (low : -2 ^ 63 ≤ n) : int64 n ≤ n := by
  by_cases high : n < 2 ^ 63
  · exact (int64_of_range low high).le
  · have bound : int64 n < (2 ^ 64 + 1) / 2 := Int.bmod_lt (by decide)
    omega

theorem int64_range (n : Int) : -2 ^ 63 ≤ int64 n ∧ int64 n < 2 ^ 63 := by
  have low : -((2 : Int) ^ 64 / 2) ≤ int64 n := Int.le_bmod (by decide)
  have high : int64 n < (2 ^ 64 + 1) / 2 := Int.bmod_lt (by decide)
  omega

theorem int64_neg {n : Int} (low : 2 ^ 63 ≤ n) (high : n < 2 ^ 64) : int64 n < 0 := by
  unfold int64
  rw [Int.bmod_def]
  split_ifs <;> omega

theorem min_le_truncSeconds (d : Int) : min d 0 ≤ Duration.truncSeconds d := by
  have split := Int.tdiv_mul_add_tmod d second
  have low := Int.lt_tmod_of_pos d (b := second) (by decide)
  unfold Duration.truncSeconds
  unfold second at *
  dsimp only
  rcases lt_trichotomy d 0 with negative | rfl | positive
  · have part : 0 ≤ (-d).tmod 1000000000 := Int.tmod_nonneg _ (by omega)
    rw [Int.neg_tmod] at part
    rw [Int.sign_eq_neg_one_of_neg negative]
    split_ifs with carried
    · have := carried.1
      omega
    · omega
  · decide
  · have whole : 0 ≤ Int.tdiv d 1000000000 := Int.tdiv_nonneg positive.le (by decide)
    rw [Int.sign_eq_one_of_pos positive]
    split_ifs <;> omega

theorem log2_le_of_lt {n k : Nat} (small : n < 2 ^ (k + 1)) : n.log2 ≤ k := by
  by_cases zero : n = 0
  · simp [zero]
  · exact Nat.lt_succ_iff.mp ((Nat.log2_lt zero).mpr small)

theorem truncSeconds_bounds {d : Int} (nonneg : 0 ≤ d) (high : d < 2 ^ 63) :
    Duration.truncSeconds d ≤ 9223372036 ∧ (1 ≤ Duration.truncSeconds d ↔ second ≤ d) := by
  -- Nothing is carried into the first second, nor out of the last one.
  have split := Int.tdiv_mul_add_tmod d second
  have part := Int.tmod_nonneg second nonneg
  have small := Int.tmod_lt_of_pos d (b := second) (by decide)
  have whole := Int.tdiv_nonneg nonneg (show (0 : Int) ≤ second by decide)
  have sign : d.sign ≤ 1 ∧ 0 ≤ d.sign := by
    obtain rfl | positive := nonneg.eq_or_lt
    · decide
    · rw [Int.sign_eq_one_of_pos positive]
      decide
  have bits : (Int.tdiv d second).natAbs.log2 ≤ 33 := by
    apply log2_le_of_lt
    unfold second at *
    omega
  unfold Duration.truncSeconds
  unfold second Duration at *
  dsimp only
  split_ifs with carried
  · obtain ⟨-, near⟩ := carried
    have close : (1000000000 - (Int.tmod d 1000000000).natAbs) * 2 ^ 53 < 1000000000 * 2 ^ 33 :=
      near.trans_le (Nat.mul_le_mul_left _ (Nat.pow_le_pow_right (by decide) bits))
    have second : Int.tdiv d 1000000000 ≠ 0 := by
      intro zero
      simp only [zero, Int.natAbs_zero, Nat.log2_zero, Nat.pow_zero] at near
      omega
    constructor
    · omega
    · constructor <;> intro h <;> omega
  · constructor
    · omega
    · constructor <;> intro h <;> omega

theorem mem_encodeToString {b : UInt8} {buf : List UInt8} (member : b ∈ encodeToString buf) :
    ∃ n, b = base64Digit n := by
  fun_induction encodeToString buf with
  | case1 x y z rest n ih =>
      simp only [List.mem_cons] at member
      obtain rfl | rfl | rfl | rfl | later := member
      all_goals first | exact ⟨_, rfl⟩ | exact ih later
  | case2 x y n =>
      simp only [List.mem_cons, List.not_mem_nil, or_false] at member
      obtain rfl | rfl | rfl := member
      all_goals exact ⟨_, rfl⟩
  | case3 x =>
      simp only [List.mem_cons, List.not_mem_nil, or_false] at member
      obtain rfl | rfl := member
      all_goals exact ⟨_, rfl⟩
  | case4 => cases member

end Gosestor.Go
