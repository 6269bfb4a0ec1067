import Gosestor.Handler.Interceptor
import Gosestor.Proof.Go.Http
import Gosestor.Proof.Handler.Trailers
import Mathlib.Tactic.Ring

/-!
# Cookies that delete themselves

The scanner of `maxAgeDeletes` as the source writes it, with its flags, and what it decides: the
integer that the last well-formed Max-Age denotes, compared with zero.
-/

namespace Gosestor

open Gosestor.Go

def scanDigits : GoString → Bool → Bool × Bool
  | [], allZero => (true, allZero)
  | ch :: rest, allZero =>
      if ch < 48 || ch > 57 then (false, allZero)
      else scanDigits rest (if ch ≠ 48 then false else allZero)

def scanAttribute (state : Bool × Bool) (part : GoString) : Bool × Bool :=
  let (name, value, found) := cut part 61
  if !found || !equalFold (trimSpace name) (lit "Max-Age") then state
  else
    let value := trimSpace value
    let negative := hasPrefix value (lit "-")
    let digits := if negative then value.drop 1 else value
    if digits = [] then state
    else
      let (valid, allZero) := scanDigits digits true
      if !valid then state else (negative || allZero, true)

def scanMaxAge (raw : GoString) : Bool × Bool :=
  ((split raw 59).drop 1).foldl scanAttribute (false, false)

theorem scanDigits_eq (digits : GoString) (allZero : Bool) :
    (scanDigits digits allZero).1 = digits.all isDigit ∧
    (digits.all isDigit = true →
      (scanDigits digits allZero).2 = (allZero && digits.all (· = 48))) := by
  induction digits generalizing allZero with
  | nil => simp [scanDigits]
  | cons ch rest ih =>
      by_cases digit : isDigit ch = true
      · have inside : (ch < 48 || ch > 57) = false := by
          simpa [isDigit] using digit
        obtain ⟨valid, zero⟩ := ih (if ch ≠ 48 then false else allZero)
        rw [scanDigits, inside, if_neg Bool.false_ne_true, List.all_cons, digit, Bool.true_and]
        refine ⟨valid, fun rest => ?_⟩
        rw [zero rest, List.all_cons]
        by_cases isZero : ch = 48 <;> simp [isZero]
      · have outside : (ch < 48 || ch > 57) = true := by
          simp only [isDigit, Bool.and_eq_true, decide_eq_true_eq, not_and_or, UInt8.not_le] at digit
          simpa using digit
        rw [scanDigits, outside, if_pos rfl, List.all_cons, Bool.not_eq_true _ |>.mp digit]
        simp

def flags (decided : Option Bool) : Bool × Bool := (decided.getD false, decided.isSome)

theorem scanAttribute_eq (decided : Option Bool) (part : GoString) :
    scanAttribute (flags decided) part = flags ((maxAgeDecision part).or decided) := by
  unfold scanAttribute maxAgeDecision
  dsimp only
  by_cases named : (!(cut part 61).2.2 || !equalFold (trimSpace (cut part 61).1) (lit "Max-Age")) = true
  · rw [if_pos named, if_pos named, Option.none_or]
  · rw [if_neg named, if_neg named]
    generalize hasPrefix (trimSpace (cut part 61).2.1) (lit "-") = negative
    generalize (if negative then (trimSpace (cut part 61).2.1).drop 1
      else trimSpace (cut part 61).2.1) = digits
    obtain ⟨valid, zero⟩ := scanDigits_eq digits true
    by_cases empty : digits = []
    · simp [empty]
    · rw [if_neg empty, valid]
      by_cases isNumber : digits.all isDigit = true
      · simp [empty, isNumber, zero isNumber, flags]
      · simp [empty, isNumber]

theorem scanMaxAge_eq (raw : GoString) : scanMaxAge raw = flags (maxAgeDeletes raw) := by
  have each : ∀ (parts : List GoString) (decided : Option Bool),
      parts.foldl scanAttribute (flags decided) =
        flags (parts.foldl (fun decided part => (maxAgeDecision part).or decided) decided) := by
    intro parts
    induction parts with
    | nil => exact fun _ => rfl
    | cons part parts ih =>
        intro decided
        rw [List.foldl_cons, List.foldl_cons, scanAttribute_eq, ih]
  exact each _ none

inductive Denotes : GoString → Int → Prop
  | positive {digits : GoString} (some : digits ≠ []) (each : ∀ b ∈ digits, 48 ≤ b ∧ b ≤ 57) :
      Denotes digits (digitsValue digits)
  | negative {digits : GoString} (some : digits ≠ []) (each : ∀ b ∈ digits, 48 ≤ b ∧ b ≤ 57) :
      Denotes (45 :: digits) (-digitsValue digits)

/-- An attribute of a Set-Cookie line that is a well-formed Max-Age. -/
def MaxAge (part : GoString) (n : Int) : Prop :=
  ∃ name value, part = name ++ 61 :: value ∧ 61 ∉ name ∧
    lowerLetters (trimSpace name) = lit "max-age" ∧ Denotes (trimSpace value) n

def LastMaxAge (raw : GoString) (n : Int) : Prop :=
  ∃ before part after, (split raw 59).drop 1 = before ++ part :: after ∧ MaxAge part n ∧
    ∀ later ∈ after, ∀ m, ¬ MaxAge later m

theorem fold_eq_iff {s t : GoString} (plain : ∀ b ∈ t, b ≠ 107 ∧ b ≠ 115 ∧ b < 128) :
    fold s = t ↔ lowerLetters s = t := by
  -- Folding differs from the ASCII lower case only where it yields `k` or `s`.
  induction s using fold.induct generalizing t with
  | case1 rest ih =>
      constructor
      · rintro rfl
        exact absurd rfl (plain 107 (by simp [fold])).1
      · rintro rfl
        exact absurd (plain (canonicalByte false 0xE2) (by simp [lowerLetters])).2.2 (by decide)
  | case2 rest ih =>
      constructor
      · rintro rfl
        exact absurd rfl (plain 115 (by simp [fold])).2.1
      · rintro rfl
        exact absurd (plain (canonicalByte false 0xC5) (by simp [lowerLetters])).2.2 (by decide)
  | case3 b rest notKelvin notLongS ih =>
      have lower : canonicalByte false b = if 65 ≤ b ∧ b ≤ 90 then b + 32 else b := by
        simp [canonicalByte]
      rw [fold.eq_3 b rest notKelvin notLongS, lowerLetters, List.map_cons, lower]
      cases t with
      | nil => simp
      | cons c t =>
          have later := ih fun b member => plain b (List.mem_cons_of_mem c member)
          rw [List.cons_eq_cons, List.cons_eq_cons, later]
          rfl
  | case4 => rfl

theorem equalFold_maxAge {s : GoString} :
    equalFold s (lit "Max-Age") = true ↔ lowerLetters s = lit "max-age" := by
  have folded : fold (lit "Max-Age") = lit "max-age" := by decide +kernel
  have plain : ∀ b ∈ lit "max-age", b ≠ 107 ∧ b ≠ 115 ∧ b < 128 := by decide +kernel
  rw [equalFold, beq_iff_eq, folded]
  exact fold_eq_iff plain

theorem digitsValue_cons (b : UInt8) (digits : GoString) :
    digitsValue (b :: digits) = (b.toNat - 48) * 10 ^ digits.length + digitsValue digits := by
  have each : ∀ (digits : GoString) (n : Nat),
      digits.foldl (fun n b => 10 * n + (b.toNat - 48)) n =
        n * 10 ^ digits.length + digitsValue digits := by
    intro digits
    induction digits with
    | nil => simp [digitsValue]
    | cons b digits ih =>
        intro n
        rw [digitsValue, List.foldl_cons, List.foldl_cons, ih, ih (10 * 0 + (b.toNat - 48)),
          List.length_cons, pow_succ]
        ring
  rw [digitsValue, List.foldl_cons, each]
  simp

theorem digitsValue_eq_zero_iff {digits : GoString} (each : ∀ b ∈ digits, 48 ≤ b ∧ b ≤ 57) :
    digitsValue digits = 0 ↔ ∀ b ∈ digits, b = 48 := by
  induction digits with
  | nil => simp [digitsValue]
  | cons b digits ih =>
      have low : 48 ≤ b.toNat := by
        simpa using UInt8.le_iff_toNat_le.mp (each b List.mem_cons_self).1
      have zero : b.toNat - 48 = 0 ↔ b = 48 := by
        rw [← UInt8.toNat_inj]
        simp
        omega
      rw [digitsValue_cons, Nat.add_eq_zero_iff, ih fun c member => each c (List.mem_cons_of_mem b member),
        Nat.mul_eq_zero, zero]
      simp

theorem all_isDigit {digits : GoString} :
    digits.all isDigit = true ↔ ∀ b ∈ digits, 48 ≤ b ∧ b ≤ 57 := by
  simp [isDigit]

theorem hasPrefix_minus {s : GoString} : hasPrefix s (lit "-") = true ↔ ∃ t, s = 45 :: t := by
  have minus : lit "-" = [45] := by decide
  rw [hasPrefix, minus, List.isPrefixOf_iff_prefix]
  constructor
  · rintro ⟨t, rfl⟩
    exact ⟨t, rfl⟩
  · rintro ⟨t, rfl⟩
    exact ⟨t, rfl⟩

def valueDecision (value : GoString) : Option Bool :=
  let negative := hasPrefix value (lit "-")
  let digits := if negative then value.drop 1 else value
  if digits = [] || !digits.all isDigit then none else some (negative || digits.all (· = 48))

theorem valueDecision_eq_some {value : GoString} {deletes : Bool} :
    valueDecision value = some deletes ↔ ∃ n, Denotes value n ∧ deletes = decide (n ≤ 0) := by
  constructor
  · intro decided
    unfold valueDecision at decided
    dsimp only at decided
    by_cases negative : hasPrefix value (lit "-") = true
    · obtain ⟨digits, rfl⟩ := hasPrefix_minus.mp negative
      rw [negative, if_pos rfl, List.drop_one, List.tail_cons] at decided
      split_ifs at decided with bad
      simp only [Bool.or_eq_true, decide_eq_true_eq, Bool.not_eq_true', not_or, Bool.not_eq_false] at bad
      refine ⟨_, .negative bad.1 (all_isDigit.mp bad.2), ?_⟩
      rw [← Option.some.inj decided, Bool.true_or]
      symm
      apply decide_eq_true
      omega
    · rw [if_neg negative] at decided
      split_ifs at decided with bad
      simp only [Bool.or_eq_true, decide_eq_true_eq, Bool.not_eq_true', not_or, Bool.not_eq_false] at bad
      have each := all_isDigit.mp bad.2
      refine ⟨_, .positive bad.1 each, ?_⟩
      have zero : digitsValue value = 0 ↔ value.all (· = 48) = true := by
        rw [digitsValue_eq_zero_iff each]
        simp
      rw [← Option.some.inj decided, Bool.not_eq_true _ |>.mp negative, Bool.false_or, Bool.eq_iff_iff,
        ← zero, decide_eq_true_eq]
      omega
  · rintro ⟨n, denotes, rfl⟩
    unfold valueDecision
    dsimp only
    cases denotes with
    | positive some each =>
        have unsigned : hasPrefix value (lit "-") = false := by
          rw [← Bool.not_eq_true, hasPrefix_minus]
          rintro ⟨t, rfl⟩
          exact absurd (each 45 List.mem_cons_self).1 (by decide)
        have zero : digitsValue value = 0 ↔ value.all (· = 48) = true := by
          rw [digitsValue_eq_zero_iff each]
          simp
        rw [unsigned, if_neg Bool.false_ne_true, all_isDigit.mpr each, if_neg (by simp [some]),
          Bool.false_or, Option.some_inj, Bool.eq_iff_iff, ← zero, decide_eq_true_eq]
        omega
    | @negative digits some each =>
        rw [hasPrefix_minus.mpr ⟨digits, rfl⟩, if_pos rfl, List.drop_one, List.tail_cons,
          all_isDigit.mpr each, if_neg (by simp [some]), Bool.true_or, Option.some_inj, eq_comm,
          decide_eq_true_eq]
        omega

theorem maxAgeDecision_eq_some {part : GoString} {deletes : Bool} :
    maxAgeDecision part = some deletes ↔ ∃ n, MaxAge part n ∧ deletes = decide (n ≤ 0) := by
  obtain ⟨absent, pieces⟩ | ⟨name, value, clean, rfl, pieces⟩ := cut_cases part 61
  · have never : maxAgeDecision part = none := by simp [maxAgeDecision, pieces]
    rw [never]
    constructor
    · intro decided
      cases decided
    · rintro ⟨n, ⟨name, value, rfl, -⟩, -⟩
      exact absurd (by simp) absent
  · have only : ∀ n, MaxAge (name ++ 61 :: value) n ↔
        lowerLetters (trimSpace name) = lit "max-age" ∧ Denotes (trimSpace value) n := by
      intro n
      constructor
      · rintro ⟨name', value', same, clean', named, denotes⟩
        have cuts := cut_append clean' value'
        rw [← same, pieces] at cuts
        obtain ⟨rfl, rfl, -⟩ := cuts
        exact ⟨named, denotes⟩
      · rintro ⟨named, denotes⟩
        exact ⟨name, value, rfl, clean, named, denotes⟩
    simp only [only, and_assoc, exists_and_left]
    rw [← valueDecision_eq_some, ← equalFold_maxAge]
    by_cases named : equalFold (trimSpace name) (lit "Max-Age") = true
    · simp [maxAgeDecision, pieces, named, valueDecision]
    · simp [maxAgeDecision, pieces, named]

theorem maxAgeDecision_eq_none {part : GoString} :
    maxAgeDecision part = none ↔ ∀ n, ¬ MaxAge part n := by
  rw [Option.eq_none_iff_forall_ne_some]
  constructor
  · intro undecided n valid
    exact undecided (decide (n ≤ 0)) (maxAgeDecision_eq_some.mpr ⟨n, valid, rfl⟩)
  · intro invalid deletes decided
    obtain ⟨n, valid, -⟩ := maxAgeDecision_eq_some.mp decided
    exact invalid n valid

theorem foldl_or {α β : Type} (f : α → Option β) (xs : List α) (start : Option β) :
    xs.foldl (fun decided x => (f x).or decided) start = (xs.reverse.findSome? f).or start := by
  induction xs generalizing start with
  | nil => rfl
  | cons x xs ih =>
      rw [List.foldl_cons, ih, List.reverse_cons, List.findSome?_append, Option.or_assoc]
      cases found : f x <;> simp [found]

theorem maxAgeDeletes_eq_some {raw : GoString} {deletes : Bool} :
    maxAgeDeletes raw = some deletes ↔ ∃ n, LastMaxAge raw n ∧ deletes = decide (n ≤ 0) := by
  rw [maxAgeDeletes, foldl_or, Option.or_none, List.findSome?_eq_some_iff]
  constructor
  · rintro ⟨after, part, before, reversed, decided, undecided⟩
    obtain ⟨n, valid, same⟩ := maxAgeDecision_eq_some.mp decided
    refine ⟨n, ⟨before.reverse, part, after.reverse, ?_, valid, fun later member => ?_⟩, same⟩
    · rw [← List.reverse_inj, reversed]
      simp
    · exact maxAgeDecision_eq_none.mp (undecided later (List.mem_reverse.mp member))
  · rintro ⟨n, ⟨before, part, after, split, valid, last⟩, same⟩
    refine ⟨after.reverse, part, before.reverse, by simp [split], ?_, fun later member => ?_⟩
    · exact maxAgeDecision_eq_some.mpr ⟨n, valid, same⟩
    · exact maxAgeDecision_eq_none.mpr (last later (List.mem_reverse.mp member))

theorem maxAgeDeletes_isSome {raw : GoString} :
    (maxAgeDeletes raw).isSome = true ↔ ∃ part ∈ (split raw 59).drop 1, ∃ n, MaxAge part n := by
  rw [maxAgeDeletes, foldl_or, Option.or_none, List.isSome_findSome?]
  simp only [List.any_reverse, List.any_eq_true, Option.isSome_iff_exists, maxAgeDecision_eq_some]
  constructor
  · rintro ⟨part, member, -, n, valid, -⟩
    exact ⟨part, member, n, valid⟩
  · rintro ⟨part, member, n, valid⟩
    exact ⟨part, member, _, n, valid, rfl⟩

/-- `maxAgeDeletes` reports a decision exactly for the lines with a well-formed Max-Age, and the
last of them decides by the integer it denotes. Without one, `Expires` decides. -/
theorem deletion_follows_max_age (raw : GoString) (c : Cookie) (now : Int) :
    ((scanMaxAge raw).2 = true ↔ ∃ part ∈ (split raw 59).drop 1, ∃ n, MaxAge part n) ∧
    ((scanMaxAge raw).2 = true ↔ ∃ n, LastMaxAge raw n) ∧
    (∀ n, LastMaxAge raw n → ((scanMaxAge raw).1 = true ↔ n ≤ 0)) ∧
    ((scanMaxAge raw).2 = true → cookieDeletesNow raw c now = (scanMaxAge raw).1) ∧
    ((scanMaxAge raw).2 = false → (cookieDeletesNow raw c now = true ↔
      ∃ expires, c.expires = some expires ∧ ¬ now < expires)) := by
  rw [scanMaxAge_eq]
  refine ⟨maxAgeDeletes_isSome, ?_, fun n last => ?_, fun decided => ?_, fun undecided => ?_⟩
  · rw [flags, Option.isSome_iff_exists]
    constructor
    · rintro ⟨deletes, decided⟩
      obtain ⟨n, last, -⟩ := maxAgeDeletes_eq_some.mp decided
      exact ⟨n, last⟩
    · rintro ⟨n, last⟩
      exact ⟨_, maxAgeDeletes_eq_some.mpr ⟨n, last, rfl⟩⟩
  · have decided := maxAgeDeletes_eq_some.mpr ⟨n, last, rfl⟩
    simp [flags, decided]
  · obtain ⟨deletes, decided⟩ := Option.isSome_iff_exists.mp decided
    simp [cookieDeletesNow, flags, decided]
  · have none : maxAgeDeletes raw = none := by simpa [flags] using undecided
    simp [cookieDeletesNow, none, Option.any_eq_true]

theorem minus_zero_deletes :
    scanMaxAge (lit "sid=x; Max-Age=60; MAX-AGE = -00; max-age=+5") = (true, true) ∧
    ∃ n, LastMaxAge (lit "sid=x; Max-Age=60; MAX-AGE = -00; max-age=+5") n ∧ n ≤ 0 := by
  have scanned : scanMaxAge (lit "sid=x; Max-Age=60; MAX-AGE = -00; max-age=+5") = (true, true) := by
    decide +kernel
  obtain ⟨-, decided, sign, -, -⟩ := deletion_follows_max_age
    (lit "sid=x; Max-Age=60; MAX-AGE = -00; max-age=+5") { name := [], value := [] } 0
  rw [scanned] at decided sign
  obtain ⟨n, last⟩ := decided.mp rfl
  exact ⟨scanned, n, last, (sign n last).mp rfl⟩

end Gosestor
