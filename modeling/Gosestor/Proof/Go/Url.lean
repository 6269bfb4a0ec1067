import Gosestor.Go.Url
import Gosestor.Proof.Go.Strings

/-!
# Escapes, request targets and references
-/

namespace Gosestor.Go

def queryEscapeByte (b : UInt8) : GoString :=
  if isUnreserved b then [b] else if b = 32 then [43]
  else [37, hexDigit (b / 16), hexDigit (b % 16)]

theorem queryEscape_cons (b : UInt8) (s : GoString) :
    queryEscape (b :: s) = queryEscapeByte b ++ queryEscape s := rfl

theorem unescape_cons (query : Bool) {b : UInt8} (plain : b ≠ 37) (s : GoString) :
    unescape query (b :: s) =
      (unescape query s).map ((if query && b = 43 then 32 else b) :: ·) := by
  rw [unescape.eq_4 query b s (fun _ _ _ same _ => plain same) plain]
  cases unescape query s <;> rfl

theorem unescape_percent (query : Bool) {a b high low : UInt8} (first : hexValue a = some high)
    (second : hexValue b = some low) (s : GoString) :
    unescape query (37 :: a :: b :: s) = (unescape query s).map ((16 * high + low) :: ·) := by
  rw [unescape, first, second]
  cases unescape query s <;> rfl

theorem hexValue_hexDigit :
    ∀ b : UInt8, hexValue (hexDigit (b / 16)) = some (b / 16) ∧
      hexValue (hexDigit (b % 16)) = some (b % 16) ∧ 16 * (b / 16) + b % 16 = b := by
  apply forall_byte
  decide +kernel

theorem isUnreserved_ne : ∀ b : UInt8, isUnreserved b = true → b ≠ 37 ∧ b ≠ 43 := by
  apply forall_byte
  decide +kernel

theorem queryUnescape_queryEscapeByte (b : UInt8) (s : GoString) :
    queryUnescape (queryEscapeByte b ++ s) = (queryUnescape s).map (b :: ·) := by
  unfold queryUnescape queryEscapeByte
  split_ifs with unreserved blank
  · obtain ⟨notPercent, notPlus⟩ := isUnreserved_ne b unreserved
    simpa [notPlus] using unescape_cons true notPercent s
  · subst blank
    exact unescape_cons true (by decide) s
  · obtain ⟨high, low, whole⟩ := hexValue_hexDigit b
    simpa [whole] using unescape_percent true high low s

theorem queryUnescape_queryEscape (s : GoString) : queryUnescape (queryEscape s) = some s := by
  induction s with
  | nil => rfl
  | cons b s ih => rw [queryEscape_cons, queryUnescape_queryEscapeByte, ih, Option.map_some]

theorem unescape_plain {s : GoString} (plain : 37 ∉ s) : pathUnescape s = some s := by
  induction s with
  | nil => rfl
  | cons b s ih =>
      have other : b ≠ 37 := fun same => plain (by simp [same])
      have rest := ih fun member => plain (by simp [member])
      rw [pathUnescape] at rest ⊢
      rw [unescape_cons false other, rest]
      rfl

theorem queryEscape_plain (s : GoString) : ∀ b ∈ queryEscape s, b ≠ 38 ∧ b ≠ 35 := by
  have each : ∀ b : UInt8, (queryEscapeByte b).all (fun c => c != 38 && c != 35) = true := by
    apply forall_byte
    decide +kernel
  intro c member
  obtain ⟨b, -, member⟩ := List.mem_flatMap.mp member
  simpa using List.all_eq_true.mp (each b) c member

theorem hasPrefix_slash_iff {s : GoString} : hasPrefix s (lit "/") = true ↔ ∃ t, s = 47 :: t := by
  have slash : lit "/" = [47] := by decide
  rw [hasPrefix, slash, List.isPrefixOf_iff_prefix]
  constructor
  · rintro ⟨t, rfl⟩
    exact ⟨t, rfl⟩
  · rintro ⟨t, rfl⟩
    exact ⟨t, rfl⟩

theorem pathUnescape_slash {s path : GoString} (decoded : pathUnescape (47 :: s) = some path) :
    hasPrefix path (lit "/") = true := by
  rw [pathUnescape, unescape_cons false (by decide)] at decoded
  obtain ⟨rest, -, rfl⟩ := Option.map_eq_some_iff.mp decoded
  exact hasPrefix_slash_iff.mpr ⟨rest, rfl⟩

theorem dropWhile_slash (s : GoString) :
    s.dropWhile (· ≠ 47) = [] ∨ ∃ t, s.dropWhile (· ≠ 47) = 47 :: t := by
  induction s with
  | nil => exact .inl rfl
  | cons b s ih =>
      by_cases slash : b = 47
      · exact .inr ⟨s, by simp [slash]⟩
      · simpa [List.dropWhile_cons, slash] using ih

theorem parseRequestURI_path {target : GoString} {t : Target}
    (sent : parseRequestURI target = some t) :
    t.path = [] ∨ (t.path = lit "*" ∧ t.rawQuery = []) ∨ hasPrefix t.path (lit "/") = true := by
  unfold parseRequestURI at sent
  split_ifs at sent with bad star
  · cases sent
    exact .inr (.inl ⟨star, rfl⟩)
  · obtain ⟨⟨scheme, rest⟩, -, sent⟩ := Option.bind_eq_some_iff.mp sent
    dsimp only at sent
    split_ifs at sent with relative noScheme authority
    · cases sent
      exact .inl rfl
    · obtain ⟨path, decoded, sent⟩ := Option.bind_eq_some_iff.mp sent
      cases sent
      rcases dropWhile_slash ((cut rest 63).1.drop 2) with none | ⟨s, begins⟩
      · rw [none] at decoded
        cases decoded
        exact .inl rfl
      · rw [begins] at decoded
        exact .inr (.inr (pathUnescape_slash decoded))
    · obtain ⟨path, decoded, sent⟩ := Option.bind_eq_some_iff.mp sent
      cases sent
      obtain ⟨s, begins⟩ := hasPrefix_slash_iff.mp (by simpa using relative)
      rw [begins] at decoded
      exact .inr (.inr (pathUnescape_slash decoded))

namespace Reference

theorem parse_append {s t : GoString} {b : UInt8} (ends : b = 63 ∨ b = 35) :
    parse (s ++ b :: t) = parse s := by
  have stops : (s ++ b :: t).takeWhile (fun b => b ≠ 63 && b ≠ 35) =
      s.takeWhile fun b => b ≠ 63 && b ≠ 35 := by
    induction s with
    | nil => rcases ends with rfl | rfl <;> rfl
    | cons c s ih => rw [List.cons_append, List.takeWhile_cons, List.takeWhile_cons, ih]
  unfold parse
  rw [stops]

theorem parse_slash (s : GoString) :
    (parse (47 :: s)).scheme = none ∧
      ((parse (47 :: s)).authority = none ↔ hasPrefix (47 :: s) (lit "//") = false) := by
  have slashes : lit "//" = [47, 47] := by decide
  cases s with
  | nil => decide
  | cons b s =>
      by_cases slash : b = 47
      · subst slash
        simp [parse, slashes, hasPrefix, List.isPrefixOf]
      · by_cases ends : b = 63 ∨ b = 35
        · rcases ends with rfl | rfl <;> simp [parse, slashes, hasPrefix, List.isPrefixOf]
        · have inside : b ≠ 63 ∧ b ≠ 35 := by tauto
          simp [parse, slashes, hasPrefix, List.isPrefixOf, inside, Ne.symm slash]

theorem parse_path {s : GoString} (plain : 35 ∉ (cut (47 :: s) 63).1)
    (single : hasPrefix (47 :: s) (lit "//") = false) :
    (parse (47 :: s)).path = (cut (47 :: s) 63).1 := by
  have before : ∀ t : GoString, 35 ∉ (cut t 63).1 →
      (t.takeWhile fun b => b ≠ 63 && b ≠ 35) = (cut t 63).1 := by
    intro t
    induction t with
    | nil => exact fun _ => rfl
    | cons b t ih =>
        intro plain
        by_cases mark : b = 63
        · simp [cut, mark]
        · simp only [cut, mark, if_false, List.mem_cons, not_or] at plain ⊢
          rw [List.takeWhile_cons, ih plain.2]
          simp [mark, Ne.symm plain.1]
  have head : (cut (47 :: s) 63).1 = 47 :: (cut s 63).1 := by simp [cut]
  have noAuthority := (parse_slash s).2.mpr single
  unfold parse at noAuthority ⊢
  rw [before _ plain, head] at noAuthority ⊢
  by_cases slashes : hasPrefix (47 :: (cut s 63).1) (lit "//") = true
  · simp [slashes] at noAuthority
  · simp [slashes]

/-- A reference keeps every origin if and only if it names neither scheme nor authority. -/
theorem origin_eq_iff {r : Reference} :
    (∀ site, r.origin site = site) ↔ r.scheme = none ∧ r.authority = none := by
  constructor
  · intro stays
    have here := stays ⟨[], none⟩
    have other := stays ⟨[0], none⟩
    unfold origin at here other
    cases scheme : r.scheme with
    | some name =>
        simp only [scheme, Origin.mk.injEq] at here other
        rw [here.1] at other
        simp at other
    | none =>
        simp only [scheme, Option.or_none, Origin.mk.injEq, true_and] at here
        exact ⟨rfl, here⟩
  · rintro ⟨scheme, authority⟩ site
    simp [origin, scheme, authority]

end Reference

end Gosestor.Go
