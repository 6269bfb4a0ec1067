import Gosestor.Go.Http
import Gosestor.Proof.Go.Strings
import Mathlib.Data.List.TakeWhile

/-!
# Cookie pairs

What net/http accepts as a cookie pair, and how the pairs of a `Cookie` header are read back.
-/

namespace Gosestor.Go

theorem cut_of_notMem {s : GoString} {sep : UInt8} (clean : sep ∉ s) :
    cut s sep = (s, [], false) := by
  induction s with
  | nil => rfl
  | cons b s ih =>
      have other : b ≠ sep := fun same => clean (by simp [same])
      have rest : sep ∉ s := fun member => clean (by simp [member])
      simp [cut, other, ih rest]

theorem cut_append {before : GoString} {sep : UInt8} (clean : sep ∉ before) (after : GoString) :
    cut (before ++ sep :: after) sep = (before, after, true) := by
  induction before with
  | nil => simp [cut]
  | cons b before ih =>
      have other : b ≠ sep := fun same => clean (by simp [same])
      have rest : sep ∉ before := fun member => clean (by simp [member])
      simp [cut, other, ih rest]

theorem cut_cases (s : GoString) (sep : UInt8) :
    (sep ∉ s ∧ cut s sep = (s, [], false)) ∨
    ∃ before after, sep ∉ before ∧ s = before ++ sep :: after ∧ cut s sep = (before, after, true) := by
  by_cases member : sep ∈ s
  · obtain ⟨before, after, rfl, clean⟩ := List.eq_append_cons_of_mem member
    exact .inr ⟨before, after, clean, rfl, cut_append clean after⟩
  · exact .inl ⟨member, cut_of_notMem member⟩

theorem trimString_of_ends {s : GoString} (first : ∀ b ∈ s.head?, isTrimByte b = false)
    (last : ∀ b ∈ s.getLast?, isTrimByte b = false) : trimString s = s := by
  have left : s.dropWhile isTrimByte = s := by
    cases s with
    | nil => rfl
    | cons b s => simp [List.dropWhile, first b rfl]
  have right : s.reverse.dropWhile isTrimByte = s.reverse := by
    cases same : s.reverse with
    | nil => rfl
    | cons b rest =>
        have ends : b ∈ s.getLast? := by simp [← List.head?_reverse, same]
        simp [List.dropWhile, last b ends]
  rw [trimString, left, right, List.reverse_reverse]

theorem trimString_of_clean {s : GoString} (clean : ∀ b ∈ s, isTrimByte b = false) :
    trimString s = s := by
  apply trimString_of_ends
  · exact fun b first => clean b (List.mem_of_head? first)
  · exact fun b last => clean b (List.mem_of_getLast? last)

theorem trimString_append {before after : GoString} (left : ∀ b ∈ before, isTrimByte b = true)
    (right : ∀ b ∈ after, isTrimByte b = true) (s : GoString) :
    trimString (before ++ s ++ after) = trimString s := by
  have blank : after.dropWhile isTrimByte = [] := List.dropWhile_eq_nil_iff.mpr right
  rw [trimString, List.append_assoc, List.dropWhile_append_of_pos left, List.dropWhile_append, blank]
  split_ifs with empty
  · rw [trimString, List.isEmpty_iff.mp empty]
  · rw [List.reverse_append, List.dropWhile_append_of_pos (by simpa using right), trimString]

theorem trimString_blank (s : GoString) : trimString (32 :: s) = trimString s := by
  have blank : ∀ b ∈ ([32] : GoString), isTrimByte b = true := by
    intro b member
    rw [List.mem_singleton.mp member]
    rfl
  simpa using trimString_append blank (List.forall_mem_nil _) s

theorem exists_trimString (s : GoString) : ∃ before after,
    (∀ b ∈ before, isTrimByte b = true) ∧ (∀ b ∈ after, isTrimByte b = true) ∧
    s = before ++ trimString s ++ after := by
  refine ⟨s.takeWhile isTrimByte, ((s.dropWhile isTrimByte).reverse.takeWhile isTrimByte).reverse,
    fun b member => List.mem_takeWhile_imp member,
    fun b member => List.mem_takeWhile_imp (List.mem_reverse.mp member), ?_⟩
  rw [trimString, List.append_assoc, ← List.reverse_append, List.takeWhile_append_dropWhile,
    List.reverse_reverse, List.takeWhile_append_dropWhile]

structure IsPair (c : GoString × GoString) : Prop where
  name : isToken c.1 = true
  value : c.2.all validCookieValueByte = true

theorem tokenByte_clean : ∀ b : UInt8, isTokenByte b = true →
    b ≠ 59 ∧ b ≠ 61 ∧ isTrimByte b = false := by
  apply forall_byte
  decide +kernel

theorem validCookieValueByte_ne : ∀ b : UInt8, validCookieValueByte b = true →
    b ≠ 34 ∧ b ≠ 59 := by
  apply forall_byte
  decide +kernel

theorem isToken_clean {name : GoString} (token : isToken name = true) :
    ∀ b ∈ name, b ≠ 59 ∧ b ≠ 61 ∧ isTrimByte b = false := by
  simp only [isToken, Bool.and_eq_true, List.all_eq_true] at token
  exact fun b member => tokenByte_clean b (token.2 b member)

theorem trimString_token {name : GoString} (token : isToken name = true) :
    trimString name = name :=
  trimString_of_clean fun b member => (isToken_clean token b member).2.2

def writePair (c : GoString × GoString) : GoString := c.1 ++ 61 :: c.2

def readPair (part : GoString) : GoString × GoString :=
  (trimString (cut part 61).1, (cut part 61).2.1)

def readPairs (line : GoString) : List (GoString × GoString) := (split line 59).map readPair

namespace IsPair

variable {c : GoString × GoString} (valid : IsPair c)

include valid

theorem equalless : 61 ∉ c.1 := fun member => (isToken_clean valid.name 61 member).2.1 rfl

theorem semicolonless : 59 ∉ writePair c := by
  have name : 59 ∉ c.1 := fun member => (isToken_clean valid.name 59 member).1 rfl
  have value : 59 ∉ c.2 := fun member =>
    (validCookieValueByte_ne 59 (List.all_eq_true.mp valid.value 59 member)).2 rfl
  simp [writePair, name, value]

theorem readPair_writePair : readPair (writePair c) = c := by
  rw [readPair, writePair, cut_append valid.equalless, trimString_token valid.name]

theorem readPair_blank : readPair (32 :: writePair c) = c := by
  have clean : 61 ∉ 32 :: c.1 := by simpa using valid.equalless
  rw [readPair, writePair, ← List.cons_append, cut_append clean, trimString_blank,
    trimString_token valid.name]

end IsPair

theorem readPairs_join {pairs : List (GoString × GoString)} (valid : ∀ c ∈ pairs, IsPair c)
    (some : pairs ≠ []) : readPairs (join (pairs.map writePair) (lit "; ")) = pairs := by
  have semicolon : lit "; " = [59, 32] := by decide
  cases pairs with
  | nil => exact absurd rfl some
  | cons first rest =>
      have clean : ∀ part ∈ writePair first :: rest.map writePair, 59 ∉ part := by
        intro part member
        rw [← List.map_cons] at member
        obtain ⟨c, listed, rfl⟩ := List.mem_map.mp member
        exact (valid c listed).semicolonless
      have read : rest.map (readPair ∘ (32 :: ·) ∘ writePair) = rest := by
        refine (List.map_congr_left fun c member => ?_).trans rest.map_id
        exact (valid c (List.mem_cons_of_mem first member)).readPair_blank
      rw [semicolon, List.map_cons, readPairs, split_join_blank (by decide) clean, List.map_cons,
        List.map_map, List.map_map, (valid first List.mem_cons_self).readPair_writePair]
      exact congrArg (first :: ·) read

theorem parseCookieValue_valid {raw value : GoString} {allow quoted : Bool}
    (parsed : parseCookieValue raw allow = some (value, quoted)) :
    value.all validCookieValueByte = true := by
  simp only [parseCookieValue] at parsed
  split_ifs at parsed with quotes valid valid
  · cases parsed
    exact valid
  · cases parsed
    exact valid

theorem readCookiePart_isPair {filter part : GoString} {c : RequestCookie}
    (read : readCookiePart filter part = some c) : IsPair (c.name, c.value) := by
  simp only [readCookiePart] at read
  split_ifs at read with empty token named
  cases parsed : parseCookieValue (cut (trimString part) 61).2.1 true with
  | none => simp [parsed] at read
  | some value =>
      obtain ⟨value, quoted⟩ := value
      simp only [parsed, Option.some.injEq] at read
      subst read
      exact ⟨by simpa using token, parseCookieValue_valid parsed⟩

theorem readCookies_isPair {h : Header} {filter : GoString} {c : RequestCookie}
    (read : c ∈ readCookies h filter) : IsPair (c.name, c.value) := by
  simp only [readCookies] at read
  split_ifs at read with many
  · cases read
  · obtain ⟨line, -, member⟩ := List.mem_flatMap.mp read
    obtain ⟨part, -, accepted⟩ := List.mem_filterMap.mp member
    exact readCookiePart_isPair accepted

theorem setCookieAttribute_pair (parseTime : GoString → Option Int) (c : Cookie) (part : GoString) :
    (setCookieAttribute parseTime c part).name = c.name ∧
    (setCookieAttribute parseTime c part).value = c.value ∧
    (setCookieAttribute parseTime c part).quoted = c.quoted := by
  unfold setCookieAttribute
  dsimp only
  cases parseCookieValue (cut (trimString part) 61).2.1 false with
  | none =>
      dsimp only
      split_ifs <;> exact ⟨rfl, rfl, rfl⟩
  | some value =>
      dsimp only
      split_ifs <;> exact ⟨rfl, rfl, rfl⟩

theorem attributes_pair (parseTime : GoString → Option Int) (attributes : List GoString)
    (c : Cookie) :
    (attributes.foldl (setCookieAttribute parseTime) c).name = c.name ∧
    (attributes.foldl (setCookieAttribute parseTime) c).value = c.value ∧
    (attributes.foldl (setCookieAttribute parseTime) c).quoted = c.quoted := by
  induction attributes generalizing c with
  | nil => exact ⟨rfl, rfl, rfl⟩
  | cons part attributes ih =>
      obtain ⟨name, value, quoted⟩ := setCookieAttribute_pair parseTime c part
      rw [List.foldl_cons, ← name, ← value, ← quoted]
      exact ih _

theorem parseSetCookie_some {parseTime : GoString → Option Int} {line : GoString} {c : Cookie}
    (parsed : parseSetCookie parseTime line = some c) : ∃ head attributes name raw,
    split (trimString line) 59 = head :: attributes ∧
    cut (trimString head) 61 = (name, raw, true) ∧ trimString name = c.name ∧
    isToken c.name = true ∧ parseCookieValue raw true = some (c.value, c.quoted) := by
  unfold parseSetCookie at parsed
  cases parts : split (trimString line) 59 with
  | nil => simp [parts] at parsed
  | cons head attributes =>
      rcases pair : cut (trimString head) 61 with ⟨name, raw, found⟩
      simp only [parts, pair] at parsed
      split_ifs at parsed with rejected
      simp only [Bool.or_eq_true, Bool.not_eq_true', not_or, Bool.not_eq_false] at rejected
      obtain ⟨rfl, token⟩ := rejected
      cases value : parseCookieValue raw true with
      | none => simp [value] at parsed
      | some value' =>
          obtain ⟨value', quoted⟩ := value'
          simp only [value, Option.some.injEq] at parsed
          obtain ⟨name', same, quotes⟩ := attributes_pair parseTime attributes
            { name := trimString name, value := value', quoted }
          rw [parsed] at name' same quotes
          refine ⟨head, attributes, name, raw, rfl, pair, name'.symm, ?_, ?_⟩
          · rwa [name']
          · rw [same, quotes, value]

theorem parseSetCookie_isPair {parseTime : GoString → Option Int} {line : GoString} {c : Cookie}
    (parsed : parseSetCookie parseTime line = some c) : IsPair (c.name, c.value) := by
  obtain ⟨-, -, -, raw, -, -, -, token, value⟩ := parseSetCookie_some parsed
  exact ⟨token, parseCookieValue_valid value⟩

end Gosestor.Go
