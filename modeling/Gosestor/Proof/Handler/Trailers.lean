import Gosestor.Proof.Handler.Header

/-!
# What is left of the trailers of a header

Header names are the same when they differ in the case of ASCII letters only. For names made of
token bytes, `http.CanonicalHeaderKey` decides just that.
-/

namespace Gosestor.Go

open Gosestor.Lib

def lowerLetters (name : GoString) : GoString := name.map (canonicalByte false)

def SameLetters (a b : GoString) : Prop := lowerLetters a = lowerLetters b

instance (a b : GoString) : Decidable (SameLetters a b) :=
  inferInstanceAs (Decidable (lowerLetters a = lowerLetters b))

theorem canonicalByte_of_lower (upper : Bool) (b : UInt8) :
    canonicalByte upper (canonicalByte false b) = canonicalByte upper b := by
  revert b
  apply forall_byte
  cases upper <;> decide +kernel

theorem lower_canonicalByte (upper : Bool) (b : UInt8) :
    canonicalByte false (canonicalByte upper b) = canonicalByte false b := by
  revert b
  apply forall_byte
  cases upper <;> decide +kernel

theorem isTokenByte_lower (b : UInt8) : isTokenByte (canonicalByte false b) = isTokenByte b := by
  revert b
  apply forall_byte
  decide +kernel

theorem canonicalBytes_lowerLetters (upper : Bool) (name : GoString) :
    canonicalBytes upper (lowerLetters name) = canonicalBytes upper name := by
  induction name generalizing upper with
  | nil => rfl
  | cons b rest ih =>
      rw [lowerLetters, List.map_cons, canonicalBytes_cons, canonicalBytes_cons,
        canonicalByte_of_lower, ← lowerLetters, ih]

theorem lowerLetters_canonicalBytes (upper : Bool) (name : GoString) :
    lowerLetters (canonicalBytes upper name) = lowerLetters name := by
  induction name generalizing upper with
  | nil => rfl
  | cons b rest ih =>
      rw [canonicalBytes_cons, lowerLetters, lowerLetters, List.map_cons, List.map_cons,
        lower_canonicalByte, ← lowerLetters, ih, lowerLetters]

theorem SameLetters.all_token {a b : GoString} (same : SameLetters a b) :
    a.all isTokenByte = b.all isTokenByte := by
  have lower : ∀ name : GoString, (lowerLetters name).all isTokenByte = name.all isTokenByte := by
    intro name
    rw [lowerLetters, List.all_map]
    exact congrArg name.all (funext isTokenByte_lower)
  rw [← lower a, same, lower b]

theorem canonicalHeaderKey_eq_iff {a b : GoString} (token : b.all isTokenByte = true) :
    canonicalHeaderKey a = canonicalHeaderKey b ↔ SameLetters a b := by
  have canonical : canonicalHeaderKey b = canonicalBytes true b := if_pos token
  rw [canonical]
  constructor
  · intro same
    cases named : a.all isTokenByte with
    | true =>
        rw [canonicalHeaderKey, if_pos named] at same
        rw [SameLetters, ← lowerLetters_canonicalBytes true a, same, lowerLetters_canonicalBytes]
    | false =>
        -- A name that is left alone would be the canonical form of a token.
        rw [canonicalHeaderKey, if_neg (by simp [named])] at same
        rw [same, canonicalBytes_token token] at named
        cases named
  · intro same
    rw [canonicalHeaderKey, if_pos (same.all_token.trans token), ← canonicalBytes_lowerLetters,
      same, canonicalBytes_lowerLetters]

theorem toLower_cons {b : UInt8} {rest : GoString} (other : b ≠ 0xE2 ∧ b ≠ 0xC4) :
    toLower (b :: rest) = canonicalByte false b :: toLower rest := by
  rw [toLower]
  · simp [canonicalByte]
  · rintro rest' rfl
    exact absurd rfl other.1
  · rintro rest' rfl
    exact absurd rfl other.2

theorem toLower_head {c : UInt8} {pre s : GoString} (found : (c :: pre) <+: toLower s) :
    (∃ b rest, s = b :: rest ∧ canonicalByte false b = c ∧ pre <+: toLower rest) ∨
      (c = 107 ∧ ∃ rest, s = 0xE2 :: 0x84 :: 0xAA :: rest ∧ pre <+: toLower rest) ∨
      (c = 105 ∧ ∃ rest, s = 0xC4 :: 0xB0 :: rest ∧ pre <+: toLower rest) := by
  unfold toLower at found
  split at found
  · obtain ⟨rfl, later⟩ := List.cons_prefix_cons.mp found
    exact .inr (.inl ⟨rfl, _, rfl, later⟩)
  · obtain ⟨rfl, later⟩ := List.cons_prefix_cons.mp found
    exact .inr (.inr ⟨rfl, _, rfl, later⟩)
  · obtain ⟨rfl, later⟩ := List.cons_prefix_cons.mp found
    refine .inl ⟨_, _, rfl, ?_, later⟩
    simp [canonicalByte]
  · cases List.eq_nil_of_prefix_nil found

theorem toLower_head_plain {c : UInt8} {pre s : GoString} (plain : c ≠ 107 ∧ c ≠ 105)
    (found : (c :: pre) <+: toLower s) :
    ∃ b rest, s = b :: rest ∧ canonicalByte false b = c ∧ pre <+: toLower rest := by
  obtain here | ⟨rfl, -⟩ | ⟨rfl, -⟩ := toLower_head found
  · exact here
  · exact absurd rfl plain.1
  · exact absurd rfl plain.2

end Gosestor.Go

namespace Gosestor

open Gosestor.Go Gosestor.Lib

def Managed (names : List GoString) (name : GoString) : Prop := ∃ n ∈ names, SameLetters name n
  deriving Decidable

/-- The key announces the trailer `name` by the prefix of `net/http`, in any case of its letters. -/
def TrailerKey (key name : GoString) : Prop :=
  ∃ start, key = start ++ name ∧ SameLetters start trailerPrefix

theorem managed_iff {names : List GoString} (tokens : ∀ n ∈ names, n.all isTokenByte = true)
    (name : GoString) :
    canonicalHeaderKey name ∈ names.map canonicalHeaderKey ↔ Managed names name := by
  rw [List.mem_map]
  constructor
  · rintro ⟨n, member, same⟩
    exact ⟨n, member, (canonicalHeaderKey_eq_iff (tokens n member)).mp same.symm⟩
  · rintro ⟨n, member, same⟩
    exact ⟨n, member, ((canonicalHeaderKey_eq_iff (tokens n member)).mpr same).symm⟩

theorem Managed.token {names : List GoString} (tokens : ∀ n ∈ names, n.all isTokenByte = true)
    {name : GoString} (managed : Managed names name) : name.all isTokenByte = true := by
  obtain ⟨n, member, same⟩ := managed
  exact same.all_token.trans (tokens n member)

theorem lower_trailerPrefix : toLower trailerPrefix = [116, 114, 97, 105, 108, 101, 114, 58] := by
  decide

theorem prefixedTrailer_of_trailerKey {key name : GoString} (named : TrailerKey key name) :
    prefixedTrailer key = some name := by
  obtain ⟨start, rfl, same⟩ := named
  have length : start.length = trailerPrefix.length := by
    simpa [SameLetters, lowerLetters] using congrArg List.length same
  have lower : toLower (start ++ name) = lowerLetters start ++ toLower name := by
    have ascii : ∀ b ∈ start, canonicalByte false b ∈ lowerLetters trailerPrefix := by
      intro b member
      rw [← same]
      exact List.mem_map_of_mem member
    clear same length
    induction start with
    | nil => rfl
    | cons b rest ih =>
        have plain : ∀ b : UInt8, canonicalByte false b ∈ lowerLetters trailerPrefix →
            b ≠ 0xE2 ∧ b ≠ 0xC4 := by
          apply forall_byte
          decide +kernel
        rw [List.cons_append, toLower_cons (plain b (ascii b List.mem_cons_self)),
          ih fun b member => ascii b (List.mem_cons_of_mem _ member)]
        rfl
  have found : hasPrefix (toLower (start ++ name)) (toLower trailerPrefix) = true := by
    have prefixed : toLower trailerPrefix = lowerLetters start := by
      rw [same]
      decide
    rw [lower, prefixed]
    exact List.isPrefixOf_iff_prefix.mpr (List.prefix_append _ _)
  rw [prefixedTrailer, if_pos found, ← length, List.drop_left]

theorem trailerKey_of_prefixedTrailer {key name : GoString}
    (named : prefixedTrailer key = some name) (token : name.all isTokenByte = true) :
    TrailerKey key name := by
  -- U+0130 in the place of the `i` moves the colon into the name.
  unfold prefixedTrailer at named
  split_ifs at named with found
  have found := List.isPrefixOf_iff_prefix.mp found
  rw [lower_trailerPrefix] at found
  obtain ⟨t, key, rfl, lowerT, found⟩ := toLower_head_plain (by decide) found
  obtain ⟨r, key, rfl, lowerR, found⟩ := toLower_head_plain (by decide) found
  obtain ⟨a, key, rfl, lowerA, found⟩ := toLower_head_plain (by decide) found
  obtain ⟨i, key, rfl, lowerI, found⟩ | ⟨wrong, -⟩ | ⟨-, key, rfl, later⟩ := toLower_head found
  · obtain ⟨l, key, rfl, lowerL, found⟩ := toLower_head_plain (by decide) found
    obtain ⟨e, key, rfl, lowerE, found⟩ := toLower_head_plain (by decide) found
    obtain ⟨r', key, rfl, lowerR', found⟩ := toLower_head_plain (by decide) found
    obtain ⟨colon, key, rfl, lowerColon, -⟩ := toLower_head_plain (by decide) found
    refine ⟨[t, r, a, i, l, e, r', colon], ?_, ?_⟩
    · rw [← Option.some.inj named]
      rfl
    · simp only [SameLetters, lowerLetters, List.map_cons, List.map_nil, lowerT, lowerR, lowerA,
        lowerI, lowerL, lowerE, lowerR', lowerColon]
      decide
  · cases wrong
  · obtain ⟨l, key, rfl, -, later⟩ := toLower_head_plain (by decide) later
    obtain ⟨e, key, rfl, -, later⟩ := toLower_head_plain (by decide) later
    obtain ⟨r', key, rfl, -, later⟩ := toLower_head_plain (by decide) later
    obtain ⟨colon, key, rfl, lowerColon, -⟩ := toLower_head_plain (by decide) later
    have shifted : name = colon :: key := (Option.some.inj named).symm
    rw [shifted, List.all_cons, Bool.and_eq_true, ← isTokenByte_lower, lowerColon] at token
    cases token.1

/-- `h'` is `h` without the trailers of the managed names, and with everything else. -/
structure TrailersScrubbed (names : List GoString) (h h' : Header) : Prop where
  undeclared : ∀ name ∈ declaredTrailers h', ¬ Managed names name
  unprefixed : ∀ key name, TrailerKey key name → Managed names name → GoMap.get h' key = none
  gone : ∀ name ∈ declaredTrailers h, Managed names name →
    ∀ key, SameLetters key name → GoMap.get h' key = none
  kept : (declaredTrailers h').filter (· ≠ []) =
    (declaredTrailers h).filter fun name => name ≠ [] ∧ ¬ Managed names name
  others : ∀ key, key ≠ trailerName →
    (∀ name ∈ declaredTrailers h, Managed names name → ¬ SameLetters key name) →
    (∀ name, TrailerKey key name → ¬ Managed names name) → GoMap.get h' key = GoMap.get h key

section TrailersScrubbed

variable {h : Header} {names : List GoString}

theorem strip_gone (canonical : ∀ key, GoMap.get h key ≠ none → canonicalHeaderKey key = key)
    (tokens : ∀ n ∈ names, n.all isTokenByte = true)
    (apart : ∀ n ∈ names, ¬ SameLetters n trailerName) {name : GoString}
    (declared : name ∈ declaredTrailers h) (managed : Managed names name) {key : GoString}
    (same : SameLetters key name) : GoMap.get (stripManagedTrailerDeclarations h names) key = none := by
  have token := managed.token tokens
  have other : key ≠ trailerName := by
    rintro rfl
    obtain ⟨n, member, named⟩ := managed
    exact apart n member (named.symm.trans same.symm)
  rw [get_strip_eq, get_withoutDeclarations h names other]
  split_ifs with dropped deleted
  · rfl
  · rfl
  · by_contra held
    apply deleted
    rw [List.mem_map]
    refine ⟨name, List.mem_filter.mpr ⟨declared, ?_⟩, ?_⟩
    · exact decide_eq_true ((managed_iff tokens name).mpr managed)
    · rw [← canonical key held]
      exact ((canonicalHeaderKey_eq_iff token).mpr same).symm

theorem strip_kept (tokens : ∀ n ∈ names, n.all isTokenByte = true) :
    (declaredTrailers (stripManagedTrailerDeclarations h names)).filter (· ≠ []) =
      (declaredTrailers h).filter fun name => name ≠ [] ∧ ¬ Managed names name := by
  rw [declaredTrailers_strip_eq, keptTrailers, List.filter_filter]
  apply List.filter_congr
  intro name _
  by_cases empty : name = []
  · simp [empty]
  · simp [empty, ← managed_iff tokens name]

theorem strip_others (tokens : ∀ n ∈ names, n.all isTokenByte = true) {key : GoString}
    (other : key ≠ trailerName)
    (undeclared : ∀ name ∈ declaredTrailers h, Managed names name → ¬ SameLetters key name)
    (unprefixed : ∀ name, TrailerKey key name → ¬ Managed names name) :
    GoMap.get (stripManagedTrailerDeclarations h names) key = GoMap.get h key := by
  rw [get_strip_eq, if_neg, get_withoutDeclarations h names other, if_neg]
  · intro deleted
    obtain ⟨name, found, same⟩ := List.mem_map.mp deleted
    obtain ⟨declared, blocked⟩ := List.mem_filter.mp found
    have managed := (managed_iff tokens name).mp (of_decide_eq_true blocked)
    have token := managed.token tokens
    apply undeclared name declared managed
    rw [← same, ← canonicalHeaderKey_eq_iff token, canonicalHeaderKey_idem]
  · intro dropped
    obtain ⟨name, named, blocked⟩ := (Option.any_eq_true _ _).mp dropped
    have managed := (managed_iff tokens name).mp (of_decide_eq_true blocked)
    exact unprefixed name (trailerKey_of_prefixedTrailer named (managed.token tokens)) managed

theorem strip_strip (key : GoString) :
    GoMap.get (stripManagedTrailerDeclarations (stripManagedTrailerDeclarations h names) names) key =
      GoMap.get (stripManagedTrailerDeclarations h names) key := by
  have kept : keptTrailers (stripManagedTrailerDeclarations h names) names =
      keptTrailers h names := by
    rw [keptTrailers, declaredTrailers_strip_eq, keptTrailers, List.filter_filter]
    simp only [Bool.and_self]
  by_cases trailer : key = trailerName
  · rw [trailer, get_strip_trailer, get_strip_trailer, kept]
  rw [get_strip_eq]
  split_ifs with dropped
  · obtain ⟨name, named, blocked⟩ := (Option.any_eq_true _ _).mp dropped
    by_contra held
    exact (strip_noTrailers h names).prefixed key name (Ne.symm held) named
      (of_decide_eq_true blocked)
  · rw [get_withoutDeclarations _ _ trailer, if_neg]
    intro deleted
    obtain ⟨name, found, -⟩ := List.mem_map.mp deleted
    obtain ⟨declared, blocked⟩ := List.mem_filter.mp found
    exact declaredTrailers_strip h names name declared (of_decide_eq_true blocked)

/-- On canonical keys, and for names of token bytes, the trailers of the managed names go, all else
stays, and a second time changes nothing. -/
theorem managed_trailers_are_scrubbed
    (keys : ∀ key, GoMap.get h key ≠ none →
      canonicalHeaderKey key = key ∨ ∃ name, TrailerKey key name)
    (tokens : ∀ n ∈ names, n.all isTokenByte = true)
    (apart : ∀ n ∈ names, ¬ SameLetters n trailerName) :
    TrailersScrubbed names h (stripManagedTrailerDeclarations h names) ∧
      ∀ key, GoMap.get
        (stripManagedTrailerDeclarations (stripManagedTrailerDeclarations h names) names) key =
          GoMap.get (stripManagedTrailerDeclarations h names) key := by
  have canonical : ∀ key, GoMap.get h key ≠ none → canonicalHeaderKey key = key := by
    intro key held
    obtain canonical | ⟨name, named⟩ := keys key held
    · exact canonical
    · exact prefixedTrailer_canonical (prefixedTrailer_of_trailerKey named)
  refine ⟨⟨?_, ?_, ?_, strip_kept tokens, ?_⟩, strip_strip⟩
  · intro name declared managed
    exact declaredTrailers_strip h names name declared ((managed_iff tokens name).mpr managed)
  · intro key name named managed
    rw [get_strip_eq, if_pos]
    rw [prefixedTrailer_of_trailerKey named]
    exact decide_eq_true ((managed_iff tokens name).mpr managed)
  · intro name declared managed key same
    exact strip_gone canonical tokens apart declared managed same
  · intro key other undeclared unprefixed
    exact strip_others tokens other undeclared unprefixed

end TrailersScrubbed

def announcing (name : GoString) : Header :=
  GoMap.set (((∅ : Header).set trailerName (name ++ lit ", X-Sum")).set name (lit "7"))
    (trailerPrefix ++ name) [lit "8"]

theorem announced_identity_is_scrubbed :
    let names := [lit "X-Identity"]
    let h := announcing (lit "x-identity")
    let scrubbed := stripManagedTrailerDeclarations h names
    h.keys.length = 3 ∧ TrailersScrubbed names h scrubbed ∧ scrubbed.keys = [trailerName] ∧
      scrubbed.values trailerName = [lit "X-Sum"] := by
  refine ⟨by decide, ?_, by decide, by decide⟩
  refine (managed_trailers_are_scrubbed ?_ (by decide) (by decide)).1
  intro key held
  have canonical : ∀ key ∈ (announcing (lit "x-identity")).keys, canonicalHeaderKey key = key := by
    decide
  exact .inl (canonical key (GoMap.mem_keys.mpr held))

/-- A name with a byte outside the token alphabet has no canonical form, so a declaration with
other letters passes. -/
theorem spaced_name_stays_declared :
    let names := [lit "x identity"]
    let h := (∅ : Header).set trailerName (lit "X Identity")
    (∀ key, GoMap.get h key ≠ none → canonicalHeaderKey key = key) ∧
      (∀ n ∈ names, ¬ SameLetters n trailerName) ∧
      ∃ name ∈ declaredTrailers (stripManagedTrailerDeclarations h names), Managed names name := by
  refine ⟨?_, by decide, lit "X Identity", by decide, by decide⟩
  intro key held
  have canonical : ∀ key ∈ ((∅ : Header).set trailerName (lit "X Identity")).keys,
      canonicalHeaderKey key = key := by
    decide
  exact canonical key (GoMap.mem_keys.mpr held)

end Gosestor
