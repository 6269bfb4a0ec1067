import Gosestor.Handler.Interceptor
import Gosestor.Proof.Go.Strings

/-!
# Header maps

Lookups after the operations on header maps, and what is left of a header once the trailer
declarations of some names are stripped from it.
-/

namespace Gosestor.Go

open Gosestor.Lib

def canonicalByte (upper : Bool) (b : UInt8) : UInt8 :=
  if upper && 97 ≤ b && b ≤ 122 then b - 32
  else if !upper && 65 ≤ b && b ≤ 90 then b + 32 else b

theorem canonicalByte_idem (upper : Bool) (b : UInt8) :
    canonicalByte upper (canonicalByte upper b) = canonicalByte upper b := by
  revert b
  apply forall_byte
  cases upper <;> decide +kernel

theorem canonicalByte_token {upper : Bool} {b : UInt8} (token : isTokenByte b) :
    isTokenByte (canonicalByte upper b) := by
  revert b
  apply forall_byte
  cases upper <;> decide +kernel

theorem canonicalBytes_cons (upper : Bool) (b : UInt8) (rest : GoString) :
    canonicalBytes upper (b :: rest) =
      canonicalByte upper b :: canonicalBytes (canonicalByte upper b == 45) rest := rfl

theorem canonicalBytes_idem (upper : Bool) (name : GoString) :
    canonicalBytes upper (canonicalBytes upper name) = canonicalBytes upper name := by
  induction name generalizing upper with
  | nil => rfl
  | cons b rest ih => rw [canonicalBytes_cons, canonicalBytes_cons, canonicalByte_idem, ih]

theorem canonicalBytes_token {upper : Bool} {name : GoString} (token : name.all isTokenByte) :
    (canonicalBytes upper name).all isTokenByte := by
  induction name generalizing upper with
  | nil => rfl
  | cons b rest ih =>
      rw [List.all_cons, Bool.and_eq_true] at token
      rw [canonicalBytes_cons, List.all_cons, Bool.and_eq_true]
      exact ⟨canonicalByte_token token.1, ih token.2⟩

@[simp] theorem canonicalHeaderKey_idem (name : GoString) :
    canonicalHeaderKey (canonicalHeaderKey name) = canonicalHeaderKey name := by
  cases token : name.all isTokenByte with
  | true =>
      have canonical : canonicalHeaderKey name = canonicalBytes true name := by
        simp [canonicalHeaderKey, token]
      rw [canonical, canonicalHeaderKey, if_pos (canonicalBytes_token token), canonicalBytes_idem]
  | false =>
      have same : canonicalHeaderKey name = name := by simp [canonicalHeaderKey, token]
      rw [same, same]

namespace Header

variable (h : Header) (name key value : GoString)

theorem get_del : GoMap.get (h.del name) key =
    if key = canonicalHeaderKey name then none else GoMap.get h key :=
  GoMap.get_delete h _ key

theorem get_set : GoMap.get (h.set name value) key =
    if key = canonicalHeaderKey name then some [value] else GoMap.get h key :=
  GoMap.get_set h _ key _

theorem get_add : GoMap.get (h.add name value) key =
    if key = canonicalHeaderKey name then some (h.values name ++ [value]) else GoMap.get h key :=
  GoMap.get_set h _ key _

theorem get_delAll (names : List GoString) : GoMap.get (h.delAll names) key =
    if key ∈ names.map canonicalHeaderKey then none else GoMap.get h key := by
  induction names generalizing h with
  | nil => rfl
  | cons first rest ih =>
      rw [delAll, List.foldl_cons, ← delAll, ih, get_del, List.map_cons]
      by_cases here : key = canonicalHeaderKey first
      · simp [here]
      · simp [here]

theorem values_add : (h.add name value).values name = h.values name ++ [value] := by
  rw [values, get_add, if_pos rfl]
  rfl

variable {h name key}

theorem values_of_get {h' : Header}
    (same : GoMap.get h (canonicalHeaderKey name) = GoMap.get h' (canonicalHeaderKey name)) :
    h.values name = h'.values name := by
  rw [values, same, values]

end Header

end Gosestor.Go

namespace Gosestor

open Gosestor.Go Gosestor.Lib

theorem get_clearHeaders (h : Header) {key : GoString} (canonical : canonicalHeaderKey key = key) :
    GoMap.get (clearHeaders h) key = none := by
  rw [clearHeaders, Header.get_delAll]
  split_ifs with named
  · rfl
  · by_contra held
    refine named (List.mem_map.mpr ⟨key, GoMap.mem_keys.mpr held, canonical⟩)

theorem values_clearHeaders (h : Header) (name : GoString) : (clearHeaders h).values name = [] := by
  rw [Header.values, get_clearHeaders h (canonicalHeaderKey_idem name)]
  rfl

theorem get_copyHeaders (dst src : Header) {key : GoString}
    (canonical : canonicalHeaderKey key = key) :
    GoMap.get (copyHeaders dst src) key = GoMap.get src key := by
  rw [copyHeaders, GoMap.get_copyFrom, get_clearHeaders dst canonical, Option.or_none]

theorem values_copyHeaders (dst src : Header) (name : GoString) :
    (copyHeaders dst src).values name = src.values name :=
  Header.values_of_get (get_copyHeaders dst src (canonicalHeaderKey_idem name))

theorem colon_ne_lower : ∀ b : UInt8, 65 ≤ b ∧ b ≤ 90 → 58 ≠ b + 32 := by
  apply forall_byte
  decide +kernel

theorem colon_of_toLower {s : GoString} (colon : 58 ∈ toLower s) : 58 ∈ s := by
  induction s using toLower.induct with
  | case1 rest ih =>
      rw [toLower, List.mem_cons] at colon
      simpa using ih (colon.resolve_left (by decide))
  | case2 rest ih =>
      rw [toLower, List.mem_cons] at colon
      simpa using ih (colon.resolve_left (by decide))
  | case3 b rest kelvin dotted ih =>
      rw [toLower, List.mem_cons] at colon
      · obtain lowered | later := colon
        · have letter : b = 58 := by
            split_ifs at lowered with capital
            · exact absurd lowered (colon_ne_lower b capital)
            · exact lowered.symm
          simp [letter]
        · exact List.mem_cons_of_mem b (ih later)
      all_goals assumption
  | case4 => exact colon

theorem prefixedTrailer_canonical {key name : GoString} (named : prefixedTrailer key = some name) :
    canonicalHeaderKey key = key := by
  unfold prefixedTrailer at named
  split_ifs at named with found
  have colon : 58 ∈ toLower key := (List.isPrefixOf_iff_prefix.mp found).subset (by decide)
  have foreign : key.all isTokenByte = false := by
    refine List.all_eq_false.mpr ⟨58, colon_of_toLower colon, by decide⟩
  simp [canonicalHeaderKey, foreign]

/-- No trailer of the header is announced under one of the names, in either way. -/
structure NoTrailers (managed : List GoString) (hdr : Header) : Prop where
  declared : ∀ name ∈ declaredTrailers hdr, canonicalHeaderKey name ∉ managed
  prefixed : ∀ key name, GoMap.get hdr key ≠ none → prefixedTrailer key = some name →
    canonicalHeaderKey name ∉ managed

theorem NoTrailers.copy {managed : List GoString} {hdr : Header} (clean : NoTrailers managed hdr)
    (dst : Header) : NoTrailers managed (copyHeaders dst hdr) where
  declared := by
    intro name declared
    rw [declaredTrailers, values_copyHeaders] at declared
    exact clean.declared name declared
  prefixed := by
    intro key name held named
    rw [get_copyHeaders dst hdr (prefixedTrailer_canonical named)] at held
    exact clean.prefixed key name held named

theorem noTrailers_clearHeaders {managed : List GoString} (hdr : Header) :
    NoTrailers managed (clearHeaders hdr) where
  declared := by
    intro name declared
    rw [declaredTrailers, values_clearHeaders] at declared
    cases declared
  prefixed := fun key name held named =>
    absurd (get_clearHeaders hdr (prefixedTrailer_canonical named)) held

section Strip

variable (h : Header) (names : List GoString)

def withoutDeclarations : Header :=
  let managed := names.map canonicalHeaderKey
  let declared := declaredTrailers h
  let h := (h.delAll (declared.filter (canonicalHeaderKey · ∈ managed))).del trailerName
  let kept := declared.filter fun name => canonicalHeaderKey name ∉ managed && name ≠ []
  if kept = [] then h else h.set trailerName (join kept (lit ", "))

theorem strip_eq : stripManagedTrailerDeclarations h names =
    (withoutDeclarations h names).delAll ((withoutDeclarations h names).keys.filter fun key =>
      (prefixedTrailer key).any fun name => canonicalHeaderKey name ∈ names.map canonicalHeaderKey) :=
  rfl

theorem trailerName_canonical : canonicalHeaderKey trailerName = trailerName := by decide

theorem get_withoutDeclarations {key : GoString} (other : key ≠ trailerName) :
    GoMap.get (withoutDeclarations h names) key =
      if key ∈ ((declaredTrailers h).filter
        (canonicalHeaderKey · ∈ names.map canonicalHeaderKey)).map canonicalHeaderKey
      then none else GoMap.get h key := by
  have elsewhere : ¬ key = canonicalHeaderKey trailerName := by rwa [trailerName_canonical]
  unfold withoutDeclarations
  dsimp only
  split
  · rw [Header.get_del, if_neg elsewhere, Header.get_delAll]
  · rw [Header.get_set, if_neg elsewhere, Header.get_del, if_neg elsewhere, Header.get_delAll]

theorem get_strip_eq (key : GoString) :
    GoMap.get (stripManagedTrailerDeclarations h names) key =
      if (prefixedTrailer key).any fun name => canonicalHeaderKey name ∈ names.map canonicalHeaderKey
      then none else GoMap.get (withoutDeclarations h names) key := by
  rw [strip_eq, Header.get_delAll]
  split_ifs with dropped blocked blocked
  · rfl
  · obtain ⟨key', found, rfl⟩ := List.mem_map.mp dropped
    obtain ⟨-, blocked'⟩ := List.mem_filter.mp found
    obtain ⟨name, named, -⟩ := (Option.any_eq_true _ _).mp blocked'
    rw [prefixedTrailer_canonical named] at blocked
    exact absurd blocked' blocked
  · by_contra present
    obtain ⟨name, named, -⟩ := (Option.any_eq_true _ _).mp blocked
    exact dropped (List.mem_map.mpr ⟨key,
      List.mem_filter.mpr ⟨GoMap.mem_keys.mpr present, blocked⟩, prefixedTrailer_canonical named⟩)
  · rfl

theorem get_strip {key : GoString} (plain : prefixedTrailer key = none) :
    GoMap.get (stripManagedTrailerDeclarations h names) key =
      GoMap.get (withoutDeclarations h names) key := by
  rw [get_strip_eq, if_neg (by simp [plain])]

def keptTrailers : List GoString :=
  (declaredTrailers h).filter fun name =>
    canonicalHeaderKey name ∉ names.map canonicalHeaderKey && name ≠ []

theorem get_strip_trailer : GoMap.get (stripManagedTrailerDeclarations h names) trailerName =
    if keptTrailers h names = [] then none else some [join (keptTrailers h names) (lit ", ")] := by
  rw [get_strip h names (by decide)]
  unfold withoutDeclarations
  change GoMap.get (if keptTrailers h names = [] then _ else _) trailerName = _
  split_ifs
  · rw [Header.get_del, if_pos trailerName_canonical.symm]
  · rw [Header.get_set, if_pos trailerName_canonical.symm]
    rfl

theorem declaredTrailers_strip_eq :
    declaredTrailers (stripManagedTrailerDeclarations h names) = keptTrailers h names := by
  rw [declaredTrailers, Header.values, trailerName_canonical, get_strip_trailer]
  split_ifs with empty
  · rw [empty]
    rfl
  · simp only [Option.getD_some, List.flatMap_cons, List.flatMap_nil, List.append_nil]
    apply split_join_comma _ _ empty
    · intro piece kept
      obtain ⟨found, -⟩ := List.mem_filter.mp kept
      obtain ⟨declaration, -, member⟩ := List.mem_flatMap.mp found
      obtain ⟨raw, split, rfl⟩ := List.mem_map.mp member
      exact fun comma => notMem_of_mem_split split (trimSpace_subset raw comma)
    · intro piece kept
      obtain ⟨found, -⟩ := List.mem_filter.mp kept
      obtain ⟨declaration, -, member⟩ := List.mem_flatMap.mp found
      obtain ⟨raw, -, rfl⟩ := List.mem_map.mp member
      exact trimSpace_idem raw

theorem declaredTrailers_strip (name : GoString)
    (declared : name ∈ declaredTrailers (stripManagedTrailerDeclarations h names)) :
    canonicalHeaderKey name ∉ names.map canonicalHeaderKey := by
  rw [declaredTrailers_strip_eq] at declared
  obtain ⟨-, kept⟩ := List.mem_filter.mp declared
  simp only [Bool.and_eq_true, decide_eq_true_eq] at kept
  exact kept.1

theorem strip_noTrailers :
    NoTrailers (names.map canonicalHeaderKey) (stripManagedTrailerDeclarations h names) where
  declared := declaredTrailers_strip h names
  prefixed := by
    intro key name held named managed
    apply held
    rw [get_strip_eq, if_pos]
    simpa [named] using managed

end Strip

theorem dropManaged_get (h : Handler) (hdr : Header) (key : GoString) :
    GoMap.get (h.dropManaged hdr) key =
      if key ∈ (setCookieName :: h.managedHeaders).map canonicalHeaderKey
      then none else GoMap.get hdr key :=
  Header.get_delAll hdr key (setCookieName :: h.managedHeaders)

theorem dropManaged_lines (h : Handler) (hdr : Header) :
    (h.dropManaged hdr).values setCookieName = [] := by
  rw [Header.values, dropManaged_get, if_pos (by simp)]
  rfl

theorem scrubTrailers_lines (h : Handler) (hdr : Header) :
    (h.scrubTrailers hdr).values setCookieName ⊆ hdr.values setCookieName := by
  have plain : prefixedTrailer (canonicalHeaderKey setCookieName) = none := by decide
  have other : canonicalHeaderKey setCookieName ≠ trailerName := by decide
  rw [Header.values, Handler.scrubTrailers, get_strip _ _ plain,
    get_withoutDeclarations _ _ other]
  split_ifs
  · exact List.nil_subset _
  · exact List.Subset.refl _

end Gosestor
