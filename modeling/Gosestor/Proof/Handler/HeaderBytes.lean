import Mathlib.Algebra.BigOperators.Ring.Finset
import Mathlib.Algebra.Order.Group.Int
import Gosestor.Lib.Totals
import Gosestor.Proof.Go.SetCookie
import Gosestor.Proof.Handler.CanonicalKeys
import Gosestor.Proof.Handler.Processing

/-!
# The size of a header block

`stagedHeaderBytes` charges every line with its name, its value and four bytes. Deleting never adds
to it, and neither does the rewriting of `Trailer` if white space stands after each comma. Copying
keeps the size where the keys of the overwritten map are canonical; `clearHeaders` leaves others.
-/

namespace Gosestor

open Gosestor.Go Gosestor.Lib Gosestor.Session

def lineBytes (name : GoString) (values : List GoString) : Int :=
  (values.map fun value => (name.length + value.length + 4 : Int)).sum

theorem stagedHeaderBytes_eq (hdr : Header) : stagedHeaderBytes hdr = GoMap.total lineBytes hdr :=
  rfl

theorem lineBytes_nonneg (name : GoString) (values : List GoString) : 0 ≤ lineBytes name values := by
  apply List.sum_nonneg
  intro n member
  obtain ⟨value, -, rfl⟩ := List.mem_map.mp member
  omega

theorem stagedHeaderBytes_nonneg (hdr : Header) : 0 ≤ stagedHeaderBytes hdr := by
  apply List.sum_nonneg
  intro total member
  obtain ⟨⟨name, values⟩, -, rfl⟩ := List.mem_map.mp member
  exact lineBytes_nonneg name values

theorem lineBytes_append (name : GoString) (first second : List GoString) :
    lineBytes name (first ++ second) = lineBytes name first + lineBytes name second := by
  simp [lineBytes]

theorem charge_nonneg (hdr : Header) (key : GoString) : 0 ≤ GoMap.charge lineBytes hdr key := by
  unfold GoMap.charge
  cases GoMap.get hdr key with
  | none => exact le_rfl
  | some values => exact lineBytes_nonneg key values

theorem charge_values (hdr : Header) {key : GoString} (canonical : canonicalHeaderKey key = key) :
    GoMap.charge lineBytes hdr key = lineBytes key (hdr.values key) := by
  rw [Header.values, canonical, GoMap.charge]
  cases GoMap.get hdr key with
  | none => rfl
  | some values => rfl

theorem stagedHeaderBytes_le {hdr hdr' : Header}
    (lost : ∀ key, GoMap.get hdr' key = none ∨ GoMap.get hdr' key = GoMap.get hdr key) :
    stagedHeaderBytes hdr' ≤ stagedHeaderBytes hdr := by
  rw [stagedHeaderBytes_eq, stagedHeaderBytes_eq]
  apply GoMap.total_le_total
  intro key
  obtain gone | same := lost key
  · rw [GoMap.charge_of_none gone]
    exact charge_nonneg hdr key
  · rw [GoMap.charge, same, GoMap.charge]

theorem stagedHeaderBytes_delAll (hdr : Header) (names : List GoString) :
    stagedHeaderBytes (hdr.delAll names) ≤ stagedHeaderBytes hdr := by
  apply stagedHeaderBytes_le
  intro key
  rw [Header.get_delAll]
  split_ifs
  · exact .inl rfl
  · exact .inr rfl

theorem stagedHeaderBytes_add (hdr : Header) (line : GoString) :
    stagedHeaderBytes (hdr.add setCookieName line) =
      stagedHeaderBytes hdr + (setCookieName.length + line.length + 4) := by
  have total := GoMap.total_set (f := lineBytes) hdr setCookieName
    (hdr.values setCookieName ++ [line])
  rw [charge_values hdr setCookieName_canonical, lineBytes_append] at total
  have one : lineBytes setCookieName [line] = setCookieName.length + line.length + 4 := by
    simp [lineBytes]
  have added : hdr.add setCookieName line =
      GoMap.set hdr setCookieName (hdr.values setCookieName ++ [line]) := by
    rw [Header.add, setCookieName_canonical]
  rw [added, stagedHeaderBytes_eq, stagedHeaderBytes_eq]
  omega

theorem stagedHeaderBytes_clearHeaders {hdr : Header} (canonical : Canonical hdr) :
    stagedHeaderBytes (clearHeaders hdr) = 0 := by
  rw [canonical.clearHeaders]
  rfl

theorem stagedHeaderBytes_copyHeaders {dst : Header} (canonical : Canonical dst) (src : Header) :
    stagedHeaderBytes (copyHeaders dst src) = stagedHeaderBytes src := by
  rw [stagedHeaderBytes_eq, stagedHeaderBytes_eq]
  exact GoMap.total_congr (get_copyHeaders_canonical canonical src)

/-- White space stands beside every name that a `Trailer` line declares after a comma. -/
def Spaced (hdr : Header) : Prop :=
  ∀ declaration ∈ hdr.values trailerName, ∀ piece ∈ (split declaration 44).tail,
    (trimSpace piece).length < piece.length

theorem Spaced.delAll {hdr : Header} (spaced : Spaced hdr) (names : List GoString) :
    Spaced (hdr.delAll names) := by
  intro declaration member
  rw [Header.values, Header.get_delAll] at member
  split_ifs at member
  · cases member
  · exact spaced declaration member

theorem length_trimSpace (s : GoString) : (trimSpace s).length ≤ s.length :=
  (trimRightSpace_isPrefix _).length_le.trans (dropRunes_suffix _ _).length_le

theorem length_declared {declaration : GoString}
    (spaced : ∀ piece ∈ (split declaration 44).tail, (trimSpace piece).length < piece.length) :
    (((split declaration 44).map trimSpace).map fun name => name.length + 2).sum ≤
      declaration.length + 2 := by
  have whole : join (split declaration 44) [44] = declaration := List.intercalate_splitOn 44
  cases pieces : split declaration 44 with
  | nil => exact absurd pieces (List.splitOn_ne_nil 44 declaration)
  | cons first rest =>
      rw [pieces] at spaced whole
      have later : (rest.map fun piece => (trimSpace piece).length + 2).sum ≤
          (rest.map fun piece => piece.length + 1).sum := by
        apply List.sum_le_sum
        intro piece member
        have shorter := spaced piece member
        omega
      have length : declaration.length =
          first.length + (rest.map fun piece => piece.length + 1).sum := by
        rw [← whole, join_cons, List.length_append, List.length_flatMap]
        simp
      have start := length_trimSpace first
      simp only [List.map_cons, List.map_map, List.sum_cons, Function.comp_def]
      omega

theorem length_declaredTrailers {hdr : Header} (spaced : Spaced hdr) :
    ((declaredTrailers hdr).map fun name => name.length + 2).sum ≤
      ((hdr.values trailerName).map fun declaration => declaration.length + 2).sum := by
  rw [declaredTrailers, List.map_flatMap, List.flatMap_def, List.sum_flatten, List.map_map]
  apply List.sum_le_sum
  intro declaration member
  exact length_declared (spaced declaration member)

theorem length_join_comma {names : List GoString} (some : names ≠ []) :
    (join names (lit ", ")).length + 2 = (names.map fun name => name.length + 2).sum := by
  cases names with
  | nil => exact absurd rfl some
  | cons first rest =>
      have comma : (lit ", ").length = 2 := by decide
      rw [join_cons, List.length_append, List.length_flatMap]
      simp only [List.length_append, comma, List.map_cons, List.sum_cons]
      have swap : (rest.map fun name => 2 + name.length) = rest.map fun name => name.length + 2 := by
        simp [Nat.add_comm]
      rw [swap]
      omega

theorem lineBytes_joined {names values : List GoString} (some : names ≠ [])
    (within : (names.map fun name => name.length + 2).sum ≤
      (values.map fun value => value.length + 2).sum) :
    lineBytes trailerName [join names (lit ", ")] ≤ lineBytes trailerName values := by
  -- One line costs at most what the lines it replaces cost.
  have name : trailerName.length = 7 := by decide
  have joined := length_join_comma some
  have lines : lineBytes trailerName values =
      ((values.map fun value => value.length + 11).sum : Nat) := by
    rw [lineBytes, Nat.cast_list_sum, List.map_map, name]
    congr 1
    refine List.map_congr_left fun value _ => ?_
    simp only [Function.comp_apply]
    omega
  have one : lineBytes trailerName [join names (lit ", ")] =
      ((join names (lit ", ")).length + 11 : Nat) := by
    simp only [lineBytes, name, List.map_cons, List.map_nil, List.sum_cons, List.sum_nil]
    omega
  rw [lines, one, Int.ofNat_le]
  cases values with
  | nil =>
      simp only [List.map_nil, List.sum_nil] at within
      omega
  | cons first rest =>
      have wider : (rest.map fun value => value.length + 2).sum ≤
          (rest.map fun value => value.length + 11).sum := by
        apply List.sum_le_sum
        intro value _
        omega
      simp only [List.map_cons, List.sum_cons] at within ⊢
      omega

theorem charge_withoutDeclarations {hdr : Header} (spaced : Spaced hdr) (names : List GoString)
    (key : GoString) : GoMap.charge lineBytes (withoutDeclarations hdr names) key ≤
      GoMap.charge lineBytes hdr key := by
  by_cases trailer : key = trailerName
  · subst trailer
    unfold withoutDeclarations
    dsimp only
    split_ifs with empty
    · rw [GoMap.charge_of_none]
      · exact charge_nonneg hdr trailerName
      · rw [Header.get_del, trailerName_canonical, if_pos rfl]
    · rw [GoMap.charge_of_get (by rw [Header.get_set, trailerName_canonical, if_pos rfl]),
        charge_values hdr trailerName_canonical]
      apply lineBytes_joined empty
      refine le_trans ?_ (length_declaredTrailers spaced)
      apply List.Sublist.sum_le_sum
      · exact List.Sublist.map _ List.filter_sublist
      · exact fun _ _ => Nat.zero_le _
  · have elsewhere := get_withoutDeclarations hdr names trailer
    split_ifs at elsewhere
    · rw [GoMap.charge_of_none elsewhere]
      exact charge_nonneg hdr key
    · rw [GoMap.charge, elsewhere, GoMap.charge]

theorem stagedHeaderBytes_strip {hdr : Header} (spaced : Spaced hdr) (names : List GoString) :
    stagedHeaderBytes (stripManagedTrailerDeclarations hdr names) ≤ stagedHeaderBytes hdr := by
  rw [strip_eq]
  refine (stagedHeaderBytes_delAll _ _).trans ?_
  rw [stagedHeaderBytes_eq, stagedHeaderBytes_eq]
  exact GoMap.total_le_total (charge_withoutDeclarations spaced names)

/-- A header map that is copied and rewritten without becoming larger. -/
structure Compact (hdr : Header) : Prop where
  canonical : Canonical hdr
  spaced : Spaced hdr

section Managed

variable (h : Handler) {hdr : Header} (compact : Compact hdr)

include compact

theorem stagedHeaderBytes_scrubManaged :
    stagedHeaderBytes (h.scrubManagedResponseHeader hdr) ≤ stagedHeaderBytes hdr :=
  (stagedHeaderBytes_delAll _ _).trans (stagedHeaderBytes_strip compact.spaced _)

theorem stagedHeaderBytes_discarded :
    stagedHeaderBytes (h.scrubTrailers (h.dropManaged hdr)) ≤ stagedHeaderBytes hdr :=
  (stagedHeaderBytes_strip (compact.spaced.delAll _) _).trans (stagedHeaderBytes_delAll _ _)

end Managed

theorem stagedHeaderBytes_addLine (hdr : Header) (extra : Option GoString) :
    stagedHeaderBytes (Interceptor.addLine hdr extra) = stagedHeaderBytes hdr +
      extra.elim 0 fun line => (setCookieName.length + line.length + 4 : Int) := by
  cases extra with
  | none => exact (Int.add_zero _).symm
  | some line => exact stagedHeaderBytes_add hdr line

theorem stagedHeaderBytes_sorted {hdr hdr' : Header} (elsewhere : ∀ key, key ≠ setCookieName →
      GoMap.get hdr' key = none ∨ GoMap.get hdr' key = GoMap.get hdr key)
    (lines : (hdr'.values setCookieName).Sublist (hdr.values setCookieName)) :
    stagedHeaderBytes hdr' ≤ stagedHeaderBytes hdr := by
  rw [stagedHeaderBytes_eq, stagedHeaderBytes_eq]
  apply GoMap.total_le_total
  intro key
  by_cases cookies : key = setCookieName
  · rw [cookies, charge_values _ setCookieName_canonical, charge_values _ setCookieName_canonical]
    apply List.Sublist.sum_le_sum
    · exact lines.map _
    · intro n member
      obtain ⟨value, -, rfl⟩ := List.mem_map.mp member
      omega
  · obtain gone | same := elsewhere key cookies
    · rw [GoMap.charge_of_none gone]
      exact charge_nonneg hdr key
    · rw [GoMap.charge, same, GoMap.charge]

end Gosestor
