import Gosestor.Proof.Handler.Header

/-!
# Header maps with canonical keys

The methods of `http.Header` reach a field under its canonical key only, while net/http sends every
key of the map as it stands and a client does not tell the cases of a name apart. The two agree on
maps whose keys are all canonical, and what the handler does to a header map keeps them so.
-/

namespace Gosestor

open Gosestor.Go Gosestor.Lib Gosestor.Session

/-- What a client reads under a name, whatever the spelling of the keys. -/
def Go.Header.received (hdr : Header) (name : GoString) : List GoString :=
  (hdr.entries.filter fun field =>
    canonicalHeaderKey field.1 = canonicalHeaderKey name).flatMap Prod.snd

/-- Every key is in the form that the methods of `http.Header` use. -/
def Canonical (hdr : Header) : Prop :=
  ∀ key, GoMap.get hdr key ≠ none → canonicalHeaderKey key = key

theorem canonical_empty : Canonical ∅ := fun _ held => absurd rfl held

namespace Canonical

variable {hdr : Header} (canonical : Canonical hdr)

include canonical

theorem received (name : GoString) : hdr.received name = hdr.values name := by
  have reads : hdr.received name =
      (hdr.entries.filter fun field => field.1 = canonicalHeaderKey name).flatMap Prod.snd := by
    rw [Header.received, List.filter_congr]
    intro field member
    have held : GoMap.get hdr field.1 = some field.2 := GoMap.mem_entries.mp member
    rw [canonical field.1 (by simp [held])]
  rw [reads, Header.values]
  cases held : GoMap.get hdr (canonicalHeaderKey name) with
  | none =>
      rw [GoMap.filter_entries_of_none held]
      rfl
  | some values =>
      rw [GoMap.filter_entries held]
      simp

theorem clearHeaders_get (key : GoString) : GoMap.get (clearHeaders hdr) key = none := by
  by_cases form : canonicalHeaderKey key = key
  · exact get_clearHeaders hdr form
  · rw [Gosestor.clearHeaders, Header.get_delAll]
    split_ifs
    · rfl
    · by_contra held
      exact form (canonical key held)

theorem clearHeaders : Gosestor.clearHeaders hdr = ∅ := by
  have none : (Gosestor.clearHeaders hdr).len = 0 :=
    GoMap.len_eq_zero_iff.mpr canonical.clearHeaders_get
  exact GoMap.eq_empty_of_len none

theorem delAll (names : List GoString) : Canonical (hdr.delAll names) := by
  intro key held
  rw [Header.get_delAll] at held
  split_ifs at held
  · exact absurd rfl held
  · exact canonical key held

theorem del (name : GoString) : Canonical (hdr.del name) := canonical.delAll [name]

theorem set (name value : GoString) : Canonical (hdr.set name value) := by
  intro key held
  rw [Header.get_set] at held
  split_ifs at held with here
  · rw [here]
    exact canonicalHeaderKey_idem name
  · exact canonical key held

theorem add (name value : GoString) : Canonical (hdr.add name value) := by
  intro key held
  rw [Header.get_add] at held
  split_ifs at held with here
  · rw [here]
    exact canonicalHeaderKey_idem name
  · exact canonical key held

theorem strip (names : List GoString) : Canonical (stripManagedTrailerDeclarations hdr names) := by
  rw [strip_eq]
  refine Canonical.delAll ?_ _
  intro key held
  by_cases trailer : key = trailerName
  · rw [trailer]
    exact trailerName_canonical
  · rw [get_withoutDeclarations _ _ trailer] at held
    split_ifs at held
    · exact absurd rfl held
    · exact canonical key held

theorem scrubManaged (h : Handler) : Canonical (h.scrubManagedResponseHeader hdr) :=
  (canonical.strip _).delAll _

theorem discarded (h : Handler) : Canonical (h.scrubTrailers (h.dropManaged hdr)) :=
  (canonical.delAll _).strip _

theorem readControls (h : Handler) : Canonical (Interceptor.readControls h hdr).2 :=
  ((canonical.del _).del _).del _

end Canonical

theorem get_copyHeaders_canonical {dst : Header} (canonical : Canonical dst) (src : Header)
    (key : GoString) : GoMap.get (copyHeaders dst src) key = GoMap.get src key := by
  rw [copyHeaders, GoMap.get_copyFrom, canonical.clearHeaders_get, Option.or_none]

theorem Canonical.copyHeaders {dst src : Header} (canonical : Canonical dst)
    (source : Canonical src) : Canonical (copyHeaders dst src) := by
  intro key held
  rw [get_copyHeaders_canonical canonical] at held
  exact source key held

end Gosestor
