import Gosestor.Proof.Handler.Config
import Gosestor.Proof.Handler.Processing
import Gosestor.Proof.Handler.Trailers

/-!
# What a response says

Processing reads the headers of a response one after the other and strips each of them. What it
reads is what the backend wrote, provided that the names are told apart and that no trailer is
declared under one of them.
-/

namespace Gosestor

open Gosestor.Go Gosestor.Lib

@[ext] structure Said where
  lines : List GoString
  identity : GoString
  labels : List GoString

theorem prefixedTrailer_token {key : GoString} (token : key.all isTokenByte = true) :
    prefixedTrailer key = none := by
  unfold prefixedTrailer
  rw [if_neg]
  intro found
  have colon : 58 ∈ toLower key := (List.isPrefixOf_iff_prefix.mp found).subset (by decide)
  exact absurd (List.all_eq_true.mp token 58 (colon_of_toLower colon)) (by decide)

theorem canonicalHeaderKey_token {name : GoString} (token : name.all isTokenByte = true) :
    (canonicalHeaderKey name).all isTokenByte = true := by
  rw [canonicalHeaderKey, if_pos token]
  exact canonicalBytes_token token

theorem values_del_of_ne {hdr : Header} {name other : GoString}
    (apart : canonicalHeaderKey name ≠ canonicalHeaderKey other) :
    (hdr.del other).values name = hdr.values name :=
  Header.values_of_get (by rw [Header.get_del, if_neg apart])

namespace Handler

variable (h : Handler) (hdr : Header)

/-- As the backend wrote it. -/
def written : Said where
  lines := hdr.values setCookieName
  identity := hdr.get h.identityHeader
  labels := hdr.values h.labelsHeaderName

/-- As processing reads it: each header after those that were stripped before. -/
def heard : Said :=
  let hdr := (h.scrubTrailers hdr).del h.revokeHeaderName
  let bare := hdr.del setCookieName
  { lines := hdr.values setCookieName
    identity := bare.get h.identityHeader
    labels := ((bare.del h.identityHeader).del h.rotateHeaderName).values h.labelsHeaderName }

/-- The managed names are header names, told apart from each other and from those that the handler
relies on. -/
structure Apart : Prop where
  tokens : ∀ name ∈ h.managedHeaders, name.all isTokenByte = true
  distinct : (h.managedHeaders.map canonicalHeaderKey).Nodup
  plain : h.Plain

def Undeclared : Prop :=
  ∀ name ∈ declaredTrailers hdr,
    canonicalHeaderKey name ∉ (setCookieName :: h.managedHeaders).map canonicalHeaderKey

variable {h hdr}

theorem values_scrubTrailers {name : GoString} (token : name.all isTokenByte = true)
    (other : canonicalHeaderKey name ≠ trailerName)
    (undeclared : ∀ declared ∈ declaredTrailers hdr,
      canonicalHeaderKey declared ≠ canonicalHeaderKey name) :
    (h.scrubTrailers hdr).values name = hdr.values name := by
  apply Header.values_of_get
  rw [Handler.scrubTrailers, get_strip _ _ (prefixedTrailer_token (canonicalHeaderKey_token token)),
    get_withoutDeclarations _ _ other, if_neg]
  intro dropped
  obtain ⟨declared, found, same⟩ := List.mem_map.mp dropped
  exact undeclared declared (List.mem_of_mem_filter found) same

theorem heard_lines (apart : canonicalHeaderKey h.revokeHeaderName ≠ setCookieName)
    (undeclared : ∀ declared ∈ declaredTrailers hdr, canonicalHeaderKey declared ≠ setCookieName) :
    (h.heard hdr).lines = hdr.values setCookieName := by
  have values : (h.scrubTrailers hdr).values setCookieName = hdr.values setCookieName :=
    values_scrubTrailers (by decide) (by decide) undeclared
  unfold heard
  dsimp only
  rw [values_del_of_ne (Ne.symm apart), values]

theorem heard_lines_eq (ic : Interceptor) : (h.heard ic.responseHeader).lines =
    (ic.readRevoke h).responseHeader.values setCookieName := by
  simp only [heard, Interceptor.readRevoke]

theorem heard_eq_written (apart : h.Apart) (undeclared : h.Undeclared hdr) :
    h.heard hdr = h.written hdr := by
  have distinct := apart.distinct
  simp only [Handler.managedHeaders, List.map_cons, List.map_nil, List.nodup_cons, List.mem_cons,
    List.not_mem_nil, or_false, not_or] at distinct
  obtain ⟨⟨rotated, revoked, labelled⟩, ⟨-, relabelled⟩, revokedLabels, -⟩ := distinct
  have managed : ∀ name ∈ h.managedHeaders,
      (h.scrubTrailers hdr).values name = hdr.values name ∧
        canonicalHeaderKey name ≠ setCookieName := by
    intro name member
    refine ⟨values_scrubTrailers (apart.tokens name member) (apart.plain name member).1
      fun declared found same => ?_, (apart.plain name member).2⟩
    exact undeclared declared found
      (same ▸ List.mem_map_of_mem (List.mem_cons_of_mem setCookieName member))
  have identity := managed h.identityHeader (by simp [Handler.managedHeaders])
  have labels := managed h.labelsHeaderName (by simp [Handler.managedHeaders])
  have revoke := managed h.revokeHeaderName (by simp [Handler.managedHeaders])
  apply Said.ext
  · refine heard_lines revoke.2 fun declared found same => ?_
    exact undeclared declared found (by simp [same, setCookieName_canonical])
  · unfold heard written Header.get
    dsimp only
    rw [values_del_of_ne identity.2, values_del_of_ne revoked, identity.1]
  · unfold heard written
    dsimp only
    rw [values_del_of_ne (Ne.symm relabelled), values_del_of_ne (Ne.symm labelled),
      values_del_of_ne labels.2, values_del_of_ne (Ne.symm revokedLabels), labels.1]

end Handler

theorem fold_token {name : GoString} (token : name.all isTokenByte = true) :
    fold name = lowerLetters name := by
  have ascii : ∀ b : UInt8, isTokenByte b = true → b ≠ 0xE2 ∧ b ≠ 0xC5 := by
    apply forall_byte
    decide +kernel
  induction name with
  | nil => rfl
  | cons b rest ih =>
      rw [List.all_cons, Bool.and_eq_true] at token
      have other := ascii b token.1
      rw [fold, ih token.2]
      · simp [lowerLetters, canonicalByte]
      · rintro rest' rfl
        exact absurd rfl other.1
      · rintro rest' rfl
        exact absurd rfl other.2

theorem HandlerConfig.checkCollisions_ok {names : List (GoString × GoString)}
    (apart : checkCollisions names = .ok ()) :
    names.Pairwise fun a b => equalFold a.2 b.2 = false := by
  induction names with
  | nil => exact .nil
  | cons first rest ih =>
      obtain ⟨kind, name⟩ := first
      unfold checkCollisions at apart
      cases collides : rest.find? fun other => equalFold name other.2 with
      | some other =>
          rw [collides] at apart
          cases apart
      | none =>
          rw [collides] at apart
          refine .cons (fun other listed => ?_) (ih apart)
          simpa using List.find?_eq_none.mp collides other listed

theorem HandlerConfig.accepted_apart {cfg : HandlerConfig} {h : Handler}
    {sum256 : GoString → List UInt8} {parseTime : GoString → Option Int}
    (accepted : cfg.validate = .ok ()) (made : cfg.provision sum256 parseTime = .ok h)
    (tokens : ∀ name ∈ h.managedHeaders, name.all isTokenByte = true) (plain : h.Plain) :
    h.Apart := by
  refine ⟨tokens, ?_, plain⟩
  have checked : checkCollisions cfg.managedHeaders = .ok () := by
    unfold validate at accepted
    split_ifs at accepted
    cases checked : checkCollisions cfg.managedHeaders with
    | ok done => rfl
    | error e =>
        rw [checked] at accepted
        cases accepted
  have headers := (provision_ok made).2.1
  rw [headers] at tokens
  rw [headers, List.map_map]
  refine List.pairwise_map.mpr (List.Pairwise.imp_of_mem ?_ (checkCollisions_ok checked))
  intro a b listed listed' other same
  have token : ∀ c ∈ cfg.managedHeaders, c.2.all isTokenByte = true := fun c member =>
    tokens c.2 (List.mem_map_of_mem member)
  have letters := (canonicalHeaderKey_eq_iff (token b listed')).mp same
  rw [equalFold, fold_token (token a listed), fold_token (token b listed'), letters] at other
  simp at other

end Gosestor
