import Gosestor.Proof.Authz
import Gosestor.Proof.Go.Url
import Gosestor.Proof.Handler.Traffic
import Mathlib.Data.List.Infix

/-!
# Denied requests

What a browser does with the `Location` of a denied request: where the return parameter leads,
and what the request for the auth endpoint requires.
-/

namespace Gosestor.Handler

open Gosestor.Go Gosestor.Lib Gosestor.Session

/-- The original request, as the return parameter names it. -/
def returnTo (r : Request) : GoString :=
  if r.rawQuery = [] then r.path else r.path ++ lit "?" ++ r.rawQuery

def separator (endpoint : GoString) : GoString :=
  if contains endpoint (lit "?") then lit "&" else lit "?"

theorem writeHeader_eq_call {w : Writer} {status status' : Int} {header : Header}
    {rest : Unit → Act Writer} (written : w.writeHeader status = .call (.writeHeader status' header) rest) :
    status = status' ∧ header = w.header := by
  unfold Writer.writeHeader at written
  split_ifs at written
  cases written
  exact ⟨rfl, rfl⟩

theorem denyAuthz_location {a : Authz} {w : Writer} {r : Request} {required : GoString}
    {header : Header} {rest : Unit → Act Writer}
    (answered : denyAuthz a w r required = .call (.writeHeader 302 header) rest) :
    header.get (lit "Location") = a.endpoint required ++ separator (a.endpoint required) ++
      a.redirectParam ++ lit "=" ++ queryEscape (returnTo r) := by
  unfold denyAuthz at answered
  by_cases browser : contains (r.header.get (lit "Accept")) (lit "text/html") = true
  · rw [if_pos browser] at answered
    rw [(writeHeader_eq_call answered).2]
    simp [Header.get, Header.values, Header.set, separator, returnTo]
  · rw [if_neg browser] at answered
    cases (writeHeader_eq_call answered).1

theorem parse_returnTo (r : Request) :
    Reference.parse (returnTo r) = Reference.parse r.path := by
  have mark : lit "?" = [63] := by decide
  unfold returnTo
  split_ifs
  · rfl
  · rw [mark, List.append_assoc]
    exact Reference.parse_append (.inl rfl)

/-- The return parameter of a redirect is the original request, escaped into one parameter. It
leads back to the site unless the request path begins with two slashes: then it names an authority
of the client's choice. -/
theorem return_parameter_stays_iff {a : Authz} {w : Writer} {r : Request} {required : GoString}
    {header : Header} {rest : Unit → Act Writer}
    (answered : denyAuthz a w r required = .call (.writeHeader 302 header) rest)
    {target : GoString} (sent : parseRequestURI target = some ⟨r.path, r.rawQuery⟩) :
    ∃ value decoded, header.get (lit "Location") = a.endpoint required ++
        separator (a.endpoint required) ++ a.redirectParam ++ lit "=" ++ value ∧
      (∀ b ∈ value, b ≠ 38 ∧ b ≠ 35) ∧ queryUnescape value = some decoded ∧
      (((Reference.parse decoded).scheme = none ∧ (Reference.parse decoded).authority = none ∧
        ∀ site, (Reference.parse decoded).origin site = site) ↔
        hasPrefix r.path (lit "//") = false) := by
  refine ⟨_, returnTo r, denyAuthz_location answered, queryEscape_plain _,
    queryUnescape_queryEscape _, ?_⟩
  rw [Reference.origin_eq_iff, parse_returnTo]
  rcases parseRequestURI_path sent with none | ⟨star, -⟩ | absolute
  · dsimp only at none
    rw [none]
    decide
  · dsimp only at star
    rw [star]
    decide
  · dsimp only at absolute
    obtain ⟨s, begins⟩ := hasPrefix_slash_iff.mp absolute
    obtain ⟨noScheme, noAuthority⟩ := Reference.parse_slash s
    rw [begins, ← noAuthority]
    simp [noScheme]

def adminConfig : Authz.Config where
  rules := [⟨lit "/admin", lit "staff"⟩]
  authEndpoints := GoMap.set ∅ (lit "staff") (lit "/login")

def browserRequest (path : GoString) : Request where
  path := path
  header := Header.set ∅ (lit "Accept") (lit "text/html")

theorem browser_accepts (path : GoString) :
    contains ((browserRequest path).header.get (lit "Accept")) (lit "text/html") = true := by
  have accepts : contains ((browserRequest []).header.get (lit "Accept")) (lit "text/html") =
      true := by decide +kernel
  exact accepts

theorem sample_return_parameter_stays : ∃ header rest value decoded,
    denyAuthz sampleAuthz {} (browserRequest (lit "/admin")) (lit "staff") =
      .call (.writeHeader 302 header) rest ∧
    header.get (lit "Location") = lit "/login?rd=" ++ value ∧ queryUnescape value = some decoded ∧
    ∀ site, (Reference.parse decoded).origin site = site := by
  obtain ⟨header, rest, answered⟩ : ∃ header rest,
      denyAuthz sampleAuthz {} (browserRequest (lit "/admin")) (lit "staff") =
        .call (.writeHeader 302 header) rest := ⟨_, _, rfl⟩
  have sent : parseRequestURI (lit "/admin") = some ⟨lit "/admin", []⟩ := by decide +kernel
  obtain ⟨value, decoded, location, -, unescaped, stays⟩ := return_parameter_stays_iff answered sent
  have opening : sampleAuthz.endpoint (lit "staff") ++
      separator (sampleAuthz.endpoint (lit "staff")) ++ sampleAuthz.redirectParam ++ lit "=" =
        lit "/login?rd=" := by decide +kernel
  rw [opening] at location
  exact ⟨header, rest, value, decoded, answered, location, unescaped,
    (stays.mpr (by decide +kernel)).2.2⟩

/-- The rules see `/admin`, a browser sees another host. -/
theorem return_parameter_leaves_site :
    Authz.new adminConfig = .ok sampleAuthz ∧
    parseRequestURI (lit "//evil.example/../admin") = some ⟨lit "//evil.example/../admin", []⟩ ∧
    ∃ header rest,
      sampleHandler.serveHTTP ⟨false, false⟩ {} (browserRequest (lit "//evil.example/../admin"))
        (fun _ => .ret none) = .call (.writeHeader 302 header) rest ∧
      header.get (lit "Location") = lit "/login?rd=%2F%2Fevil.example%2F..%2Fadmin" ∧
      queryUnescape (lit "%2F%2Fevil.example%2F..%2Fadmin") = some (lit "//evil.example/../admin") ∧
      (Reference.parse (lit "//evil.example/../admin")).authority = some (lit "evil.example") := by
  refine ⟨rfl, by decide +kernel, _, _, rfl, by decide +kernel, by decide +kernel, by decide +kernel⟩

def followed (location : GoString) : Option GoString :=
  pathUnescape (Reference.parse location).path

/-- While `New` checks the text of the endpoint up to its `?`, the browser requests the same path.
-/
def Agrees (ep : GoString) : Prop :=
  ∀ path, followed ep = some path → clean (lit "/" ++ path) = clean (lit "/" ++ (cut ep 63).1)

theorem contains_mark {s : GoString} : contains s (lit "?") = true ↔ 63 ∈ s := by
  have mark : lit "?" = [63] := by decide
  rw [contains, mark, List.any_eq_true]
  constructor
  · rintro ⟨rest, tail, begins⟩
    obtain ⟨t, rfl⟩ := List.isPrefixOf_iff_prefix.mp begins
    exact ((List.mem_tails _ _).mp tail).subset List.mem_cons_self
  · intro member
    obtain ⟨before, after, rfl⟩ := List.append_of_mem member
    exact ⟨63 :: after, (List.mem_tails _ _).mpr (List.suffix_append _ _),
      List.isPrefixOf_iff_prefix.mpr ⟨after, rfl⟩⟩

theorem followed_append (ep tail : GoString) :
    followed (ep ++ separator ep ++ tail) = followed ep := by
  have mark : lit "?" = [63] := by decide
  unfold followed separator
  split_ifs with query
  · obtain ⟨before, after, rfl⟩ := List.append_of_mem (contains_mark.mp query)
    rw [List.append_assoc, List.append_assoc, List.cons_append, Reference.parse_append (.inl rfl),
      Reference.parse_append (.inl rfl)]
  · rw [mark, List.append_assoc]
    exact congrArg (fun r => pathUnescape r.path) (Reference.parse_append (.inl rfl))

/-- A denied request that is sent to `ep` with 302 is followed by one that needs no label. -/
def Lands (ep : GoString) : Prop :=
  ∀ (cfg : Authz.Config) (a : Authz), Authz.new cfg = .ok a →
    ∀ (w : Writer) (r : Request) (live : Option Live) (label : GoString) (header : Header)
      (rest : Unit → Act Writer), lacking a r live = some label → a.endpoint label = ep →
      denyAuthz a w r label = .call (.writeHeader 302 header) rest →
      ∀ path, followed (header.get (lit "Location")) = some path →
        a.required path = Authz.anonymous

theorem lacking_eq_some {a : Authz} {r : Request} {live : Option Live} {label : GoString}
    (lacks : lacking a r live = some label) :
    a.required r.path = label ∧ label ≠ Authz.anonymous := by
  unfold lacking at lacks
  dsimp only at lacks
  split_ifs at lacks with needed
  cases lacks
  exact ⟨rfl, needed.1⟩

theorem Agrees.lands {ep : GoString} (agrees : Agrees ep) : Lands ep := by
  intro cfg a accepted w r live label header rest lacks there answered path follows
  obtain ⟨checked, rfl⟩ := Authz.new_ok.mp accepted
  obtain ⟨required, guarded⟩ := lacking_eq_some lacks
  rw [denyAuthz_location answered, there, List.append_assoc, List.append_assoc, List.append_assoc,
    ← List.append_assoc, followed_append] at follows
  rw [Authz.required_congr (agrees path follows), ← there]
  exact (checked.endpoint required guarded).2

def trap (ep path : GoString) : Authz.Config where
  rules := [⟨lit "/" ++ path, lit "user"⟩, ⟨lit "/" ++ (cut ep 63).1, Authz.anonymous⟩]
  authEndpoints := GoMap.set ∅ (lit "user") ep

section Trap

variable {ep path : GoString} (absolute : hasPrefix ep (lit "/") = true)
  (differ : clean (lit "/" ++ path) ≠ clean (lit "/" ++ (cut ep 63).1))

include differ

theorem trap_sound : Authz.Sound (trap ep path).rules := by
  have rooted : ∀ s : GoString, hasPrefix (lit "/" ++ s) (lit "/") = true :=
    fun s => by simp [hasPrefix]
  have named : lit "user" ≠ [] ∧ Authz.anonymous ≠ [] := by decide
  exact ⟨by simp [trap, rooted], by simp [trap, named], by simpa [trap] using differ⟩

theorem trap_required {r : Authz.Rule} (listed : r ∈ (trap ep path).rules) {asked : GoString}
    (same : r.path = lit "/" ++ asked) : (Authz.compiled (trap ep path)).required asked = r.label := by
  have sound := trap_sound differ
  apply (Authz.required_governs sound (Authz.longestFirst_perm _) (Authz.longestFirst_sorted _) rfl
    asked).unique
  apply Authz.governs_self sound listed
  rw [same, segments_slash]

include absolute

theorem trap_accepted : Authz.Accepted (trap ep path) := by
  refine ⟨trap_sound differ, fun label listed guarded => ?_, fun e listed => ?_⟩
  · have rules := (Authz.longestFirst_perm ((trap ep path).rules.map Authz.Rule.cleaned)).map
      Authz.Rule.label
    have user : label = lit "user" := by
      rcases List.mem_cons.mp listed with default | rule
      · exact absurd default guarded
      · have named := rules.mem_iff.mp rule
        simpa [trap, Authz.Rule.cleaned, guarded] using named
    subst user
    obtain ⟨t, rfl⟩ := hasPrefix_slash_iff.mp absolute
    simp [Authz.endpoint, Authz.compiled, trap]
  · have held := GoMap.mem_entries.mp listed
    have only : e.2 = ep := by
      simp only [Authz.compiled, trap, GoMap.get_set, GoMap.get_empty] at held
      split_ifs at held
      exact (Option.some.inj held).symm
    rw [only]
    exact ⟨absolute, trap_required differ (r := ⟨_, Authz.anonymous⟩) (by simp [trap]) rfl⟩

end Trap

theorem Lands.agrees {ep : GoString} (absolute : hasPrefix ep (lit "/") = true) (lands : Lands ep) :
    Agrees ep := by
  intro path follows
  by_contra differ
  have user : (Authz.compiled (trap ep path)).required path = lit "user" :=
    trap_required differ (r := ⟨_, lit "user"⟩) (by simp [trap]) rfl
  have guarded : lit "user" ≠ Authz.anonymous := by decide
  have lacks : lacking (Authz.compiled (trap ep path)) (browserRequest path) none =
      some (lit "user") := by
    simp [lacking, browserRequest, user, guarded]
  have there : (Authz.compiled (trap ep path)).endpoint (lit "user") = ep := by
    simp [Authz.endpoint, Authz.compiled, trap]
  obtain ⟨header, rest, answered⟩ : ∃ header rest,
      denyAuthz (Authz.compiled (trap ep path)) {} (browserRequest path) (lit "user") =
        .call (.writeHeader 302 header) rest := by
    rw [denyAuthz, if_pos (browser_accepts path)]
    exact ⟨_, _, rfl⟩
  have public_ := lands (trap ep path) _ (Authz.new_ok.mpr ⟨trap_accepted absolute differ, rfl⟩) {}
    (browserRequest path) none (lit "user") header rest lacks there answered path
  rw [denyAuthz_location answered, there, List.append_assoc, List.append_assoc, List.append_assoc,
    ← List.append_assoc, followed_append] at public_
  rw [public_ follows] at user
  exact absurd user.symm guarded

/-- Every label that a path can require has an absolute endpoint. Being sent to an endpoint never
ends in another denial, for any accepted policy, if and only if the path that the browser requests
for it is the one that `New` checks. -/
theorem no_redirect_loop_iff (ep : GoString) (absolute : hasPrefix ep (lit "/") = true) :
    (∀ (cfg : Authz.Config) (a : Authz), Authz.new cfg = .ok a → ∀ path,
      a.required path ≠ Authz.anonymous →
        hasPrefix (a.endpoint (a.required path)) (lit "/") = true) ∧
    (Lands ep ↔ Agrees ep) := by
  constructor
  · intro cfg a accepted path guarded
    obtain ⟨checked, rfl⟩ := Authz.new_ok.mp accepted
    exact (checked.endpoint rfl guarded).1
  · exact ⟨Lands.agrees absolute, Agrees.lands⟩

theorem agrees_of_plain {ep : GoString} (absolute : hasPrefix ep (lit "/") = true)
    (single : hasPrefix ep (lit "//") = false) (noFragment : 35 ∉ (cut ep 63).1)
    (noEscape : 37 ∉ (cut ep 63).1) : Agrees ep := by
  obtain ⟨s, rfl⟩ := hasPrefix_slash_iff.mp absolute
  intro path follows
  rw [followed, Reference.parse_path noFragment single, unescape_plain noEscape] at follows
  rw [Option.some.inj follows]

theorem login_agrees : Agrees (lit "/login") :=
  agrees_of_plain (by decide) (by decide) (by decide +kernel) (by decide +kernel)

theorem login_lands : Lands (lit "/login") ∧
    hasPrefix (sampleAuthz.endpoint (sampleAuthz.required (lit "/admin"))) (lit "/") = true := by
  obtain ⟨endpoint, lands⟩ := no_redirect_loop_iff (lit "/login") (by decide)
  exact ⟨lands.mpr login_agrees, endpoint adminConfig sampleAuthz rfl _ (by decide +kernel)⟩

/-- Everything but the login page needs a label, and the rule for the login page is written like its
endpoint. The browser does not send the fragment. -/
def fragmentConfig : Authz.Config where
  rules := [⟨lit "/login#top", Authz.anonymous⟩]
  defaultLabel := lit "user"
  authEndpoints := GoMap.set ∅ (lit "user") (lit "/login#top")

theorem fragment_endpoint_loops : ∃ a header rest,
    Authz.new fragmentConfig = .ok a ∧
    lacking a (browserRequest (lit "/home")) none = some (lit "user") ∧
    denyAuthz a {} (browserRequest (lit "/home")) (lit "user") =
      .call (.writeHeader 302 header) rest ∧
    header.get (lit "Location") = lit "/login#top?rd=%2Fhome" ∧
    followed (header.get (lit "Location")) = some (lit "/login") ∧
    a.required (lit "/login") = lit "user" ∧
    lacking a (browserRequest (lit "/login")) none = some (lit "user") := by
  refine ⟨_, _, _, rfl, by decide +kernel, rfl, ?_⟩
  decide +kernel

end Gosestor.Handler
