import Gosestor.Proof.Go.SetCookie
import Gosestor.Proof.Handler.Config
import Gosestor.Proof.Handler.Traffic

/-!
# The proxy cookie

The cookie that carries a key to the client and back: the line that sets it, the line that expires
it, and the request of a client that sends it among other cookies. `Validate` accepts any cookie
name and any header names, so whether the key comes back depends on the configuration.
-/

namespace Gosestor.Go

theorem base64Digit_plain (n : Nat) : validCookieValueByte (base64Digit n) ∧
    base64Digit n ≠ 32 ∧ base64Digit n ≠ 44 := by
  have digits : ∀ m < 64, validCookieValueByte (base64Alphabet.getD m 0) ∧
      base64Alphabet.getD m 0 ≠ 32 ∧ base64Alphabet.getD m 0 ≠ 44 := by decide +kernel
  exact digits (n % 64) (Nat.mod_lt n (by decide))

theorem encodeToString_plain (buf : List UInt8) : PlainValue (encodeToString buf) := by
  fun_induction encodeToString buf with
  | case1 a b c rest n ih =>
      intro byte member
      simp only [List.mem_cons] at member
      obtain rfl | rfl | rfl | rfl | later := member
      all_goals first | exact base64Digit_plain _ | exact ih byte later
  | case2 a b n =>
      intro byte member
      simp only [List.mem_cons, List.not_mem_nil, or_false] at member
      obtain rfl | rfl | rfl := member
      all_goals exact base64Digit_plain _
  | case3 a =>
      intro byte member
      simp only [List.mem_cons, List.not_mem_nil, or_false] at member
      obtain rfl | rfl := member
      all_goals exact base64Digit_plain _
  | case4 => exact List.forall_mem_nil _

end Gosestor.Go

namespace Gosestor.Handler

open Gosestor.Go Gosestor.Lib

variable {h : Handler} {key : GoString}

def proxyCookie (h : Handler) (key : GoString) : Cookie where
  name := h.cookie.name
  value := key
  path := h.proxyCookiePath
  httpOnly := true
  secure := !h.cookie.insecure
  sameSite := some h.sameSiteMode

def expiredProxyCookie (h : Handler) : Cookie :=
  { h.proxyCookie [] with maxAge := -1, expires := some 1 }

theorem buildProxyCookie_eq : h.buildProxyCookie key = (h.proxyCookie key).string := rfl

theorem parse_proxyCookie {c : Cookie} (named : c.name = h.cookie.name)
    (located : c.path = h.proxyCookiePath) (site : c.sameSite = some h.sameSiteMode)
    (unquoted : c.quoted = false) (token : isToken h.cookie.name) (plain : PlainValue c.value) :
    ∃ read, parseSetCookie h.parseTime c.string = some read ∧ read.name = h.cookie.name ∧
      read.value = c.value ∧ read.path = if h.proxyCookiePath = [] then [] else
        pathAfter [] (32 :: (lit "Path=" ++ sanitizeCookiePath h.proxyCookiePath)) := by
  rw [← named] at token
  refine ⟨_, Cookie.parseSetCookie_string token plain unquoted site h.parseTime, ?_, ?_, ?_⟩
  · rw [(attributes_pair h.parseTime _ _).1, named]
  · rw [(attributes_pair h.parseTime _ _).2.1]
  · rw [attributes_path, Cookie.path_attributes, located]

theorem unnamed_line (invalid : ¬ isToken h.cookie.name) : h.buildProxyCookie key = [] := by
  simp [buildProxyCookie, Cookie.string, invalid]

structure Echoes (h : Handler) (key : GoString) (r : Request) : Prop where
  line : ∃ before after : List (GoString × GoString),
    (∀ c ∈ before ++ after, isToken c.1 ∧ PlainValue c.2 ∧ c.1 ≠ h.cookie.name) ∧
    before.length + after.length < cookieMaxNum ∧
    GoMap.get r.header (lit "Cookie") = some
      [join ((before ++ (h.cookie.name, key) :: after).map writePair) (lit "; ")]

theorem get_stripSpoofed (r : Request) (name : GoString) :
    GoMap.get (h.stripSpoofed r).header name =
      if name ∈ h.managedHeaders.map canonicalHeaderKey then none else GoMap.get r.header name :=
  Header.get_delAll _ _ _

theorem presentedKey_of_echoes (token : isToken h.cookie.name) (plain : PlainValue key)
    (unmanaged : lit "Cookie" ∉ h.managedHeaders.map canonicalHeaderKey) {r : Request}
    (echoes : h.Echoes key r) : h.presentedKey (h.stripSpoofed r) = some key := by
  obtain ⟨before, after, others, few, sent⟩ := echoes.line
  have named : h.cookie.name ≠ [] := by
    simp only [isToken, Bool.and_eq_true, decide_eq_true_eq] at token
    exact token.1
  have arrives : GoMap.get (h.stripSpoofed r).header (lit "Cookie") = some
      [join ((before ++ (h.cookie.name, key) :: after).map writePair) (lit "; ")] := by
    rw [get_stripSpoofed, if_neg unmanaged, sent]
  have valid : ∀ c ∈ before ++ (h.cookie.name, key) :: after, isToken c.1 ∧ PlainValue c.2 := by
    intro c member
    obtain listed | here | listed : c ∈ before ∨ c = (h.cookie.name, key) ∨ c ∈ after := by
      simpa using member
    · have other := others c (List.mem_append_left after listed)
      exact ⟨other.1, other.2.1⟩
    · rw [here]
      exact ⟨token, plain⟩
    · have other := others c (List.mem_append_right before listed)
      exact ⟨other.1, other.2.1⟩
  have skipped : before.filterMap (fun c => if h.cookie.name ≠ [] ∧ h.cookie.name ≠ c.1 then none
      else some (⟨c.1, c.2, false⟩ : RequestCookie)) = [] := by
    apply List.filterMap_eq_nil_iff.mpr
    intro c member
    have other := (others c (List.mem_append_left after member)).2.2
    simp [named, Ne.symm other]
  rw [presentedKey, if_neg named, readCookies_join (by simp) arrives valid (by simp; omega),
    List.filterMap_append, skipped, List.nil_append, List.filterMap_cons]
  simp

structure RoundTrips (h : Handler) (key : GoString) : Prop where
  issued : ∃ c, parseSetCookie h.parseTime (h.buildProxyCookie key) = some c ∧
    c.name = h.cookie.name ∧ c.value = key
  echoed : ∀ r, h.Echoes key r → h.presentedKey (h.stripSpoofed r) = some key
  expired : ∃ c c', parseSetCookie h.parseTime (h.buildProxyCookie key) = some c ∧
    parseSetCookie h.parseTime h.buildExpiredProxyCookie = some c' ∧
    c'.name = h.cookie.name ∧ c'.path = c.path

theorem roundTrips_of_token (token : isToken h.cookie.name) (plain : PlainValue key)
    (unmanaged : lit "Cookie" ∉ h.managedHeaders.map canonicalHeaderKey) : h.RoundTrips key := by
  obtain ⟨c, parsed, named, valued, located⟩ := parse_proxyCookie (c := h.proxyCookie key) rfl rfl rfl
    rfl token plain
  obtain ⟨c', parsed', named', -, located'⟩ := parse_proxyCookie (c := h.expiredProxyCookie) rfl rfl
    rfl rfl token (List.forall_mem_nil _)
  exact ⟨⟨c, parsed, named, valued⟩, fun r => presentedKey_of_echoes token plain unmanaged,
    c, c', parsed, parsed', named', located'.trans located.symm⟩

theorem RoundTrips.token (trips : h.RoundTrips key) : isToken h.cookie.name := by
  by_contra invalid
  obtain ⟨c, parsed, -⟩ := trips.issued
  rw [unnamed_line invalid] at parsed
  cases parsed

def echo (h : Handler) (key : GoString) : Request where
  path := lit "/"
  header := Header.set ∅ (lit "Cookie") (writePair (h.cookie.name, key))

theorem echoes_echo : h.Echoes key (h.echo key) := by
  refine ⟨[], [], by simp, by decide, ?_⟩
  have canonical : canonicalHeaderKey (lit "Cookie") = lit "Cookie" := by decide
  rw [echo, Header.get_set, canonical, if_pos rfl]
  simp [join]

theorem presentedKey_of_managed (managed : lit "Cookie" ∈ h.managedHeaders.map canonicalHeaderKey)
    (r : Request) : h.presentedKey (h.stripSpoofed r) = none := by
  have gone : GoMap.get (h.stripSpoofed r).header (lit "Cookie") = none := by
    rw [get_stripSpoofed, if_pos managed]
  simp [presentedKey, readCookies, gone]

theorem RoundTrips.unmanaged (trips : h.RoundTrips key) :
    lit "Cookie" ∉ h.managedHeaders.map canonicalHeaderKey := by
  intro managed
  have lost := presentedKey_of_managed managed (h.echo key)
  rw [trips.echoed _ echoes_echo] at lost
  cases lost

/-- The key that `newID` returns goes to the client in a cookie with the configured name and comes
back, and the expired cookie has that name and the same path, if and only if the configured name is
a token and none of the managed headers is called `Cookie`. -/
theorem proxy_cookie_round_trips_iff {cfg : HandlerConfig} {sum256 : GoString → List UInt8}
    {parseTime : GoString → Option Int} (made : cfg.provision sum256 parseTime = .ok h)
    (buf : List UInt8) : h.RoundTrips (encodeToString buf) ↔
      isToken cfg.cookie.name ∧
      lit "Cookie" ∉ cfg.managedHeaders.map fun managed => canonicalHeaderKey managed.2 := by
  obtain ⟨named, managed, -, -⟩ := HandlerConfig.provision_ok made
  have headers : h.managedHeaders.map canonicalHeaderKey =
      cfg.managedHeaders.map fun managed => canonicalHeaderKey managed.2 := by
    rw [managed, List.map_map]
    rfl
  rw [← named, ← headers]
  exact ⟨fun trips => ⟨trips.token, trips.unmanaged⟩,
    fun ⟨token, unmanaged⟩ => roundTrips_of_token token (encodeToString_plain buf) unmanaged⟩

theorem sample_proxy_cookie_round_trips : ∃ h : Handler, sampleConfig.validate = .ok () ∧
    sampleConfig.provision id (fun _ => none) = .ok h ∧
    h.RoundTrips (encodeToString (List.replicate 32 1)) := by
  obtain ⟨h, made⟩ : ∃ h, sampleConfig.provision id (fun _ => none) = .ok h := ⟨_, rfl⟩
  exact ⟨h, rfl, made, (proxy_cookie_round_trips_iff made _).mpr (by decide +kernel)⟩

def namelessConfig : HandlerConfig := { sampleConfig with cookie := {} }

def cookieHeaderConfig : HandlerConfig := { sampleConfig with rotateHeader := lit "Cookie" }

theorem accepted_configs_lose_key :
    (∃ h : Handler, namelessConfig.validate = .ok () ∧
      namelessConfig.provision id (fun _ => none) = .ok h ∧
      ∀ buf, h.buildProxyCookie (encodeToString buf) = [] ∧
        parseSetCookie h.parseTime (h.buildProxyCookie (encodeToString buf)) = none ∧
        ∀ r, h.presentedKey r = none) ∧
    ∃ h : Handler, cookieHeaderConfig.validate = .ok () ∧
      cookieHeaderConfig.provision id (fun _ => none) = .ok h ∧
      ∀ buf, h.Echoes (encodeToString buf) (h.echo (encodeToString buf)) ∧
        h.presentedKey (h.stripSpoofed (h.echo (encodeToString buf))) = none := by
  refine ⟨⟨_, rfl, rfl, fun buf => ?_⟩, _, rfl, rfl, fun buf => ⟨echoes_echo, ?_⟩⟩
  · exact ⟨rfl, rfl, fun r => rfl⟩
  · exact presentedKey_of_managed (by decide +kernel) _

end Gosestor.Handler
