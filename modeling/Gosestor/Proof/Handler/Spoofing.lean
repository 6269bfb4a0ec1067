import Gosestor.Lib.Simulation
import Gosestor.Proof.Handler.CookieValues
import Gosestor.Proof.Handler.Dealings

/-!
# What a client cannot put into a session

Fields and trailers with a managed name, and cookies with a store-listed name, are taken out of a
request before anything is done with it. Two requests that differ in nothing else are served alike:
the backend is shown the same request, and the store and the client see the same calls.
-/

namespace Gosestor

open Gosestor.Go Gosestor.Lib Gosestor.Session

/-! ## What a backend is shown -/

def fields (h : Option Header) (key : GoString) : Option (List GoString) := GoMap.get (h.getD ∅) key

structure RequestView where
  path : GoString
  rawQuery : GoString
  header : GoString → Option (List GoString)
  trailer : GoString → Option (List GoString)
  hasBody : Bool

def shown (r : Request) : RequestView :=
  ⟨r.path, r.rawQuery, fields r.header, fields r.trailer, r.body.isSome⟩

def DownCall.Alike : (c : DownCall) → c.Answer → c.Answer → Prop
  | .trailer, a, b => fields a = fields b
  | _, a, b => a = b

/-- A backend's program sees a trailer map by its fields. -/
def Down.Blind : Down → Prop
  | .ret _ => True
  | .call c next => (∀ a b, c.Alike a b → next a = next b) ∧ ∀ a, Down.Blind (next a)

structure Backend where
  next : RequestView → Down
  blind : ∀ v, (next v).Blind

/-! ## Bodies -/

def managedKeys (names : List GoString) : List GoString := names.map canonicalHeaderKey

def BodyPart.Alike (names : List GoString) (p q : BodyPart) : Prop :=
  p.data = q.data ∧ ∀ key ∉ managedKeys names, GoMap.get p.trailer key = GoMap.get q.trailer key

theorem BodyPart.late_fields {names : List GoString} {ps qs : List BodyPart}
    (alike : List.Forall₂ (BodyPart.Alike names) ps qs) {key : GoString}
    (unmanaged : key ∉ managedKeys names) :
    ps.map (fun part => GoMap.get part.trailer key) =
      qs.map fun part => GoMap.get part.trailer key := by
  induction alike with
  | nil => rfl
  | cons here _ ih => rw [List.map_cons, List.map_cons, ih, here.2 key unmanaged]

theorem BodyPart.first_data {names : List GoString} {ps qs : List BodyPart}
    (alike : List.Forall₂ (BodyPart.Alike names) ps qs) :
    ps.head?.map BodyPart.data = qs.head?.map BodyPart.data := by
  cases alike with
  | nil => rfl
  | cons here _ => exact congrArg some here.1

inductive BodyCall
  | read | close

namespace Incoming

def taken (b : Incoming) (n : Nat) : Incoming :=
  { b with
    parts := b.parts.drop n
    trailer := ((b.parts.take n).map BodyPart.trailer).foldl merge b.trailer }.scrub

theorem read_taken (b : Incoming) : b.read = (b.parts.head?.map BodyPart.data, b.taken 1) := by
  obtain ⟨trailer, parts, names⟩ := b
  cases parts with
  | nil => rfl
  | cons part parts => rfl

theorem close_taken (b : Incoming) : b.close = b.taken b.parts.length := by
  simp [close, taken]

theorem fields_merge (trailer : Option Header) (late : Header) (key : GoString) :
    fields (merge trailer late) key = (GoMap.get late key).or (fields trailer key) := by
  unfold merge
  split_ifs with none
  · rw [GoMap.len_eq_zero_iff.mp none key, Option.none_or]
  · exact GoMap.get_copyFrom _ late key

theorem fields_merged (lates : List Header) (trailer : Option Header) (key : GoString) :
    fields (lates.foldl merge trailer) key =
      (lates.map (GoMap.get · key)).foldl (fun found late => late.or found) (fields trailer key) := by
  induction lates generalizing trailer with
  | nil => rfl
  | cons late lates ih => rw [List.foldl_cons, ih, fields_merge, List.map_cons, List.foldl_cons]

theorem fields_scrub (b : Incoming) (key : GoString) :
    fields b.scrub.trailer key =
      if key ∈ managedKeys b.names then none else fields b.trailer key := by
  cases trailer : b.trailer with
  | none =>
      have none : fields b.scrub.trailer key = none := by simp [scrub, trailer, fields]
      rw [none]
      split_ifs <;> rfl
  | some header =>
      have some : fields b.scrub.trailer key = GoMap.get (header.delAll b.names) key := by
        simp [scrub, trailer, fields]
      rw [some, Header.get_delAll]
      rfl

def Guarded (names : List GoString) (b : Incoming) : Prop :=
  b.names = names ∨ b.names = [] ∧ ∀ part ∈ b.parts, part.trailer.len = 0

structure Alike (names : List GoString) (a b : Incoming) : Prop where
  trailer : fields a.trailer = fields b.trailer
  free : ∀ key ∈ managedKeys names, fields a.trailer key = none
  parts : List.Forall₂ (BodyPart.Alike names) a.parts b.parts
  left : a.Guarded names
  right : b.Guarded names

variable {names : List GoString} {a b : Incoming}

theorem Guarded.taken (guarded : b.Guarded names) (n : Nat) : (b.taken n).Guarded names := by
  obtain scrubbed | ⟨unscrubbed, empty⟩ := guarded
  · exact .inl scrubbed
  · exact .inr ⟨unscrubbed, fun part member => empty part (List.mem_of_mem_drop member)⟩

theorem Guarded.fields_taken (guarded : b.Guarded names)
    (free : ∀ key ∈ managedKeys names, fields b.trailer key = none) (n : Nat) (key : GoString) :
    fields (b.taken n).trailer key =
      if key ∈ managedKeys names then none
      else ((b.parts.take n).map fun part => GoMap.get part.trailer key).foldl
        (fun found late => late.or found) (fields b.trailer key) := by
  rw [Incoming.taken, fields_scrub]
  simp only [fields_merged, List.map_map, Function.comp_def]
  obtain scrubbed | ⟨unscrubbed, empty⟩ := guarded
  · rw [scrubbed]
  · have nothing : ((b.parts.take n).map fun part => GoMap.get part.trailer key).foldl
        (fun found late => late.or found) (fields b.trailer key) = fields b.trailer key := by
      apply List.foldlRecOn
        (motive := fun found => found = fields b.trailer key)
      · rfl
      · rintro found rfl late member
        obtain ⟨part, listed, rfl⟩ := List.mem_map.mp member
        rw [GoMap.len_eq_zero_iff.mp (empty part (List.mem_of_mem_take listed)) key, Option.none_or]
    rw [nothing, unscrubbed]
    split_ifs with unmanaged managed managed
    · cases unmanaged
    · cases unmanaged
    · exact free key managed
    · rfl

theorem Alike.taken (alike : Alike names a b) (n : Nat) : Alike names (a.taken n) (b.taken n) := by
  have left := alike.left.fields_taken alike.free n
  have right := alike.right.fields_taken (alike.trailer ▸ alike.free) n
  refine ⟨funext fun key => ?_, fun key managed => ?_, List.forall₂_drop n alike.parts,
    alike.left.taken n, alike.right.taken n⟩
  · rw [left, right]
    split_ifs with managed
    · rfl
    · rw [BodyPart.late_fields (List.forall₂_take n alike.parts) managed, alike.trailer]
  · rw [left, if_pos managed]

theorem Alike.read (alike : Alike names a b) :
    a.read.1 = b.read.1 ∧ Alike names a.read.2 b.read.2 := by
  rw [read_taken, read_taken]
  exact ⟨BodyPart.first_data alike.parts, alike.taken 1⟩

theorem Alike.close (alike : Alike names a b) : Alike names a.close b.close := by
  rw [close_taken, close_taken, alike.parts.length_eq]
  exact alike.taken _

def after (b : Incoming) : List BodyCall → Incoming
  | [] => b
  | .read :: rest => b.read.2.after rest
  | .close :: rest => b.close.after rest

theorem Alike.after (alike : Alike names a b) (calls : List BodyCall) :
    Alike names (a.after calls) (b.after calls) := by
  induction calls generalizing a b with
  | nil => exact alike
  | cons call rest ih =>
      cases call with
      | read => exact ih alike.read.2
      | close => exact ih alike.close

end Incoming

namespace Handler

variable (h : Handler) (conn : Conn)

theorem runNext_alike {names : List GoString} {d : Down} (blind : d.Blind) {a b : Incoming}
    (alike : a.Alike names b) (ic : Interceptor) :
    h.runNext conn d ic a = h.runNext conn d ic b := by
  induction d generalizing ic a b with
  | ret err => rfl
  | call c next ih =>
      have goOn : ∀ ic r r' (a b : Incoming), c.Alike r r' → a.Alike names b →
          h.runNext conn (next r) ic a = h.runNext conn (next r') ic b := by
        intro ic r r' a b same alike
        rw [blind.1 r r' same]
        exact ih r' (blind.2 r') alike ic
      cases c
      all_goals simp only [runNext, serveCall, Prog.bind_bind, Prog.pure_eq, Prog.ret_bind]
      case header => exact goOn ic _ _ a b rfl alike
      case setHeader change => exact goOn _ () () a b rfl alike
      case trailer => exact goOn ic _ _ a b alike.trailer alike
      case readBody => exact goOn ic _ _ _ _ alike.read.1 alike.read.2
      case closeBody => exact goOn ic () () _ _ rfl alike.close
      case writeHeader status =>
        refine congrArg _ (funext ?_)
        rintro ⟨result, ic⟩
        cases result with
        | error p => rfl
        | ok value => exact goOn ic value value a b rfl alike
      all_goals
        refine congrArg _ (funext ?_)
        rintro ⟨result, ic⟩
        exact goOn ic result result a b rfl alike

/-! ## Requests -/

/-- A store-listed name that is not the name of the proxy cookie. -/
def hides (name : GoString) : Bool := name ≠ h.cookie.name && h.filter.decide name = .store

def plainCookies (r : Request) : List RequestCookie :=
  ((cookieParts r).filterMap (readCookiePart [])).filter fun c => !h.hides c.name

/-- Requests that are equal but for managed fields, managed trailers, also those that come after the
body, and hidden cookies. -/
structure SpoofOnly (r r' : Request) : Prop where
  path : r.path = r'.path
  rawQuery : r.rawQuery = r'.rawQuery
  header : ∀ key ∉ managedKeys h.managedHeaders, key ≠ lit "Cookie" →
    fields r.header key = fields r'.header key
  cookies : lit "Cookie" ∉ managedKeys h.managedHeaders → h.plainCookies r = h.plainCookies r'
  trailer : ∀ key ∉ managedKeys h.managedHeaders, fields r.trailer key = fields r'.trailer key
  body : r.body.isSome = r'.body.isSome
  parts : List.Forall₂ (BodyPart.Alike h.managedHeaders) (r.body.getD []) (r'.body.getD [])

end Handler

/-- What net/http does: it reads each pair of a `Cookie` header by itself, and what comes after a
body goes into a trailer map that was there before. -/
structure Regular (r : Request) : Prop where
  pairs : ∀ name, readCookies r.header name = (cookieParts r).filterMap (readCookiePart name)
  late : r.trailer = none → ∀ part ∈ r.body.getD [], part.trailer.len = 0

theorem readCookiePart_named {name : GoString} (named : name ≠ []) (part : GoString) :
    readCookiePart name part = (readCookiePart [] part).filter fun c => c.name = name := by
  simp only [readCookiePart, named, ne_eq, not_true_eq_false, false_and, if_false, not_false_eq_true,
    true_and, ite_not]
  split_ifs with empty invalid same
  · rfl
  · rfl
  · cases parseCookieValue (cut (trimString part) 61).2.1 true with
    | none => rfl
    | some read => simp [Option.filter, same]
  · cases parseCookieValue (cut (trimString part) 61).2.1 true with
    | none => rfl
    | some read => simp [Option.filter, Ne.symm same]

namespace Handler

variable {h : Handler} {r r' : Request}

theorem fields_stripped (r : Request) (key : GoString) :
    fields (h.stripSpoofed r).header key =
      if key ∈ managedKeys h.managedHeaders then none else fields r.header key :=
  Header.get_delAll r.header key h.managedHeaders

theorem trailer_stripped (r : Request) (key : GoString) :
    fields (h.stripSpoofed r).trailer key =
      if key ∈ managedKeys h.managedHeaders then none else fields r.trailer key :=
  Incoming.fields_scrub ⟨r.trailer, [], h.managedHeaders⟩ key

theorem stripped_pairs (regular : Regular r) (name : GoString) :
    readCookies (h.stripSpoofed r).header name =
      (cookieParts (h.stripSpoofed r)).filterMap (readCookiePart name) := by
  have held : GoMap.get (h.stripSpoofed r).header (lit "Cookie") =
      if lit "Cookie" ∈ managedKeys h.managedHeaders then none
      else GoMap.get r.header (lit "Cookie") := fields_stripped r _
  by_cases managed : lit "Cookie" ∈ managedKeys h.managedHeaders
  · rw [if_pos managed] at held
    simp [readCookies, cookieParts, held]
  · rw [if_neg managed] at held
    have pairs := regular.pairs name
    simp only [readCookies, cookieParts, held] at pairs ⊢
    exact pairs

namespace SpoofOnly

theorem plainCookies_stripped (alike : h.SpoofOnly r r') :
    h.plainCookies (h.stripSpoofed r) = h.plainCookies (h.stripSpoofed r') := by
  have held : ∀ r : Request, GoMap.get (h.stripSpoofed r).header (lit "Cookie") =
      if lit "Cookie" ∈ managedKeys h.managedHeaders then none
      else GoMap.get r.header (lit "Cookie") := fun r => fields_stripped r _
  by_cases managed : lit "Cookie" ∈ managedKeys h.managedHeaders
  · simp [plainCookies, cookieParts, held, managed]
  · have cookies := alike.cookies managed
    simp only [plainCookies, cookieParts, held, if_neg managed] at cookies ⊢
    exact cookies

theorem taken_cookies (alike : h.SpoofOnly r r') (left : Regular r) (right : Regular r')
    {wanted : RequestCookie → Bool} (plain : ∀ c, wanted c = true → h.hides c.name = false) :
    (readCookies (h.stripSpoofed r).header []).filter wanted =
      (readCookies (h.stripSpoofed r').header []).filter wanted := by
  have through : ∀ {r : Request}, Regular r →
      (readCookies (h.stripSpoofed r).header []).filter wanted =
        (h.plainCookies (h.stripSpoofed r)).filter wanted := by
    intro r regular
    rw [stripped_pairs regular, plainCookies, List.filter_filter]
    refine List.filter_congr fun c _ => ?_
    cases taken : wanted c with
    | false => rfl
    | true => simp [plain c taken]
  rw [through left, through right, alike.plainCookies_stripped]

theorem clientPairs (alike : h.SpoofOnly r r') (left : Regular r) (right : Regular r') :
    h.clientPairs (h.stripSpoofed r) = h.clientPairs (h.stripSpoofed r') := by
  have taken := @taken_cookies h r r' alike left right (fun c => !h.keeps c.name) (by
    intro c unmanaged
    simp only [keeps, Bool.not_eq_true', Bool.or_eq_false_iff] at unmanaged
    simp [hides, unmanaged.2])
  rw [Handler.clientPairs, taken, Handler.clientPairs]

theorem presentedKey (alike : h.SpoofOnly r r') (left : Regular r) (right : Regular r') :
    h.presentedKey (h.stripSpoofed r) = h.presentedKey (h.stripSpoofed r') := by
  unfold Handler.presentedKey
  split_ifs with unnamed
  · rfl
  · have named : ∀ {r : Request}, Regular r →
        readCookies (h.stripSpoofed r).header h.cookie.name =
          (readCookies (h.stripSpoofed r).header []).filter fun c => c.name = h.cookie.name := by
      intro r regular
      rw [stripped_pairs regular, stripped_pairs regular, List.filter_filterMap]
      exact congrFun (congrArg _ (funext (readCookiePart_named unnamed))) _
    rw [named left, named right, alike.taken_cookies left right]
    intro c proxy
    simp [hides, of_decide_eq_true proxy]

theorem header_stripped (alike : h.SpoofOnly r r') {key : GoString} (other : key ≠ lit "Cookie") :
    fields (h.stripSpoofed r).header key = fields (h.stripSpoofed r').header key := by
  rw [fields_stripped, fields_stripped]
  split_ifs with managed
  · rfl
  · exact alike.header key managed other

theorem trailer_eq (alike : h.SpoofOnly r r') :
    fields (h.stripSpoofed r).trailer = fields (h.stripSpoofed r').trailer := by
  funext key
  rw [trailer_stripped, trailer_stripped]
  split_ifs with managed
  · rfl
  · exact alike.trailer key managed

/-- The backend is shown the same request. -/
theorem shown_upstream (alike : h.SpoofOnly r r') (left : Regular r) (right : Regular r')
    (cached : GoMap GoString GoString) :
    shown (h.prepareUpstreamCookies (h.stripSpoofed r) cached) =
      shown (h.prepareUpstreamCookies (h.stripSpoofed r') cached) := by
  have header : fields (h.prepareUpstreamCookies (h.stripSpoofed r) cached).header =
      fields (h.prepareUpstreamCookies (h.stripSpoofed r') cached).header := by
    funext key
    simp only [fields, Option.getD_some]
    rw [prepareUpstreamCookies_header, prepareUpstreamCookies_header, upstreamPairs, upstreamPairs,
      alike.clientPairs left right]
    split_ifs
    · rw [Header.get_del, Header.get_del, cookie_canonical]
      split_ifs with cookie
      · rfl
      · exact alike.header_stripped cookie
    · rw [Header.get_set, Header.get_set, cookie_canonical]
      split_ifs with cookie
      · rfl
      · exact alike.header_stripped cookie
  have trailer := alike.trailer_eq
  simp only [shown, header, RequestView.mk.injEq, true_and]
  simp only [prepareUpstreamCookies, stripSpoofed] at trailer ⊢
  exact ⟨alike.path, alike.rawQuery, trailer, alike.body⟩

end SpoofOnly

/-! ## Serving both requests -/

theorem incoming_guarded (regular : Regular r) :
    (h.incoming (h.stripSpoofed r)).Guarded h.managedHeaders := by
  have late := regular.late
  by_cases scrubbed : r.body.isSome && r.trailer.isSome
  · exact .inl (by simp_all [incoming, stripSpoofed])
  · refine .inr ⟨by simp_all [incoming, stripSpoofed], fun part member => ?_⟩
    change part ∈ r.body.getD [] at member
    cases body : r.body with
    | none => simp [body] at member
    | some parts =>
        simp only [body, Option.isSome_some, Bool.true_and, Bool.not_eq_true,
          Option.isSome_eq_false_iff, Option.isNone_iff_eq_none] at scrubbed
        exact late scrubbed part member

theorem SpoofOnly.incoming_alike (alike : h.SpoofOnly r r') (left : Regular r) (right : Regular r') :
    Incoming.Alike h.managedHeaders (h.incoming (h.stripSpoofed r))
      (h.incoming (h.stripSpoofed r')) where
  trailer := alike.trailer_eq
  free := fun key managed => (trailer_stripped r key).trans (if_pos managed)
  parts := alike.parts
  left := incoming_guarded left
  right := incoming_guarded right

end Handler

inductive SameCall : Matching Call Call.Answer
  | same (c : Call) : SameCall c c Eq
  | next {r r' : Request} (alike : shown r = shown r') :
      SameCall (.next r) (.next r') fun _ _ => True

namespace Handler

variable {h : Handler} {r r' : Request}

theorem SpoofOnly.forward_sim (alike : h.SpoofOnly r r') (left : Regular r) (right : Regular r')
    (conn : Conn) (w : Writer) (p : Presented) (backend : Backend) :
    Prog.Sim SameCall Eq (h.forward conn w (h.stripSpoofed r) p (backend.next ∘ shown))
      (h.forward conn w (h.stripSpoofed r') p (backend.next ∘ shown)) := by
  have view := alike.shown_upstream left right ((p.live.map Live.cookies).getD ∅)
  have body := h.runNext_alike conn (backend.blind (shown (h.prepareUpstreamCookies
    (h.stripSpoofed r') ((p.live.map Live.cookies).getD ∅)))) (alike.incoming_alike left right)
  unfold forward intercept
  refine .call (.next view) fun _ _ _ => ?_
  simp only [Function.comp_apply, view]
  change Prog.Sim SameCall Eq (h.runNext conn _ _ (h.incoming (h.stripSpoofed r)) >>= _) _
  rw [body]
  exact .refl .same _

theorem SpoofOnly.denyAuthz_eq (alike : h.SpoofOnly r r') (a : Authz) (w : Writer)
    (required : GoString) :
    denyAuthz a w (h.stripSpoofed r) required = denyAuthz a w (h.stripSpoofed r') required := by
  have accept : (h.stripSpoofed r).header.get (lit "Accept") =
      (h.stripSpoofed r').header.get (lit "Accept") := by
    have held : GoMap.get (h.stripSpoofed r).header (canonicalHeaderKey (lit "Accept")) =
        GoMap.get (h.stripSpoofed r').header (canonicalHeaderKey (lit "Accept")) :=
      alike.header_stripped (by decide)
    simp only [Header.get, Header.values, held]
  have path : (h.stripSpoofed r).path = (h.stripSpoofed r').path := alike.path
  have query : (h.stripSpoofed r).rawQuery = (h.stripSpoofed r').rawQuery := alike.rawQuery
  simp only [denyAuthz, accept, path, query]

theorem SpoofOnly.respondTo_sim (alike : h.SpoofOnly r r') (left : Regular r) (right : Regular r')
    (conn : Conn) (w : Writer) (backend : Backend) :
    Prog.Sim SameCall Eq (h.respondTo conn w r (backend.next ∘ shown))
      (h.respondTo conn w r' (backend.next ∘ shown)) := by
  have forward := fun p => alike.forward_sim left right conn w p backend
  have resolved : h.resolvePresented (h.stripSpoofed r) = h.resolvePresented (h.stripSpoofed r') := by
    simp only [resolvePresented, alike.presentedKey left right]
  have served : Prog.Sim SameCall Eq (h.serveHTTP conn w r (backend.next ∘ shown))
      (h.serveHTTP conn w r' (backend.next ∘ shown)) := by
    unfold serveHTTP
    dsimp only
    rw [resolved]
    refine .bind_left .same _ fun presented => ?_
    cases presented with
    | error e => exact .ret rfl
    | ok p =>
        cases h.authz with
        | none => exact forward p
        | some a =>
            have lacks : lacking a (h.stripSpoofed r) p.live = lacking a (h.stripSpoofed r') p.live := by
              have path : (h.stripSpoofed r).path = (h.stripSpoofed r').path := alike.path
              simp only [lacking, path]
            simp only [lacks, alike.denyAuthz_eq]
            cases lacking a (h.stripSpoofed r') p.live with
            | some required => exact .refl .same _
            | none => exact forward p
  refine served.bind fun _ _ equal => ?_
  subst equal
  exact .refl .same _

end Handler

/-! ## What the world is told -/

def Deed.seen : Deed → RequestView ⊕ Deed
  | ⟨.next r, _⟩ => .inl (shown r)
  | d => .inr d

def Event.seen (e : Event) : Nat × (RequestView ⊕ Deed) × Store.Memory × Store.Memory :=
  (e.tid, e.deed.seen, e.before, e.after)

structure World.Alike (w w' : World) : Prop where
  mem : w.mem = w'.mem
  stagedBytes : w.stagedBytes = w'.stagedBytes
  log : w.log.map Event.seen = w'.log.map Event.seen

namespace World.Alike

variable {w w' w₁ : World} {faults : Fault → Bool} {t : Nat}

theorem refl (w : World) : w.Alike w := ⟨rfl, rfl, rfl⟩

theorem minted (alike : w.Alike w') : w.minted = w'.minted := by
  have seen : ∀ e : Event, e.deed.minted = (e.seen.2.1.elim (fun _ => none) Deed.minted) := by
    rintro ⟨_, ⟨c, answer⟩, _, _⟩
    cases c <;> rfl
  have log := congrArg (List.filterMap fun s => s.2.1.elim (fun _ => none) Deed.minted) alike.log
  simp only [List.filterMap_map, Function.comp_def, ← seen] at log
  exact log

theorem record {w₂ w₂' : World} (alike : w.Alike w') (mem : w₂.mem = w₂'.mem)
    (stagedBytes : w₂.stagedBytes = w₂'.stagedBytes) {c c' : Call} {answer : c.Answer}
    {answer' : c'.Answer} (seen : Deed.seen ⟨c, answer⟩ = Deed.seen ⟨c', answer'⟩) :
    (Gosestor.record t w c answer w₂).Alike (Gosestor.record t w' c' answer' w₂') where
  mem := mem
  stagedBytes := stagedBytes
  log := by simp [Gosestor.record, Event.seen, alike.log, alike.mem, mem, seen]

theorem respond (alike : w.Alike w') {c : Call} {o : Choice} {answer : c.Answer}
    (answered : Gosestor.respond faults w c o = some (answer, w₁)) :
    ∃ w₁', Gosestor.respond faults w' c o = some (answer, w₁') ∧ w₁.mem = w₁'.mem ∧
      w₁.stagedBytes = w₁'.stagedBytes := by
  have mem := alike.mem
  have staged := alike.stagedBytes
  have minted := alike.minted
  cases c with
  | store c =>
      simp only [Gosestor.respond, Option.map_eq_some_iff, Prod.mk.injEq] at answered ⊢
      obtain ⟨⟨answer', mem'⟩, stored, rfl, rfl⟩ := answered
      exact ⟨_, ⟨_, mem ▸ stored, rfl, rfl⟩, rfl, staged⟩
  | randomRead =>
      simp only [Gosestor.respond, ← minted] at answered ⊢
      split at answered
      · cases answered
        exact ⟨w', rfl, mem, staged⟩
      · split_ifs at answered with fresh
        cases answered
        exact ⟨w', if_pos fresh, mem, staged⟩
  | reserve n =>
      simp only [Gosestor.respond, ← staged] at answered ⊢
      split_ifs at answered ⊢
      · cases answered
        exact ⟨w', rfl, mem, staged⟩
      · cases answered
        exact ⟨_, rfl, mem, rfl⟩
  | release n =>
      cases answered
      exact ⟨_, rfl, mem, congrArg (· - n) staged⟩
  | now | wallClock | fileWrite p | fileCopy p | write p =>
      simp only [Gosestor.respond] at answered ⊢
      split_ifs at answered ⊢
      cases answered
      exact ⟨w', rfl, mem, staged⟩
  | _ =>
      cases answered
      exact ⟨w', rfl, mem, staged⟩

theorem matched (faults : Fault → Bool) (t : Nat) :
    Matched SameCall (exec faults t) (exec faults t) World.Alike := by
  rintro c c' answers w w' w₁ answer paired alike ⟨o, w₂, answered, rfl⟩
  obtain ⟨w₂', answered', mem, staged⟩ := alike.respond answered
  cases paired with
  | same => exact ⟨answer, _, rfl, ⟨o, w₂', answered', rfl⟩, alike.record mem staged rfl⟩
  | @next r r' view =>
      cases answered'
      exact ⟨(), _, trivial, ⟨o, w', rfl, rfl⟩, alike.record mem staged (by simp [Deed.seen, view])⟩

end World.Alike

/-! ## The server -/

inductive Visit.Alike : Visit → Visit → Prop
  | request {h : Handler} {r r' : Request} (conn : Conn) (outer : Header) (backend : Backend)
      (alike : h.SpoofOnly r r') (left : Regular r) (right : Regular r') :
      Visit.Alike (.request ⟨h, conn, outer, r, backend.next ∘ shown⟩)
        (.request ⟨h, conn, outer, r', backend.next ∘ shown⟩)
  | revokeOwner (ownerID : Int) : Visit.Alike (.revokeOwner ownerID) (.revokeOwner ownerID)

theorem Visit.Alike.prog_sim {v v' : Visit} (alike : v.Alike v') :
    Prog.Sim SameCall Eq v.prog v'.prog := by
  cases alike with
  | request conn outer backend alike left right =>
      refine (alike.respondTo_sim left right conn _ backend).bind fun _ _ equal => ?_
      subst equal
      exact .refl .same _
  | revokeOwner ownerID => exact .refl .same _

/-- Whatever a server can do with some requests, from any state of the store and in any order, it
can do with requests that differ from them in spoofed data only: the same calls with the same
answers, the backend being shown the same requests, and the same results. The trailers that a
backend finds are the same after every read and close of a body. -/
theorem spoofed_data_has_no_influence {visit visit' : Nat → Visit}
    (alike : ∀ t, (visit t).Alike (visit' t)) (w : World) {c : Machine (Option (Ended × Writer))}
    (reached : (traffic visit).Reaches (.initial w) c) :
    (∃ c' : Machine (Option (Ended × Writer)), (traffic visit').Reaches (.initial w) c' ∧
      c.state.Alike c'.state ∧
      ∀ t result, c.thread t = some (.ret result) ↔ c'.thread t = some (.ret result)) ∧
    ∀ t x x', visit t = .request x → visit' t = .request x' → ∀ calls,
      fields ((x.handler.incoming x.stripped).after calls).trailer =
        fields ((x'.handler.incoming x'.stripped).after calls).trailer := by
  constructor
  · obtain ⟨c', reached', sim⟩ := Config.Sim.reaches (A := traffic visit) (B := traffic visit')
      (World.Alike.matched anyFaults) (fun t => (alike t).prog_sim) (fun _ _ => trivial)
      (.initial (.refl w)) reached
    exact ⟨c', reached', sim.state, sim.returned_iff⟩
  · intro t x x' here here' calls
    have both := alike t
    rw [here, here'] at both
    cases both with
    | request conn outer backend alike left right =>
        exact ((alike.incoming_alike left right).after calls).trailer

def believe (v : RequestView) (trailer : GoString → Option (List GoString)) (header : Header) :
    Header :=
  if v.header (lit "X-Identity") = none ∧ trailer (lit "X-Identity") = none then header
  else header.set (lit "X-Identity") (lit "7")

def mirror : Backend where
  next v := .call .readBody fun _ => .call .trailer fun trailer =>
    .call (.setHeader (believe v (fields trailer))) fun _ => .ret none
  blind v := by
    refine ⟨fun a b _ => rfl, fun _ => ⟨fun a b same => ?_, fun _ => ⟨fun _ _ _ => rfl,
      fun _ => trivial⟩⟩⟩
    exact congrArg (fun trailer =>
      (.call (DownCall.setHeader (believe v trailer)) fun _ => .ret none : Down)) same

def honestRequest : Request where
  path := lit "/"
  header := Header.set ∅ (lit "Cookie") (lit "theme=dark")
  body := some [⟨lit "data", ∅⟩]

def spoofedRequest : Request where
  path := lit "/"
  header := (Header.set ∅ (lit "X-Identity") (lit "7")).set (lit "Cookie") (lit "sid=evil; theme=dark")
  trailer := some ∅
  body := some [⟨lit "data", Header.set ∅ (lit "X-Identity") (lit "7")⟩]

def mirrored (r : Request) (_ : Nat) : Visit :=
  .request ⟨Handler.storingHandler, ⟨false, false⟩, ∅, r, mirror.next ∘ shown⟩

theorem honest_regular : Regular honestRequest where
  pairs name := by
    simp only [readCookies, cookieParts]
    rw [if_neg]
    · rw [List.filterMap_flatMap]
    · decide
  late _ part member := by
    cases member with
    | head => decide
    | tail _ rest => cases rest

theorem spoofed_regular : Regular spoofedRequest where
  pairs name := by
    simp only [readCookies, cookieParts]
    rw [if_neg]
    · rw [List.filterMap_flatMap]
    · decide
  late absent := by cases absent

theorem spoofed_only : Handler.storingHandler.SpoofOnly spoofedRequest honestRequest where
  path := rfl
  rawQuery := rfl
  header key unmanaged other := by
    have named : key ≠ lit "X-Identity" := by
      rintro rfl
      exact unmanaged (by decide)
    have cookie : canonicalHeaderKey (lit "Cookie") = lit "Cookie" := by decide
    have identity : canonicalHeaderKey (lit "X-Identity") = lit "X-Identity" := by decide
    simp [fields, spoofedRequest, honestRequest, Header.get_set, cookie, identity, other, named]
  cookies _ := by decide +kernel
  trailer key _ := rfl
  body := rfl
  parts := by
    refine .cons ⟨rfl, fun key unmanaged => ?_⟩ .nil
    have named : key ≠ lit "X-Identity" := by
      rintro rfl
      exact unmanaged (by decide)
    have identity : canonicalHeaderKey (lit "X-Identity") = lit "X-Identity" := by decide
    rw [Header.get_set, identity, if_neg named]

def returnsBare : History → Bool
  | ⟨.returned none header, _⟩ :: _ => decide (header = ∅)
  | _ => false

theorem returnsBare_spec {past : History} (bare : returnsBare past) :
    (⟨.returned none ∅, ()⟩ : Deed) ∈ past := by
  unfold returnsBare at bare
  split at bare
  · cases of_decide_eq_true bare
    exact List.mem_cons_self
  · cases bare

theorem spoofed_identity_is_not_believed : ∃ c c' : Machine (Option (Ended × Writer)),
    (traffic (mirrored spoofedRequest)).Reaches quietStart c ∧
    (traffic (mirrored honestRequest)).Reaches quietStart c' ∧ c.state.Alike c'.state ∧
    (⟨.returned none ∅, ()⟩ : Deed) ∈ own 0 c.state := by
  have played : (play anyFaults (fun _ _ => true) (traffic (mirrored spoofedRequest)).prog quietStart
      [.start 0, .act 0 {}, .act 0 {}]).any fun c => returnsBare (own 0 c.state) := by
    decide +kernel
  obtain ⟨c, reached, -, checked⟩ := reaches_of_played (fun _ => trivial) played
  have visits : ∀ t, (mirrored spoofedRequest t).Alike (mirrored honestRequest t) :=
    fun _ => .request _ _ mirror spoofed_only spoofed_regular honest_regular
  obtain ⟨⟨c', reached', alike, -⟩, -⟩ := spoofed_data_has_no_influence visits {} reached
  exact ⟨c, c', reached, reached', alike, returnsBare_spec checked⟩

end Gosestor
