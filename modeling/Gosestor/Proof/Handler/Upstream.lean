import Gosestor.Proof.Handler.Stored

/-!
# Cookies on the way to the backend

`prepareUpstreamCookies` reads the client's `Cookie` header, drops the pairs that the handler
manages, and writes the rest and the session's cookies into a new one. Read back, the new header
has exactly those pairs.
-/

namespace Gosestor

open Gosestor.Go Gosestor.Lib Gosestor.Session

namespace Handler

variable (h : Handler)

def keeps (name : GoString) : Bool := name = h.cookie.name || h.filter.decide name = .store

def clientPairs (r : Request) : List (GoString × GoString) :=
  ((readCookies r.header []).filter fun c => !h.keeps c.name).map fun c => (c.name, c.value)

def upstreamPairs (r : Request) (cached : GoMap GoString GoString) : List (GoString × GoString) :=
  h.clientPairs r ++ cached.entries

theorem clientPairs_isPair {r : Request} {c : GoString × GoString} (listed : c ∈ h.clientPairs r) :
    IsPair c ∧ h.keeps c.1 = false := by
  obtain ⟨cookie, member, rfl⟩ := List.mem_map.mp listed
  obtain ⟨read, unmanaged⟩ := List.mem_filter.mp member
  exact ⟨readCookies_isPair read, by simpa using unmanaged⟩

theorem prepareUpstreamCookies_header (r : Request) (cached : GoMap GoString GoString) :
    (h.prepareUpstreamCookies r cached).header =
      if h.upstreamPairs r cached = [] then r.header.del (lit "Cookie")
      else r.header.set (lit "Cookie")
        (join ((h.upstreamPairs r cached).map writePair) (lit "; ")) := by
  have equals : lit "=" = [61] := by decide
  have unmanaged : (fun c : RequestCookie =>
      decide (c.name ≠ h.cookie.name) && decide (h.filter.decide c.name ≠ .store)) =
        fun c => !h.keeps c.name := by
    funext c
    simp [keeps]
  have kept : (((readCookies r.header []).filter fun c => !h.keeps c.name).map fun c =>
      c.name ++ lit "=" ++ c.value) ++ cached.entries.map (fun c => c.1 ++ lit "=" ++ c.2) =
        (h.upstreamPairs r cached).map writePair := by
    simp [upstreamPairs, clientPairs, writePair, equals, Function.comp_def]
  simp only [prepareUpstreamCookies, unmanaged, kept, List.map_eq_nil_iff]

theorem cookie_canonical : canonicalHeaderKey (lit "Cookie") = lit "Cookie" := by decide

/-- The new `Cookie` header, read back, has the client's accepted pairs without a managed name, in
their order, and then the cached pairs. A managed name in it comes from the cache. -/
theorem upstream_cookies (r : Request) {cached : GoMap GoString GoString}
    (stored : ∀ c ∈ cached.entries, IsPair c) :
    (h.upstreamPairs r cached = [] →
      GoMap.get (h.prepareUpstreamCookies r cached).header (lit "Cookie") = none) ∧
    (h.upstreamPairs r cached ≠ [] → ∃ line,
      GoMap.get (h.prepareUpstreamCookies r cached).header (lit "Cookie") = some [line] ∧
      readPairs line = h.upstreamPairs r cached ∧
      (readPairs line).filter (fun c => h.keeps c.1) =
        cached.entries.filter fun c => h.keeps c.1) ∧
    ∀ key, key ≠ lit "Cookie" →
      GoMap.get (h.prepareUpstreamCookies r cached).header key = GoMap.get r.header key := by
  have valid : ∀ c ∈ h.upstreamPairs r cached, IsPair c := by
    intro c listed
    obtain client | server := List.mem_append.mp listed
    · exact (h.clientPairs_isPair client).1
    · exact stored c server
  have clients : (h.clientPairs r).filter (fun c => h.keeps c.1) = [] := by
    apply List.filter_eq_nil_iff.mpr
    intro c listed
    simp [(h.clientPairs_isPair listed).2]
  rw [prepareUpstreamCookies_header]
  refine ⟨fun none => ?_, fun some => ?_, fun key other => ?_⟩
  · rw [if_pos none, Header.get_del, cookie_canonical, if_pos rfl]
  · rw [if_neg some, Header.set, cookie_canonical, GoMap.get_set_self]
    refine ⟨_, rfl, readPairs_join valid some, ?_⟩
    rw [readPairs_join valid some, upstreamPairs, List.filter_append, clients, List.nil_append]
  · split_ifs with none
    · rw [Header.get_del, cookie_canonical, if_neg other]
    · rw [Header.set, cookie_canonical, GoMap.get_set_of_ne other]

def storingHandler : Handler := { sampleHandler with filter := ⟨[], [lit "sid"]⟩ }

def smugglingRequest : Request where
  path := lit "/"
  header := Header.set ∅ (lit "Cookie") (lit "sid=evil; theme=dark; SID=k; a=b=c")

theorem smuggled_cookie_dropped : ∃ line,
    GoMap.get (storingHandler.prepareUpstreamCookies smugglingRequest
      (GoMap.set ∅ (lit "sid") (lit "s1"))).header (lit "Cookie") = some [line] ∧
    readPairs line = [(lit "theme", lit "dark"), (lit "a", lit "b=c"), (lit "sid", lit "s1")] := by
  have pairs : storingHandler.upstreamPairs smugglingRequest (GoMap.set ∅ (lit "sid") (lit "s1")) =
      [(lit "theme", lit "dark"), (lit "a", lit "b=c"), (lit "sid", lit "s1")] := by
    decide +kernel
  have stored : ∀ c ∈ (GoMap.set ∅ (lit "sid") (lit "s1")).entries, IsPair c := by
    rintro ⟨name, value⟩ listed
    have held := GoMap.mem_entries.mp listed
    rw [GoMap.get_set, GoMap.get_empty] at held
    split_ifs at held with same
    cases held
    subst same
    exact ⟨by decide +kernel, by decide +kernel⟩
  obtain ⟨-, sent, -⟩ := storingHandler.upstream_cookies smugglingRequest stored
  obtain ⟨line, header, read, -⟩ := sent (by rw [pairs]; simp)
  exact ⟨line, header, by rw [read, pairs]⟩

end Handler

/-- The name stands once in the `Cookie` header of `r`, with `value`. -/
def Once (r : Request) (name value : GoString) : Prop :=
  ∃ line, GoMap.get r.header (lit "Cookie") = some [line] ∧
    (readPairs line).filter (fun c => c.1 = name) = [(name, value)]

theorem Handler.once_iff (h : Handler) (r : Request) {cached : GoMap GoString GoString}
    (stored : ∀ c ∈ cached.entries, IsPair c) {name value : GoString}
    (held : cached.get name = some value) :
    Once (h.prepareUpstreamCookies r cached) name value ↔
      h.keeps name = true ∨ ∀ c ∈ readCookies r.header [], c.name ≠ name := by
  have some : h.upstreamPairs r cached ≠ [] := by
    intro none
    have member : (name, value) ∈ h.upstreamPairs r cached :=
      List.mem_append_right _ (GoMap.mem_entries.mpr held)
    rw [none] at member
    cases member
  obtain ⟨line, header, read, -⟩ := (h.upstream_cookies r stored).2.1 some
  have single : Once (h.prepareUpstreamCookies r cached) name value ↔
      (h.clientPairs r).filter (fun c => c.1 = name) = [] := by
    have all : (readPairs line).filter (fun c => c.1 = name) =
        (h.clientPairs r).filter (fun c => c.1 = name) ++ [(name, value)] := by
      rw [read, Handler.upstreamPairs, List.filter_append, GoMap.filter_entries held]
    constructor
    · rintro ⟨line', header', once⟩
      cases header.symm.trans header'
      rw [all] at once
      simpa using once
    · intro none
      exact ⟨line, header, by rw [all, none, List.nil_append]⟩
  rw [single, List.filter_eq_nil_iff]
  constructor
  · intro absent
    cases keeps : h.keeps name with
    | true => exact .inl rfl
    | false =>
        refine .inr fun c member same => ?_
        subst same
        refine absent (c.name, c.value) ?_ (by simp)
        exact List.mem_map.mpr ⟨c, List.mem_filter.mpr ⟨member, by simp [keeps]⟩, rfl⟩
  · intro safe pair listed
    obtain ⟨c, member, rfl⟩ := List.mem_map.mp listed
    obtain ⟨member, unmanaged⟩ := List.mem_filter.mp member
    rintro same
    have same : c.name = name := by simpa using same
    obtain keeps | absent := safe
    · rw [← same] at keeps
      simp [keeps] at unmanaged
    · exact absent c member same

def Hashed (past : History) : Prop :=
  ∃ sid shas, (⟨.store (.cookieSHAs sid), .ok shas⟩ : Deed) ∈ past

theorem resolve_live (m : Manager) (keyID : GoString) :
    Obeys (fun _ _ => True) (fun result past => Hashed past → ∃ l, result = .ok (some l))
      (m.resolve keyID) [] := by
  refine obeys_act trivial fun key _ => ?_
  cases key with
  | error e => cases e <;> exact fun hashed => by simp [Hashed] at hashed
  | ok sid =>
      refine obeys_act trivial fun row _ => ?_
      cases row with
      | error e => cases e <;> exact fun hashed => by simp [Hashed] at hashed
      | ok row =>
          refine obeys_act trivial fun now _ => ?_
          dsimp only
          split_ifs with expired
          · exact obeys_act trivial fun _ _ hashed => by simp [Hashed] at hashed
          · refine obeys_act trivial fun touched _ => ?_
            cases touched with
            | error e => exact fun hashed => by simp [Hashed] at hashed
            | ok done =>
                refine obeys_act trivial fun cookies _ => ?_
                cases cookies with
                | error e => exact fun hashed => by simp [Hashed] at hashed
                | ok cookies =>
                    refine obeys_act trivial fun shas _ => ?_
                    cases shas with
                    | error e => exact fun hashed => by simp [Hashed] at hashed
                    | ok shas => exact fun _ => ⟨_, rfl⟩

theorem Exchange.Resolving.hashed {x : Exchange} {p : Handler.Presented} {past : History}
    (resolved : x.Resolving p past) (hashed : Hashed past) : ∃ l, p.live = some l := by
  have obeys : Obeys (fun _ _ => True)
      (fun result past => Hashed past → ∀ p : Handler.Presented, result = .ok p →
        ∃ l, p.live = some l) (x.handler.resolvePresented x.stripped) [] := by
    unfold Handler.resolvePresented
    cases x.handler.presentedKey x.stripped with
    | none => exact fun hashed => by simp [Hashed] at hashed
    | some key =>
        refine Prog.Wp.bind ((resolve_live x.handler.manager key).weaken fun result past live => ?_)
        cases result with
        | ok l =>
            intro hashed p same
            cases same
            obtain ⟨l', found⟩ := live hashed
            exact ⟨l', Except.ok.inj found⟩
        | error e =>
            dsimp only
            split_ifs with closed
            · exact fun hashed p same => by cases same
            · intro hashed
              obtain ⟨l, found⟩ := live hashed
              cases found
  exact obeys.run resolved.ran hashed p rfl

theorem read_cookies_isPair {visit : Nat → Visit} {c : Machine (Option (Ended × Writer))}
    (run : (traffic visit).Reaches quietStart c) {t : Nat} {sid : GoString}
    {cookies : GoMap GoString GoString}
    (read : (⟨.store (.getCookies sid), .ok cookies⟩ : Deed) ∈ own t c.state) :
    ∀ c ∈ cookies.entries, IsPair c := by
  obtain ⟨e, logged, -, deed⟩ := mem_own.mp read
  have served := (traffic_furnished run).sound.inv.chained.served logged
  rw [deed] at served
  obtain ⟨later, earlier, split⟩ := List.append_of_mem logged
  obtain ⟨mid, -, -, reached, -, -, -, before, -⟩ := logged_step run rfl split
  have stocked := (traffic_furnished reached).stocked
  rw [← before] at stocked
  rintro ⟨name, value⟩ listed
  have held := GoMap.mem_entries.mp listed
  rw [← served_getCookies served, Store.Memory.getCookies] at held
  cases table : e.before.cookies.get sid with
  | none => simp [table] at held
  | some cached =>
      rw [table] at held
      exact stocked.cookies table held

/-- A request goes upstream with the cookies that were read for its session, each of them once and
with its cached value, if and only if no pair of the client with the same name is passed on: the
name is store-listed or that of the proxy cookie, or the client did not send it. -/
theorem cached_cookies_authoritative_iff {visit : Nat → Visit}
    {c : Machine (Option (Ended × Writer))} (run : (traffic visit).Reaches quietStart c) {t : Nat}
    {x : Exchange} (asked : visit t = .request x) {new past : History} {r : Request}
    (sent : own t c.state = new ++ ⟨.next r, ()⟩ :: past) {sid : GoString}
    {cookies shas : GoMap GoString GoString}
    (read : (⟨.store (.getCookies sid), .ok cookies⟩ : Deed) ∈ past)
    (resolved : (⟨.store (.cookieSHAs sid), .ok shas⟩ : Deed) ∈ past) :
    (∃ e ∈ c.state.log, e.tid = t ∧ e.call = .store (.getCookies sid) ∧
      e.before.getCookies sid = cookies) ∧
    ∀ name value, cookies.get name = some value →
      (Once r name value ↔ x.handler.keeps name = true ∨
        ∀ c ∈ readCookies x.stripped.header [], c.name ≠ name) := by
  have passesOn := (traffic_furnished run).made t new (.next r) () past sent
  rw [asked] at passesOn
  obtain ⟨p, resolving, rfl⟩ := passesOn.sends r rfl
  obtain ⟨l, alive⟩ := resolving.hashed ⟨sid, shas, resolved⟩
  obtain ⟨keyID, -, row, now, ttl, -, -, -, -, -, history⟩ := resolving.live l alive
  have same : l.cookies = cookies := by
    rw [history] at read
    simp only [List.mem_cons] at read
    obtain other | same | other | other | other | other | none := read
    · cases other
    · cases same
      rfl
    · cases other
    · cases other
    · cases other
    · cases other
    · cases none
  have member : (⟨.store (.getCookies sid), .ok cookies⟩ : Deed) ∈ own t c.state := by
    rw [sent]
    exact List.mem_append_right _ (List.mem_cons_of_mem _ read)
  obtain ⟨e, logged, own, deed⟩ := mem_own.mp member
  have served := (traffic_furnished run).sound.inv.chained.served logged
  rw [deed] at served
  have stored := read_cookies_isPair run member
  refine ⟨⟨e, logged, own, congrArg Sigma.fst deed, served_getCookies served⟩,
    fun name value held => ?_⟩
  rw [alive, Option.map_some, Option.getD_some, same]
  exact x.handler.once_iff x.stripped stored held

def storingLogin : Exchange where
  handler := Handler.storingHandler
  conn := ⟨false, false⟩
  outer := ∅
  request := { path := lit "/" }
  next := fun _ => headerSetter setCookieName (lit "sid=s1") (.ret none)

def returning (h : Handler) : Exchange where
  handler := h
  conn := ⟨false, false⟩
  outer := ∅
  request :=
    { path := lit "/"
      header := Header.set ∅ (lit "Cookie") (lit "SID=" ++ sampleKey ++ lit "; sid=evil") }
  next := fun _ => .ret none

def reloadedVisits (h : Handler) : Nat → Visit
  | 0 => .request storingLogin
  | _ => .request (returning h)

def reloadedMoves : List Move :=
  let choices : List Choice := [{}, {}, {}, { clock := 100 }, { clock := 100 },
    { random := some (List.replicate 32 0) }, { random := some (List.replicate 32 1) }, {}, {},
    { clock := 100 }, {}, {}, {}, {}, {}]
  .start 0 :: choices.map (.act 0) ++ .start 1 :: resolveChoices.map (.act 1)

def sentUpstream (c : Machine (Option (Ended × Writer))) (line : GoString) : Bool :=
  match own 1 c.state with
  | ⟨.next r, _⟩ :: ⟨.store (.cookieSHAs sid), .ok _⟩ ::
      ⟨.store (.getCookies sid'), .ok cookies⟩ :: _ =>
      decide (sid' = sid) && decide (GoMap.get r.header (lit "Cookie") = some [line]) &&
        decide (cookies.get (lit "sid") = some (lit "s1"))
  | _ => false

theorem sentUpstream_iff {c : Machine (Option (Ended × Writer))} {line : GoString}
    (sent : sentUpstream c line = true) : ∃ r past sid cookies shas,
    own 1 c.state = ⟨.next r, ()⟩ :: past ∧
    (⟨.store (.getCookies sid), .ok cookies⟩ : Deed) ∈ past ∧
    (⟨.store (.cookieSHAs sid), .ok shas⟩ : Deed) ∈ past ∧
    cookies.get (lit "sid") = some (lit "s1") ∧
    GoMap.get r.header (lit "Cookie") = some [line] := by
  unfold sentUpstream at sent
  split at sent
  · rename_i r u sid shas sid' cookies past history
    simp only [Bool.and_eq_true, decide_eq_true_eq] at sent
    obtain ⟨⟨rfl, header⟩, held⟩ := sent
    exact ⟨r, _, sid', cookies, shas, history, by simp, by simp, held, header⟩
  · cases sent

theorem kept_configuration_authoritative : ∃ (c : Machine (Option (Ended × Writer))) (r : Request),
    (traffic (reloadedVisits Handler.storingHandler)).Reaches quietStart c ∧
    (⟨.next r, ()⟩ : Deed) ∈ own 1 c.state ∧ Once r (lit "sid") (lit "s1") := by
  have played : (play anyFaults (fun _ _ => true)
      (traffic (reloadedVisits Handler.storingHandler)).prog quietStart reloadedMoves).any
        fun c => sentUpstream c (lit "sid=s1") := by
    decide +kernel
  obtain ⟨c, reached, -, sent⟩ := reaches_of_played (fun _ => trivial) played
  obtain ⟨r, past, sid, cookies, shas, history, read, resolved, held, -⟩ := sentUpstream_iff sent
  refine ⟨c, r, reached, by simp [history], ?_⟩
  have split : own 1 c.state = [] ++ ⟨.next r, ()⟩ :: past := history
  exact ((cached_cookies_authoritative_iff reached rfl split read resolved).2 _ _ held).mpr
    (.inl (by decide +kernel))

/-- After the reload the name is not store-listed, and the client's value comes first. -/
theorem reloaded_configuration_smuggles : ∃ (c : Machine (Option (Ended × Writer))) (r : Request)
    (cookies : GoMap GoString GoString),
    (traffic (reloadedVisits sampleHandler)).Reaches quietStart c ∧
    (⟨.next r, ()⟩ : Deed) ∈ own 1 c.state ∧
    (∃ sid, (⟨.store (.getCookies sid), .ok cookies⟩ : Deed) ∈ own 1 c.state) ∧
    cookies.get (lit "sid") = some (lit "s1") ∧
    GoMap.get r.header (lit "Cookie") = some [lit "sid=evil; sid=s1"] ∧
    readPairs (lit "sid=evil; sid=s1") = [(lit "sid", lit "evil"), (lit "sid", lit "s1")] := by
  have played : (play anyFaults (fun _ _ => true)
      (traffic (reloadedVisits sampleHandler)).prog quietStart reloadedMoves).any
        fun c => sentUpstream c (lit "sid=evil; sid=s1") := by
    decide +kernel
  obtain ⟨c, reached, -, sent⟩ := reaches_of_played (fun _ => trivial) played
  obtain ⟨r, past, sid, cookies, shas, history, read, -, held, header⟩ := sentUpstream_iff sent
  refine ⟨c, r, cookies, reached, by simp [history], ⟨sid, ?_⟩, held, header, by decide +kernel⟩
  rw [history]
  exact List.mem_cons_of_mem _ read

end Gosestor
