import Gosestor.Proof.Handler.Header
import Gosestor.Proof.Handler.Staging
import Gosestor.Proof.Session.Handle
import Gosestor.Proof.Session.Effects

/-!
# Processing a response

Whatever the store answers, processing leaves in the response header no control header, no trailer
declaration of one, and no `Set-Cookie` but forwarded lines of the backend and one line of its own.
`SessionEffect` ties that line to what was changed in the store.
-/

namespace Gosestor

open Gosestor.Go Gosestor.Lib Gosestor.Session
open Gosestor.Store (StoreCall)

/-! ## What may become of a header -/

/-- No managed name is that of a header the handler itself relies on. -/
def Handler.Plain (h : Handler) : Prop :=
  ∀ name ∈ h.managedHeaders,
    canonicalHeaderKey name ≠ trailerName ∧ canonicalHeaderKey name ≠ setCookieName

def Handler.forwarded (h : Handler) (line : GoString) : Bool :=
  (parseSetCookie h.parseTime line).any fun cookie => h.filter.decide cookie.name = .forward

theorem setCookieName_canonical : canonicalHeaderKey setCookieName = setCookieName := by decide

structure Adds (P : GoString → Prop) (hdr hdr' : Header) : Prop where
  elsewhere : ∀ key, key ≠ setCookieName → GoMap.get hdr' key = GoMap.get hdr key
  lines : ∀ line ∈ hdr'.values setCookieName, line ∈ hdr.values setCookieName ∨ P line

theorem Adds.refl (P : GoString → Prop) (hdr : Header) : Adds P hdr hdr :=
  ⟨fun _ _ => rfl, fun _ => .inl⟩

theorem Adds.trans {P : GoString → Prop} {hdr hdr' hdr'' : Header} (first : Adds P hdr hdr')
    (second : Adds P hdr' hdr'') : Adds P hdr hdr'' where
  elsewhere := fun key other => (second.elsewhere key other).trans (first.elsewhere key other)
  lines := fun line found => (second.lines line found).elim (first.lines line) .inr

theorem Adds.mono {P Q : GoString → Prop} {hdr hdr' : Header} (adds : Adds P hdr hdr')
    (imp : ∀ line, P line → Q line) : Adds Q hdr hdr' :=
  { adds with lines := fun line found => (adds.lines line found).imp_right (imp line) }

theorem adds_add {P : GoString → Prop} (hdr : Header) {line : GoString} (allowed : P line) :
    Adds P hdr (hdr.add setCookieName line) where
  elsewhere := by
    intro key other
    rw [Header.get_add, setCookieName_canonical, if_neg other]
  lines := by
    intro line' found
    rw [Header.values_add] at found
    obtain old | new := List.mem_append.mp found
    · exact .inl old
    · rw [List.mem_singleton.mp new]
      exact .inr allowed

structure Within (hdr hdr' : Header) : Prop where
  elsewhere : ∀ key, key ≠ setCookieName →
    GoMap.get hdr' key = none ∨ GoMap.get hdr' key = GoMap.get hdr key
  trailer : GoMap.get hdr' trailerName = GoMap.get hdr trailerName

theorem NoTrailers.within {managed : List GoString} {hdr hdr' : Header}
    (clean : NoTrailers managed hdr) (within : Within hdr hdr') : NoTrailers managed hdr' where
  declared := by
    intro name declared
    have same : hdr'.values trailerName = hdr.values trailerName :=
      Header.values_of_get (by rw [trailerName_canonical]; exact within.trailer)
    rw [declaredTrailers, same] at declared
    exact clean.declared name declared
  prefixed := by
    intro key name held named
    have other : key ≠ setCookieName := by
      rintro rfl
      simp [show prefixedTrailer setCookieName = none by decide] at named
    obtain gone | same := within.elsewhere key other
    · exact absurd gone held
    · exact clean.prefixed key name (same ▸ held) named

theorem within_delAll (hdr : Header) (names : List GoString)
    (kept : ∀ name ∈ names, canonicalHeaderKey name ≠ trailerName) :
    Within hdr (hdr.delAll names) where
  elsewhere := by
    intro key _
    rw [Header.get_delAll]
    split_ifs
    · exact .inl rfl
    · exact .inr rfl
  trailer := by
    rw [Header.get_delAll, if_neg]
    intro member
    obtain ⟨name, named, same⟩ := List.mem_map.mp member
    exact kept name named same

theorem Within.trans {hdr hdr' hdr'' : Header} (first : Within hdr hdr')
    (second : Within hdr' hdr'') : Within hdr hdr'' where
  elsewhere := fun key other => (second.elsewhere key other).elim .inl fun same =>
    (first.elsewhere key other).imp same.trans same.trans
  trailer := second.trailer.trans first.trailer

theorem Adds.within {P : GoString → Prop} {hdr hdr' : Header} (adds : Adds P hdr hdr') :
    Within hdr hdr' where
  elsewhere := fun key other => .inr (adds.elsewhere key other)
  trailer := adds.elsewhere trailerName (by decide)

/-! ## What each function does -/

namespace Interceptor

variable {h : Handler} {past : History}

def Opened (past : History) (live live' : Option Live) (calls : List StoreCall) : Prop :=
  (live' = live ∧ calls = []) ∨ (live = none ∧ ∃ l, live' = some l ∧ Begun past l calls)

theorem Opened.mono {past' : History} {live live' : Option Live} {calls : List StoreCall}
    (opened : Opened past live live' calls) (grows : past ⊆ past') :
    Opened past' live live' calls :=
  opened.imp_right fun ⟨before, l, after, begun⟩ => ⟨before, l, after, begun.mono grows⟩

def Held (past : History) (live : Option Live) : Prop :=
  ∀ l, live = some l → l.rewrite = true → Issued past l.keyID

theorem Held.opened {past' : History} {live live' : Option Live} {calls : List StoreCall}
    (held : Held past live) (grows : past ⊆ past') (opened : Opened past' live live' calls) :
    Held past' live' := by
  obtain ⟨rfl, -⟩ | ⟨-, l, rfl, begun⟩ := opened
  · exact fun l same pending => (held l same pending).mono grows
  · intro l' same _
    cases same
    exact begun.issued

/-- A stretch of processing that may begin a session and adds `Set-Cookie` lines that meet `P`. -/
structure Opening (P : GoString → Prop) (ic : Interceptor) (past : History) (ok : Bool)
    (ic' : Interceptor) (past' : History) : Prop where
  settled : Settled past'
  grows : past ⊆ past'
  done : ∃ responseHeader live calls, ic' = { ic with responseHeader, live } ∧
    Adds P ic.responseHeader responseHeader ∧ effects past' = calls ++ effects past ∧
    (ok = true → Opened past' ic.live live calls) ∧
    (ok = false → Birth past' calls ∧ (ic.live.isSome → calls = []))

theorem Opening.refl (P : GoString → Prop) (ic : Interceptor) (settled : Settled past) :
    Opening P ic past true ic past :=
  ⟨settled, List.Subset.refl _, ic.responseHeader, ic.live, [], rfl, .refl P _, rfl,
    fun _ => .inl ⟨rfl, rfl⟩, fun h => by cases h⟩

theorem Opening.trans {P : GoString → Prop} {ic ic' ic'' : Interceptor}
    {past past' past'' : History} {ok : Bool} (first : Opening P ic past true ic' past')
    (second : Opening P ic' past' ok ic'' past'') : Opening P ic past ok ic'' past'' := by
  obtain ⟨hdr, live, calls, rfl, adds, effect, opened, -⟩ := first.done
  obtain ⟨hdr', live', calls', rfl, adds', effect', opened', failed'⟩ := second.done
  refine ⟨second.settled, List.Subset.trans first.grows second.grows, hdr', live', calls' ++ calls, rfl,
    adds.trans adds', by rw [effect', effect, List.append_assoc], fun ok => ?_, fun fails => ?_⟩
  · obtain ⟨rfl, rfl⟩ | ⟨none, l, rfl, begun⟩ := opened rfl
    · rw [List.append_nil]
      exact opened' ok
    · obtain ⟨rfl, rfl⟩ | ⟨absurd, -⟩ := opened' ok
      · exact .inr ⟨none, l, rfl, begun.mono second.grows⟩
      · cases absurd
  · obtain ⟨birth, alive⟩ := failed' fails
    obtain ⟨rfl, rfl⟩ | ⟨none, l, rfl, begun⟩ := opened rfl
    · rw [List.append_nil]
      exact ⟨birth, alive⟩
    · have nothing : calls' = [] := alive rfl
      rw [nothing]
      refine ⟨(begun.mono second.grows).birth, fun some => ?_⟩
      rw [none] at some
      cases some

theorem ensureLive_opening (P : GoString → Prop) (ic : Interceptor) (settled : Settled past) :
    Obeys Guarded
      (fun result past' => Opening P ic past result.1.isOk result.2 past' ∧
        (result.1 = .ok () → result.2.live.isSome))
      (ic.ensureLive h) past := by
  unfold ensureLive
  split_ifs with alive
  · exact ⟨.refl P ic settled, fun _ => alive⟩
  · refine Prog.Wp.bind ((obeys_grows ((begin_proper h.manager settled).and
      (begin_effects h.manager))).weaken fun begun past' spec => ?_)
    obtain ⟨⟨settled', calls, effect, done, failed⟩, grows⟩ := spec
    have none : ic.live = none := by simpa using alive
    cases begun with
    | error e =>
        refine ⟨⟨settled', grows, ic.responseHeader, ic.live, calls, rfl, .refl P _, effect,
          fun h => (by cases h), fun _ => ⟨failed e rfl, fun h => absurd h alive⟩⟩, fun h => ?_⟩
        cases h
    | ok l =>
        exact ⟨⟨settled', grows, ic.responseHeader, some l, calls, rfl, .refl P _, effect,
          fun _ => .inr ⟨none, l, rfl, done l rfl⟩, fun h => by cases h⟩, fun _ => rfl⟩

def Forwards (h : Handler) (lines : List GoString) (line : GoString) : Prop :=
  line ∈ lines ∧ h.forwarded line

theorem sortCookies_opening (lines rest : List GoString) (mutations : List CookieMutation)
    (ic : Interceptor) (sub : rest ⊆ lines) (settled : Settled past) :
    Obeys Guarded
      (fun result past' => Opening (Forwards h lines) ic past result.1.isOk result.2 past')
      (sortCookies h rest mutations ic) past := by
  induction rest generalizing mutations ic past with
  | nil => exact .refl _ ic settled
  | cons sc rest ih =>
      have tail : rest ⊆ lines := fun line member => sub (List.mem_cons_of_mem sc member)
      rw [sortCookies]
      cases parsed : parseSetCookie h.parseTime sc with
      | none => exact ih mutations ic tail settled
      | some cookie =>
          dsimp only
          cases decision : h.filter.decide cookie.name with
          | drop => exact ih mutations ic tail settled
          | forward =>
              have allowed : Forwards h lines sc := by
                refine ⟨sub List.mem_cons_self, ?_⟩
                simp [Handler.forwarded, parsed, decision]
              have added : Opening (Forwards h lines) ic past true
                  { ic with responseHeader := ic.responseHeader.add setCookieName sc } past :=
                ⟨settled, List.Subset.refl _, _, ic.live, [], rfl, adds_add _ allowed, rfl,
                  fun _ => .inl ⟨rfl, rfl⟩, fun h => by cases h⟩
              exact (ih mutations _ tail settled).weaken fun _ _ done => added.trans done
          | store =>
              refine obeys_act ⟨⟨trivial, trivial⟩, trivial⟩ fun now _ => ?_
              have settled' := settled.cons (c := .wallClock) trivial now
              have ticked : Opening (Forwards h lines) ic past true ic
                  (⟨.wallClock, now⟩ :: past) :=
                ⟨settled', List.subset_cons_self _ _, _, ic.live, [], rfl, .refl _ _, rfl,
                  fun _ => .inl ⟨rfl, rfl⟩, fun h => by cases h⟩
              split_ifs with deletes live
              · exact (ih _ ic tail settled').weaken fun _ _ done => ticked.trans done
              · exact (ih mutations ic tail settled').weaken fun _ _ done => ticked.trans done
              · refine Prog.Wp.bind ((ic.ensureLive_opening (Forwards h lines) settled').weaken
                  fun result past' begun => ?_)
                obtain ⟨result, ic'⟩ := result
                have begun := ticked.trans begun.1
                cases result with
                | error e => exact begun
                | ok done =>
                    exact (ih _ _ tail begun.settled).weaken fun _ _ done => begun.trans done

/-- The effect of processing on the session `live`, and the line that is added to the forwarded
ones; `asked` is the revoke signal and `had` tells of a presented proxy cookie. -/
inductive SessionEffect (h : Handler) (asked had : Bool) (live : Option Live) (past : History) :
    Except Err Unit → Option GoString → List StoreCall → Prop
  | failed {e : Err} {calls : List StoreCall} (birth : Birth past calls)
      (alive : live.isSome → calls = []) : SessionEffect h asked had live past (.error e) none calls
  | revoked {l : Live} (revoke : asked = true) (held : live = some l) :
      SessionEffect h asked had live past (.ok ()) (if had then some h.buildExpiredProxyCookie else none)
        [.deleteSession l.sessionID]
  | expired (revoke : asked = true) (held : live = none) :
      SessionEffect h asked had live past (.ok ()) (if had then some h.buildExpiredProxyCookie else none) []
  | idle (keep : asked = false) (held : live = none) : SessionEffect h asked had live past (.ok ()) none []
  | applied {l l' : Live} {opened calls : List StoreCall} (keep : asked = false)
      (opens : Opened past live (some l) opened) (applies : Applied past l l' calls) :
      SessionEffect h asked had live past (.ok ()) (l'.newProxyCookie.map h.buildProxyCookie)
        (calls ++ opened)

theorem SessionEffect.mono {asked had : Bool} {live : Option Live} {past' : History}
    {result : Except Err Unit} {extra : Option GoString} {calls : List StoreCall}
    (does : SessionEffect h asked had live past result extra calls) (grows : past ⊆ past') :
    SessionEffect h asked had live past' result extra calls := by
  cases does with
  | failed birth alive => exact .failed (birth.mono grows) alive
  | revoked revoke held => exact .revoked revoke held
  | expired revoke held => exact .expired revoke held
  | idle keep held => exact .idle keep held
  | applied keep opens applies => exact .applied keep (opens.mono grows) (applies.mono grows)

def addLine (hdr : Header) (line : Option GoString) : Header :=
  line.elim hdr (hdr.add setCookieName)

/-- What `commitControls` does: it adds the cookie of a new key, if there is one. -/
def Commits (h : Handler) (ic : Interceptor) (past : History)
    (result : Except Err Unit × Interceptor) (past' : History) : Prop :=
  past ⊆ past' ∧ ∃ live extra calls,
    result.2 = { ic with responseHeader := addLine ic.responseHeader extra, live } ∧
    effects past' = calls ++ effects past ∧
    (∀ e, result.1 = .error e → calls = [] ∧ extra = none) ∧
    (result.1 = .ok () → (ic.live = none ∧ calls = [] ∧ extra = none) ∨
      ∃ l l', ic.live = some l ∧ Applied past' l l' calls ∧
        extra = l'.newProxyCookie.map h.buildProxyCookie)

theorem commitControls_obeys (ic : Interceptor) (c : Controls) (mutations : List CookieMutation)
    (settled : Settled past) (held : Held past ic.live) (positive : ∀ o, c.owner = some o → 0 < o) :
    Obeys Guarded (Commits h ic past) (ic.commitControls h c mutations) past := by
  unfold commitControls
  cases alive : ic.live with
  | none =>
      refine ⟨List.Subset.refl _, none, none, [], ?_, rfl, fun _ h => (by cases h),
        fun _ => .inl ⟨alive, rfl, rfl⟩⟩
      rw [← alive]
      rfl
  | some l =>
      refine Prog.Wp.bind ((obeys_grows ((applyControls_proper h.manager l c.owner c.labels c.rotate
        true mutations settled positive).and (applyControls_effects h.manager l c.owner c.labels
        c.rotate true mutations (held l alive)))).weaken fun result past' spec => ?_)
      obtain ⟨result, l'⟩ := result
      obtain ⟨⟨-, calls, effect, applied, failed⟩, grows⟩ := spec
      cases result with
      | error e =>
          exact ⟨grows, some l', none, calls, rfl, effect, fun _ _ => ⟨failed e rfl, rfl⟩,
            fun h => by cases h⟩
      | ok done =>
          dsimp only
          cases key : l'.newProxyCookie with
          | none =>
              exact ⟨grows, some l', none, calls, rfl, effect, fun _ h => (by cases h),
                fun _ => .inr ⟨l, l', alive, applied rfl, by rw [key]; rfl⟩⟩
          | some key' =>
              exact ⟨grows, some l', some (h.buildProxyCookie key'), calls, rfl, effect,
                fun _ h => (by cases h),
                fun _ => .inr ⟨l, l', alive, applied rfl, by rw [key]; rfl⟩⟩

/-- What `processLocked` does, from the header that is left when controls and cookies are gone. -/
def Locked (h : Handler) (ic : Interceptor) (past : History)
    (result : Except Err Unit × Interceptor) (past' : History) : Prop :=
  ∃ responseHeader live extra calls, result.2 = { ic with responseHeader, live } ∧
    Adds (fun line => Forwards h (ic.responseHeader.values setCookieName) line ∨ extra = some line)
      (readControls h (ic.responseHeader.del setCookieName)).2 responseHeader ∧
    (∀ line, extra = some line → line ∈ responseHeader.values setCookieName) ∧
    (ic.revokeRequested = true → responseHeader.values setCookieName = extra.toList) ∧
    effects past' = calls ++ effects past ∧
      SessionEffect h ic.revokeRequested ic.hadProxyCookie ic.live past' result.1 extra calls

theorem adds_addLine {P : GoString → Prop} (hdr : Header) (extra : Option GoString)
    (allowed : ∀ line, extra = some line → P line) : Adds P hdr (addLine hdr extra) := by
  cases extra with
  | none => exact .refl P hdr
  | some line => exact adds_add hdr (allowed line rfl)

theorem mem_addLine {hdr : Header} {extra : Option GoString} {line : GoString}
    (added : extra = some line) : line ∈ (addLine hdr extra).values setCookieName := by
  subst added
  rw [addLine, Option.elim_some, Header.values_add]
  exact List.mem_append_right _ (List.mem_singleton.mpr rfl)

theorem readControls_get (hdr : Header) (key : GoString) :
    GoMap.get (readControls h (hdr.del setCookieName)).2 key =
      if key ∈ [setCookieName, h.identityHeader, h.rotateHeaderName,
        h.labelsHeaderName].map canonicalHeaderKey
      then none else GoMap.get hdr key :=
  Header.get_delAll hdr key
    [setCookieName, h.identityHeader, h.rotateHeaderName, h.labelsHeaderName]

theorem readControls_lines (hdr : Header) :
    (readControls h (hdr.del setCookieName)).2.values setCookieName = [] := by
  rw [Header.values, readControls_get, if_pos (by simp)]
  rfl

theorem values_addLine {hdr : Header} (bare : hdr.values setCookieName = [])
    (extra : Option GoString) : (addLine hdr extra).values setCookieName = extra.toList := by
  cases extra with
  | none => exact bare
  | some line => rw [addLine, Option.elim_some, Header.values_add, bare, Option.toList_some,
      List.nil_append]

theorem revokeLocked_obeys (ic : Interceptor) (asked : ic.revokeRequested = true) :
    Obeys Guarded
      (fun result past' => ∃ live extra calls,
        result.2 = { ic with responseHeader := addLine ic.responseHeader extra, live } ∧
        effects past' = calls ++ effects past ∧
          SessionEffect h ic.revokeRequested ic.hadProxyCookie ic.live past' result.1 extra calls)
      (revokeLocked h ic) past := by
  have expire : ∀ live, (if ic.hadProxyCookie then { ic with
        live
        responseHeader := ic.responseHeader.add setCookieName h.buildExpiredProxyCookie }
      else { ic with live }) = { ic with
        responseHeader := addLine ic.responseHeader
          (if ic.hadProxyCookie then some h.buildExpiredProxyCookie else none), live } := by
    intro live
    split_ifs <;> rfl
  unfold revokeLocked
  cases held : ic.live with
  | none =>
      have same := expire ic.live
      exact ⟨ic.live, _, [], same, rfl, .expired asked rfl⟩
  | some l =>
      refine Prog.Wp.bind (obeys_act ⟨⟨trivial, trivial⟩, trivial⟩ fun deleted _ => ?_)
      cases deleted with
      | error e => exact ⟨some l, none, [], rfl, rfl, .failed (.inl rfl) fun _ => rfl⟩
      | ok done => exact ⟨none, _, [_], expire none, rfl, .revoked asked rfl⟩

theorem readControls_owner {hdr : Header} {o : Int}
    (named : (readControls h hdr).1.owner = some o) : 0 < o := by
  obtain ⟨-, positive⟩ := Option.filter_eq_some_iff.mp named
  exact of_decide_eq_true positive

def controlled (h : Handler) (ic : Interceptor) : Interceptor :=
  { ic with responseHeader := (readControls h (ic.responseHeader.del setCookieName)).2 }

abbrev Sorts (h : Handler) (ic : Interceptor) : History → Bool → Interceptor → History → Prop :=
  Opening (Forwards h (ic.responseHeader.values setCookieName)) (ic.controlled h)

theorem ensureLive_header (ic : Interceptor) :
    Obeys (fun _ _ => True) (fun result _ => result.2.responseHeader = ic.responseHeader)
      (ic.ensureLive h) past := by
  unfold ensureLive
  split_ifs with alive
  · rfl
  · refine Prog.Wp.bind ((Prog.Wp.trivial _ _).weaken fun begun past' _ => ?_)
    cases begun with
    | error e => rfl
    | ok l => rfl

theorem sortCookies_lines (rest : List GoString) (mutations : List CookieMutation)
    (ic : Interceptor) :
    Obeys (fun _ _ => True)
      (fun result _ => ∃ added, added.Sublist rest ∧ result.2.responseHeader.values setCookieName =
        ic.responseHeader.values setCookieName ++ added)
      (sortCookies h rest mutations ic) past := by
  have skipped : ∀ {rest : List GoString} {sc : GoString} {hdr hdr' : Header},
      (∃ added, added.Sublist rest ∧
        hdr'.values setCookieName = hdr.values setCookieName ++ added) →
      ∃ added, added.Sublist (sc :: rest) ∧
        hdr'.values setCookieName = hdr.values setCookieName ++ added :=
    fun ⟨added, sub, lines⟩ => ⟨added, sub.cons _, lines⟩
  induction rest generalizing mutations ic past with
  | nil => exact ⟨[], List.Sublist.refl _, (List.append_nil _).symm⟩
  | cons sc rest ih =>
      rw [sortCookies]
      cases parseSetCookie h.parseTime sc with
      | none => exact (ih mutations ic).weaken fun _ _ => skipped
      | some cookie =>
          dsimp only
          cases h.filter.decide cookie.name with
          | drop => exact (ih mutations ic).weaken fun _ _ => skipped
          | forward =>
              refine (ih mutations _).weaken ?_
              rintro result past' ⟨added, sub, lines⟩
              refine ⟨sc :: added, sub.cons_cons sc, ?_⟩
              rw [lines, Header.values_add, List.append_assoc]
              rfl
          | store =>
              refine obeys_act trivial fun now _ => ?_
              split_ifs with deletes live
              · exact (ih _ ic).weaken fun _ _ => skipped
              · exact (ih mutations ic).weaken fun _ _ => skipped
              · refine Prog.Wp.bind (ic.ensureLive_header.weaken fun result past' same => ?_)
                obtain ⟨result, ic'⟩ := result
                dsimp only at same
                cases result with
                | error e =>
                    refine ⟨[], List.nil_sublist _, ?_⟩
                    dsimp only
                    rw [same, List.append_nil]
                | ok done =>
                    dsimp only
                    rw [← same]
                    exact (ih _ ic').weaken fun _ _ => skipped

/-- How `processLocked` can end: the session is revoked, a session cannot be begun, or the cookies
are sorted and the controls are committed. -/
theorem processLocked_rule {post : Except Err Unit × Interceptor → History → Prop}
    (ic : Interceptor) (settled : Settled past) (held : Held past ic.live)
    (revoked : ∀ result past' live extra calls, ic.revokeRequested = true →
      result.2 = { ic with
        responseHeader := addLine (ic.controlled h).responseHeader extra, live } →
      effects past' = calls ++ effects past →
      SessionEffect h ic.revokeRequested ic.hadProxyCookie ic.live past' result.1 extra calls →
      post result past')
    (failed : ∀ e ic' past', ic.revokeRequested = false → Sorts h ic past false ic' past' →
      post (.error e, ic') past')
    (committed : ∀ ic' past₁ result past', ic.revokeRequested = false →
      Sorts h ic past true ic' past₁ → (∃ added,
        added.Sublist (ic.responseHeader.values setCookieName) ∧
        ic'.responseHeader.values setCookieName = added) →
      Commits h ic' past₁ result past' → post result past') :
    Obeys Guarded post (ic.processLocked h) past := by
  unfold processLocked
  dsimp only
  split_ifs with asked
  · refine (revokeLocked_obeys (ic.controlled h) asked).weaken ?_
    rintro result past' ⟨live, extra, calls, same, effect, does⟩
    exact revoked result past' live extra calls asked same effect does
  · have unasked : ic.revokeRequested = false := by simpa using asked
    have committing : ∀ (ic' : Interceptor) (past' : History) (mutations : List CookieMutation),
        Sorts h ic past true ic' past' →
        (∃ added, added.Sublist (ic.responseHeader.values setCookieName) ∧
          ic'.responseHeader.values setCookieName = added) →
        Obeys Guarded post (ic'.commitControls h
          (readControls h (ic.responseHeader.del setCookieName)).1 mutations) past' := by
      intro ic' past' mutations sorts lines
      have held' : Held past' ic'.live := by
        obtain ⟨hdr, live, calls, rfl, -, -, opened, -⟩ := sorts.done
        have opened : Opened past' ic.live live calls := opened rfl
        exact held.opened sorts.grows opened
      refine (commitControls_obeys _ _ mutations sorts.settled held'
        fun o => readControls_owner).weaken ?_
      exact fun result past'' commits => committed _ past' result past'' unasked sorts lines commits
    refine Prog.Wp.bind ((((sortCookies_opening _ _ [] (ic.controlled h) (List.Subset.refl _)
      settled).and (sortCookies_lines _ [] (ic.controlled h))).mono (fun _ _ may => may.1)
      fun _ _ done => done).weaken fun result past₁ sorted => ?_)
    obtain ⟨result, ic₁⟩ := result
    obtain ⟨sorts, added, sub, lines⟩ := sorted
    dsimp only at lines
    rw [controlled, readControls_lines, List.nil_append] at lines
    cases result with
    | error e => exact failed e ic₁ past₁ unasked sorts
    | ok mutations =>
        dsimp only
        split_ifs with wants
        · refine Prog.Wp.bind ((((ic₁.ensureLive_opening
            (Forwards h (ic.responseHeader.values setCookieName)) sorts.settled).and
            ic₁.ensureLive_header).mono (fun _ _ may => may.1) fun _ _ done => done).weaken
            fun result past₂ spec => ?_)
          obtain ⟨result, ic₂⟩ := result
          obtain ⟨⟨begun, -⟩, same⟩ := spec
          have begun := sorts.trans begun
          cases result with
          | error e => exact failed e ic₂ past₂ unasked begun
          | ok done =>
              refine committing ic₂ past₂ mutations begun ⟨added, sub, ?_⟩
              dsimp only at same
              rw [same, lines]
        · exact committing ic₁ past₁ mutations sorts ⟨added, sub, lines⟩

theorem processLocked_obeys (ic : Interceptor) (settled : Settled past) (held : Held past ic.live) :
    Obeys Guarded (Locked h ic past) (ic.processLocked h) past := by
  refine processLocked_rule ic settled held ?_ ?_ ?_
  · rintro ⟨result, ic'⟩ past' live extra calls asked rfl effect does
    exact ⟨_, live, extra, calls, rfl, adds_addLine _ extra fun _ => .inr, fun line => mem_addLine,
      fun _ => values_addLine (readControls_lines _) extra, effect, does⟩
  · intro e ic' past' unasked opening
    obtain ⟨hdr, live, calls, rfl, adds, effect, -, failed⟩ := opening.done
    exact ⟨hdr, live, none, calls, rfl, adds.mono fun _ => .inl, fun _ h => (by cases h),
      fun asked => absurd asked (by simp [unasked]), effect, .failed (failed rfl).1 (failed rfl).2⟩
  · rintro ic' past₁ ⟨result, ic''⟩ past'' unasked opening - commits
    obtain ⟨hdr, live, calls, rfl, adds, effect, opened, -⟩ := opening.done
    obtain ⟨grows, live', extra, calls', rfl, effect', failed, applied⟩ := commits
    refine ⟨addLine hdr extra, live', extra, calls' ++ calls, rfl, ?_, fun line => mem_addLine,
      fun asked => absurd asked (by simp [unasked]), by rw [effect', effect, List.append_assoc], ?_⟩
    · exact (adds.mono fun _ => .inl).trans (adds_addLine hdr extra fun _ => .inr)
    · cases result with
      | error e =>
          obtain ⟨rfl, rfl⟩ := failed e rfl
          obtain ⟨rfl, rfl⟩ | ⟨none, l, rfl, begun⟩ := opened rfl
          · exact .failed (.inl rfl) fun _ => rfl
          · refine .failed (begun.mono grows).birth fun some => ?_
            rw [show ic.live = Option.none from none] at some
            cases some
      | ok done =>
          obtain ⟨rfl, rfl, rfl⟩ | ⟨l, l', rfl, applies, rfl⟩ := applied rfl
          · obtain ⟨none, rfl⟩ | ⟨-, l, absurd, -⟩ := opened rfl
            · exact .idle unasked none.symm
            · cases absurd
          · exact .applied unasked (Opened.mono (opened rfl) grows) applies

/-- What processing promises, given what the downstream handler left in the header. -/
structure Tidied (h : Handler) (ic : Interceptor) (past : History)
    (result : Except Err Unit × Interceptor) (past' : History) : Prop where
  frame : ∃ responseHeader live, result.2 =
    { ic with responseHeader, live, revokeRequested := (ic.readRevoke h).revokeRequested }
  within : h.Plain → Within (h.scrubTrailers ic.responseHeader) result.2.responseHeader
  controls : h.Plain → result.1 = .ok () → ∀ name ∈ h.managedHeaders,
    GoMap.get result.2.responseHeader (canonicalHeaderKey name) = none
  does : ∃ extra calls,
    SessionEffect h (ic.readRevoke h).revokeRequested ic.hadProxyCookie ic.live past' result.1 extra
      calls ∧
    effects past' = calls ++ effects past ∧ (result.1 = .ok () →
      (∀ line ∈ result.2.responseHeader.values setCookieName,
        Forwards h (ic.responseHeader.values setCookieName) line ∨ extra = some line) ∧
      (∀ line, extra = some line → line ∈ result.2.responseHeader.values setCookieName) ∧
      ((ic.readRevoke h).revokeRequested = true →
        result.2.responseHeader.values setCookieName = extra.toList))

theorem readRevoke_lines (ic : Interceptor) :
    (ic.readRevoke h).responseHeader.values setCookieName ⊆
      ic.responseHeader.values setCookieName := by
  refine List.Subset.trans ?_ (scrubTrailers_lines h ic.responseHeader)
  rw [readRevoke, Header.values, Header.get_del]
  split_ifs
  · exact List.nil_subset _
  · exact List.Subset.refl _

theorem readRevoke_within (plain : h.Plain) (ic : Interceptor) :
    Within (h.scrubTrailers ic.responseHeader) (ic.readRevoke h).responseHeader := by
  refine within_delAll _ [h.revokeHeaderName] fun name member => ?_
  rw [List.mem_singleton.mp member]
  exact (plain h.revokeHeaderName (by simp [Handler.managedHeaders])).1

theorem readControls_within (plain : h.Plain) (hdr : Header) :
    Within hdr (readControls h (hdr.del setCookieName)).2 := by
  refine within_delAll _ [setCookieName, h.identityHeader, h.rotateHeaderName,
    h.labelsHeaderName] fun name member => ?_
  obtain rfl | managed := List.mem_cons.mp member
  · decide
  · refine (plain name ?_).1
    simp only [List.mem_cons, List.not_mem_nil, or_false] at managed
    obtain rfl | rfl | rfl := managed <;> simp [Handler.managedHeaders]

theorem tidied_of_locked {ic : Interceptor} {past' : History}
    {result : Except Err Unit × Interceptor}
    (locked : Locked h (ic.readRevoke h) past result past') : Tidied h ic past result past' := by
  obtain ⟨hdr, live, extra, calls, same, adds, added, revoked, effect, does⟩ := locked
  refine ⟨⟨hdr, live, same⟩, fun plain => ?_, fun plain _ name managed => ?_,
    extra, calls, does, effect, fun _ => ⟨fun line found => ?_, ?_, ?_⟩⟩
  · rw [same]
    exact ((readRevoke_within plain ic).trans (readControls_within plain _)).trans adds.within
  · rw [same]
    dsimp only
    rw [adds.elsewhere _ (plain name managed).2, readControls_get]
    split_ifs with read
    · rfl
    · simp only [Handler.managedHeaders, List.mem_cons, List.not_mem_nil, or_false] at managed
      obtain rfl | rfl | rfl | rfl := managed
      · simp at read
      · simp at read
      · rw [readRevoke, Header.get_del, if_pos rfl]
      · simp at read
  · rw [same] at found
    obtain old | new := adds.lines line found
    · rw [readControls_lines] at old
      cases old
    · exact new.imp_left (And.imp_left fun member => readRevoke_lines ic member)
  · rw [same]
    exact added
  · rw [same]
    exact revoked

theorem tidied_error (ic : Interceptor) (e : Err) {past' : History}
    (same : effects past' = effects past) : Tidied h ic past (.error e, ic.readRevoke h) past' where
  frame := ⟨_, ic.live, rfl⟩
  within := fun plain => readRevoke_within plain ic
  controls := fun _ same => by cases same
  does := ⟨none, [], .failed (.inl rfl) fun _ => rfl, same, fun same => by cases same⟩

theorem Tidied.wrap {ic : Interceptor} {past₀ past' past'' : History}
    {result : Except Err Unit × Interceptor} (tidied : Tidied h ic past₀ result past')
    (before : effects past₀ = effects past) (after : effects past'' = effects past')
    (grows : past' ⊆ past'') : Tidied h ic past result past'' :=
  { tidied with
    does := by
      obtain ⟨extra, calls, does, effect, lines⟩ := tidied.does
      exact ⟨extra, calls, does.mono grows, by rw [after, effect, before], lines⟩ }

theorem process_obeys (ic : Interceptor) (settled : Settled past) (held : Held past ic.live) :
    Obeys Guarded (Tidied h ic past) (ic.process h) past := by
  have locked : ∀ {past : History}, Settled past → Held past ic.live → Obeys Guarded
      (Tidied h ic past) ((ic.readRevoke h).processLocked h) past := fun settled held =>
    ((ic.readRevoke h).processLocked_obeys settled held).weaken fun _ _ => tidied_of_locked
  unfold process
  dsimp only
  split
  · exact tidied_error ic _ rfl
  · cases (ic.readRevoke h).live with
    | none => exact locked settled held
    | some l =>
        refine withLock_obeys (fun _ _ => ⟨⟨trivial, trivial⟩, trivial⟩)
          (fun _ => ⟨⟨trivial, trivial⟩, trivial⟩) (fun e ttl r => ?_) (locked settled held)
          fun ttl => ?_
        · exact tidied_error ic e (by cases r <;> rfl)
        · have grows : past ⊆ ⟨.store (.lock l.sessionID ttl), .ok true⟩ :: past :=
            List.subset_cons_self _ _
          refine (locked (settled.cons (c := .store (.lock l.sessionID ttl)) trivial _)
            fun l same pending => (held l same pending).mono grows).weaken fun result past' done r => ?_
          exact done.wrap rfl (by cases r <;> rfl) (List.subset_cons_self _ _)

def Revoking : Call → Prop
  | .store (.lock _ _) | .store (.unlock _) | .store (.deleteSession _) => True
  | _ => False

theorem process_revoking (ic : Interceptor) (asked : (ic.readRevoke h).revokeRequested = true) :
    Obeys (fun _ => Revoking) (fun _ _ => True) (ic.process h) past := by
  have locked : ∀ {past : History}, Obeys (fun _ => Revoking) (fun _ _ => True)
      ((ic.readRevoke h).processLocked h) past := by
    intro past
    unfold processLocked
    dsimp only
    rw [if_pos asked]
    unfold revokeLocked
    cases (ic.readRevoke h).live with
    | none => trivial
    | some l =>
        refine Prog.Wp.bind (obeys_act trivial fun deleted _ => ?_)
        cases deleted with
        | error e => trivial
        | ok done => trivial
  unfold process
  dsimp only
  split
  · trivial
  · cases (ic.readRevoke h).live with
    | none => exact locked
    | some l =>
        exact withLock_obeys (fun _ _ => trivial) (fun _ => trivial) (fun _ _ _ => trivial) locked
          fun _ => locked.weaken fun _ _ _ _ => trivial

theorem dropManaged_within (plain : h.Plain) (hdr : Header) : Within hdr (h.dropManaged hdr) := by
  refine within_delAll hdr _ fun name member => ?_
  obtain rfl | managed := List.mem_cons.mp member
  · decide
  · exact (plain name managed).1

def deliveredHeader (h : Handler) (result : Except Err Unit × Interceptor) : Header :=
  match result.1 with
  | .ok _ => result.2.responseHeader
  | .error _ => h.dropManaged result.2.responseHeader

/-- A header without controls, and without trailers that name one. -/
structure Clean (h : Handler) (hdr : Header) : Prop where
  controls : ∀ name ∈ h.managedHeaders, GoMap.get hdr (canonicalHeaderKey name) = none
  trailers : NoTrailers ((setCookieName :: h.managedHeaders).map canonicalHeaderKey) hdr

theorem Tidied.clean {ic : Interceptor} {past' : History}
    {result : Except Err Unit × Interceptor} (tidied : Tidied h ic past result past')
    (plain : h.Plain) : Clean h (deliveredHeader h result) := by
  obtain ⟨result, ic'⟩ := result
  have trailers : NoTrailers _ ic'.responseHeader :=
    (strip_noTrailers ic.responseHeader (setCookieName :: h.managedHeaders)).within
      (tidied.within plain)
  cases result with
  | ok done => exact ⟨tidied.controls plain rfl, trailers⟩
  | error e =>
      refine ⟨fun name managed => ?_, trailers.within (dropManaged_within plain _)⟩
      rw [deliveredHeader, dropManaged_get, if_pos]
      exact List.mem_map_of_mem (List.mem_cons_of_mem _ managed)

theorem deliveredHeader_error (e : Err) (ic : Interceptor) :
    (deliveredHeader h (.error e, ic)).values setCookieName = [] := by
  exact dropManaged_lines h _

end Interceptor

end Gosestor
