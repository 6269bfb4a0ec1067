import Gosestor.Proof.Handler.Response
import Gosestor.Proof.Handler.Said
import Gosestor.Proof.Session.ApplyResponse

/-!
# The cookies and the session of a response

What is left of one response: the lines that go out, the cookies of the session, and the session
itself where there was none.
-/

namespace Gosestor

open Gosestor.Go Gosestor.Lib Gosestor.Session
open Gosestor.Store (Memory)

namespace Session

section Applies

variable {m : Manager} {l l' : Live} {ownerID : Option Int} {labels : Option (List GoString)}
  {force periodic : Bool} {cookies : List CookieMutation} {now : Int} {mem mem' : Memory}
  (applies : Applies m l ownerID labels force periodic cookies now mem l' mem')

include applies

theorem Applies.sessionID : l'.sessionID = l.sessionID := by
  cases applies with
  | idle found nothing => rfl
  | commit found controls held => exact committed_sessionID _ _ _ _

theorem Applies.kept : mem'.getCookies l.sessionID =
      cookies.foldl cookieAfter (mem.getCookies l.sessionID) ∧
    mem'.cookieSHAs l.sessionID = cookies.foldl (hashAfter m) (mem.cookieSHAs l.sessionID) := by
  cases applies with
  | idle found nothing =>
      have none : cookies = [] := by
        simp only [Live.nothingToDo, Live.controls, Bool.and_eq_true, List.isEmpty_iff,
          List.map_eq_nil_iff] at nothing
        exact nothing.2
      rw [none]
      exact ⟨rfl, rfl⟩
  | @commit row c key found controls held =>
      exact foldl_mutation m mem l.sessionID row cookies c (by rw [controls]; rfl)

theorem Applies.others {s : GoString} (other : s ≠ l.sessionID) :
    mem'.getCookies s = mem.getCookies s ∧ mem'.cookieSHAs s = mem.cookieSHAs s := by
  cases applies with
  | idle found nothing => exact ⟨rfl, rfl⟩
  | @commit row c key found controls held =>
      obtain ⟨cached, shas⟩ := Memory.commit_cookies_other mem l.sessionID row c other
      unfold Memory.getCookies Memory.cookieSHAs
      rw [cached, shas]
      exact ⟨rfl, rfl⟩

theorem Applies.pending (pending : l.rewrite = true) :
    l'.newProxyCookie = l.newProxyCookie ∧ mem'.keys = mem.keys ∧
      mem'.sessions.get l.sessionID ≠ none ∧
      ∀ s, s ≠ l.sessionID → mem'.sessions.get s = mem.sessions.get s := by
  cases applies with
  | idle found nothing => exact ⟨rfl, rfl, by simp [found], fun _ _ => rfl⟩
  | @commit row c key found controls held =>
      have still : c.rotate = false := by
        rw [controls]
        simp [Live.controls, pending]
      refine ⟨committed_still still, ?_, ?_, fun s other => ?_⟩
      · rw [Memory.commit_keys, still]
        rfl
      · simp [Memory.commit_sessions]
      · rw [Memory.commit_sessions, GoMap.get_set_of_ne other]

end Applies

end Session

def keepCookie (cookies : GoMap GoString GoString) : Cookie × Bool → GoMap GoString GoString
  | (cookie, true) => cookies.delete cookie.name
  | (cookie, false) => cookies.set cookie.name cookie.value

def keepHash (m : Manager) (shas : GoMap GoString GoString) :
    Cookie × Bool → GoMap GoString GoString
  | (cookie, true) => shas.delete cookie.name
  | (cookie, false) => shas.set cookie.name (encodeToString (m.sum256 cookie.value))

theorem cookieAfter_mutationOf (cookies : GoMap GoString GoString) (d : Cookie × Bool) :
    cookieAfter cookies (mutationOf d) = keepCookie cookies d := by
  obtain ⟨cookie, deletes⟩ := d
  cases deletes <;> rfl

theorem hashAfter_mutationOf (m : Manager) (shas : GoMap GoString GoString) (d : Cookie × Bool) :
    hashAfter m shas (mutationOf d) = keepHash m shas d := by
  obtain ⟨cookie, deletes⟩ := d
  cases deletes <;> rfl

theorem foldl_recorded_none {keep : GoMap GoString GoString → Cookie × Bool → GoMap GoString GoString}
    (deletes : ∀ cookie : Cookie, keep ∅ (cookie, true) = ∅) (decided : List (Cookie × Bool)) :
    (recorded none decided).foldl keep ∅ = decided.foldl keep ∅ := by
  show (decided.dropWhile (·.2)).foldl keep ∅ = _
  induction decided with
  | nil => rfl
  | cons d decided ih =>
      obtain ⟨cookie, gone⟩ := d
      cases gone with
      | true => rw [List.dropWhile_cons_of_pos rfl, ih, List.foldl_cons, deletes]
      | false => rfl

/-- What becomes of the `Set-Cookie` lines of a response. -/
structure Batched (h : Handler) (lines : List GoString) (nows : List Int) (ic : Interceptor)
    (mem : Memory) (ic' : Interceptor) (mem' : Memory) : Prop where
  sent : ic'.responseHeader.values setCookieName = lines.filter h.forwarded ++
    ((ic'.live.bind Live.newProxyCookie).map h.buildProxyCookie).toList
  session : ∀ l, ic.live = some l → ∃ l', ic'.live = some l' ∧ l'.sessionID = l.sessionID
  minted : ic.live = none → ∀ l', ic'.live = some l' →
    mem.getCookies l'.sessionID = ∅ ∧ mem.cookieSHAs l'.sessionID = ∅
  unminted : ic'.live = none → ∀ d ∈ h.decisions lines nows, d.2 = true
  cookies : ∀ l', ic'.live = some l' → mem'.getCookies l'.sessionID =
    (h.decisions lines nows).foldl keepCookie (mem.getCookies l'.sessionID)
  hashes : ∀ l', ic'.live = some l' → mem'.cookieSHAs l'.sessionID =
    (h.decisions lines nows).foldl (keepHash h.manager) (mem.cookieSHAs l'.sessionID)
  others : ∀ s, (∀ l', ic'.live = some l' → s ≠ l'.sessionID) →
    mem'.getCookies s = mem.getCookies s ∧ mem'.cookieSHAs s = mem.cookieSHAs s

section Processed

variable {h : Handler} {t : Nat} {w w' : World} {nows : List Int} {live : Option Live}
  {mem : Memory} {now : Int} {ic ic' : Interceptor}

theorem fresh_bare (inv : Inv anyFaults w) {sid : GoString} (fresh : sid ∉ w.minted) :
    w.mem.sessions.get sid = none ∧ w.mem.getCookies sid = ∅ ∧ w.mem.cookieSHAs sid = ∅ := by
  have free : w.mem.sessions.get sid = none := by
    by_contra live
    obtain ⟨u, used⟩ := inv.sessionUsed live
    exact fresh (mem_minted.mpr ⟨u, inv.settled u _ (.inl used)⟩)
  have cookies : w.mem.cookies.get sid = none := by
    by_contra held
    exact inv.wf.cookiesLive held free
  have shas : w.mem.shas.get sid = none := by
    by_contra held
    exact inv.wf.shasLive held free
  refine ⟨free, ?_, ?_⟩
  · rw [Memory.getCookies, cookies, Option.getD_none]
  · rw [Memory.cookieSHAs, shas, Option.getD_none]

theorem Interceptor.Provided.before {minted : List GoString} {needed : Bool} {mem₀ : Memory}
    {l : Live} {before : Option Live}
    (provided : Interceptor.Provided h minted mem₀ before needed (some l) mem) :
    (∀ s, mem.getCookies s = mem₀.getCookies s ∧ mem.cookieSHAs s = mem₀.cookieSHAs s) ∧
      (before = some l ∨ (before = none ∧ l.sessionID ∉ minted)) := by
  cases provided with
  | kept => exact ⟨fun s => ⟨rfl, rfl⟩, .inl rfl⟩
  | begun begins =>
      obtain ⟨now, stored⟩ := begins.stored
      rw [stored]
      exact ⟨fun s => ⟨rfl, rfl⟩, .inr ⟨rfl, begins.session⟩⟩

theorem foldl_recorded {before : Option Live} {cookies shas : GoMap GoString GoString}
    (bare : before = none → cookies = ∅ ∧ shas = ∅) (m : Manager) (decided : List (Cookie × Bool)) :
    ((recorded before decided).map mutationOf).foldl cookieAfter cookies =
        decided.foldl keepCookie cookies ∧
      ((recorded before decided).map mutationOf).foldl (hashAfter m) shas =
        decided.foldl (keepHash m) shas := by
  rw [List.foldl_map, List.foldl_map]
  simp only [cookieAfter_mutationOf, hashAfter_mutationOf]
  cases before with
  | some l => exact ⟨rfl, rfl⟩
  | none =>
      obtain ⟨rfl, rfl⟩ := bare rfl
      exact ⟨foldl_recorded_none (fun _ => rfl) decided, foldl_recorded_none (fun _ => rfl) decided⟩

theorem Interceptor.Processed.count
    (processed : Interceptor.Processed h t ic w nows live mem now ic' w') :
    nows.length = ((h.heard ic.responseHeader).lines.filterMap h.stored).length := by
  obtain ⟨_, _, -, -, -, handled⟩ := processed
  rw [Handler.heard_lines_eq]
  exact handled.count

theorem Interceptor.Processed.readings
    (processed : Interceptor.Processed h t ic w nows live mem now ic' w') :
    walls t w' = nows.reverse ++ walls t w := by
  obtain ⟨w₁, w₂, before, after, -, handled⟩ := processed
  rw [after.walls, handled.readings, before.walls]

theorem Interceptor.Processed.batched (inv : Inv anyFaults w)
    (processed : Interceptor.Processed h t ic w nows live mem now ic' w') :
    Batched h (h.heard ic.responseHeader).lines nows ic w.mem ic' w'.mem := by
  obtain ⟨w₁, w₂, ⟨⟨locks, mem₁⟩, minted, -, -⟩, ⟨⟨locks', mem₂⟩, -⟩, -, handled⟩ := processed
  have bare : (Interceptor.readControls h
      ((ic.readRevoke h).responseHeader.del setCookieName)).2.values setCookieName = [] :=
    Interceptor.readControls_lines _
  have alive : (ic.readRevoke h).live = ic.live := rfl
  have provided := handled.provided
  have concludes := handled.concludes
  rw [alive] at provided concludes
  generalize w₂.mem = memEnd at mem₂ concludes
  rw [mem₂, Handler.heard_lines_eq]
  rw [minted, mem₁] at provided
  cases concludes with
  | idle none =>
      dsimp only at none
      subst none
      obtain ⟨dead, unneeded, rfl⟩ := provided.of_none
      refine ⟨?_, ?_, fun _ l' some => ?_, fun _ d decided => ?_, fun l' some => ?_,
        fun l' some => ?_, fun s _ => ⟨rfl, rfl⟩⟩
      · simp [values_addLines, bare]
      · intro l some
        cases dead.symm.trans some
      · cases some
      · rw [Bool.or_eq_false_iff] at unneeded
        simpa using List.any_eq_false.mp unneeded.1 d decided
      · cases some
      · cases some
  | @applied l l' _ alive applies =>
      dsimp only at alive
      subst alive
      obtain ⟨stored, before⟩ := provided.before
      have same := applies.sessionID
      have empty : ic.live = none →
          w.mem.getCookies l.sessionID = ∅ ∧ w.mem.cookieSHAs l.sessionID = ∅ := by
        intro none
        obtain kept | ⟨-, fresh⟩ := before
        · cases none.symm.trans kept
        · exact (fresh_bare inv fresh).2
      have folded := foldl_recorded empty h.manager
        (h.decisions ((ic.readRevoke h).responseHeader.values setCookieName) nows)
      obtain ⟨cookies, shas⟩ := applies.kept
      rw [(stored _).1] at cookies
      rw [(stored _).2] at shas
      refine ⟨?_, ?_, ?_, fun none => (by cases none), ?_, ?_, ?_⟩
      · simp [values_addLines, bare]
      · intro l₀ alive
        obtain kept | ⟨none, -⟩ := before
        · cases alive.symm.trans kept
          exact ⟨l', rfl, same⟩
        · cases none.symm.trans alive
      · rintro none _ ⟨⟩
        rw [same]
        exact empty none
      · rintro _ ⟨⟩
        rw [same]
        exact cookies.trans folded.1
      · rintro _ ⟨⟩
        rw [same]
        exact shas.trans folded.2
      · intro s others
        obtain ⟨cookies', shas'⟩ := applies.others (same ▸ others l' rfl)
        exact ⟨cookies'.trans (stored s).1, shas'.trans (stored s).2⟩

end Processed

theorem Handler.forwarded_iff {h : Handler} {line : GoString} : h.forwarded line = true ↔
    ∃ cookie, parseSetCookie h.parseTime line = some cookie ∧ cookie.name ∈ h.filter.forward ∧
      cookie.name ∉ h.filter.store := by
  unfold Handler.forwarded Filter.decide
  cases parseSetCookie h.parseTime line with
  | none => simp
  | some cookie =>
      simp only [Option.any_some, decide_eq_true_eq, Option.some.injEq, exists_eq_left']
      split_ifs with kept sent
      · simp [kept]
      · simp [kept, sent]
      · simp [sent]

theorem Handler.stored_iff {h : Handler} {line : GoString} {cookie : Cookie} :
    h.stored line = some cookie ↔
      parseSetCookie h.parseTime line = some cookie ∧ cookie.name ∈ h.filter.store := by
  unfold Handler.stored Filter.decide
  rw [Option.filter_eq_some_iff, decide_eq_true_eq]
  refine and_congr_right fun _ => ?_
  split_ifs with kept sent
  · simp [kept]
  · simp [kept]
  · simp [kept]

/-- Each line of a response is forwarded as it is, folded into the session's cookies, or dropped. -/
theorem setCookie_lines_are_batched {visit : Nat → Visit} {c : Machine (Option (Ended × Writer))}
    (run : (traffic visit).Reaches quietStart c) (h : Handler) (ic : Interceptor)
    (unrevoked : (ic.readRevoke h).revokeRequested = false) (t : Nat) {ic' : Interceptor}
    {w : World} (processed : (ic.process h).Run (exec anyFaults t) c.state (.ok (), ic') w) :
    (canonicalHeaderKey h.revokeHeaderName ≠ setCookieName →
      (∀ declared ∈ declaredTrailers ic.responseHeader,
        canonicalHeaderKey declared ≠ setCookieName) →
      (h.heard ic.responseHeader).lines = ic.responseHeader.values setCookieName) ∧
    (∀ line, h.forwarded line = true ↔
      ∃ cookie, parseSetCookie h.parseTime line = some cookie ∧ cookie.name ∈ h.filter.forward ∧
        cookie.name ∉ h.filter.store) ∧
    (∀ line cookie, h.stored line = some cookie ↔
      parseSetCookie h.parseTime line = some cookie ∧ cookie.name ∈ h.filter.store) ∧
    ∃ nows, nows.length = ((h.heard ic.responseHeader).lines.filterMap h.stored).length ∧
      walls t w = nows.reverse ++ walls t c.state ∧
      Batched h (h.heard ic.responseHeader).lines nows ic c.state.mem ic' w.mem := by
  refine ⟨Handler.heard_lines, fun _ => Handler.forwarded_iff, fun _ _ => Handler.stored_iff, ?_⟩
  obtain ⟨nows, live, mem, now, done⟩ := (ic.process_alone unrevoked).run processed rfl
  exact ⟨nows, done.count, done.readings, done.batched (traffic_good run).inv.inv⟩

def storingHandler : Handler :=
  { sampleHandler with filter := ⟨[lit "lang"], [lit "sid", lit "old"]⟩ }

def storingResponse : Interceptor where
  w := { header := ∅ }
  live := none
  responseHeader := addLines [lit "old=; Max-Age=0", lit "sid=secret", lit "lang=en; Path=/"] ∅
  hadProxyCookie := false
  resolveErr := none

def storingChoices : List Choice :=
  [{ clock := 100 }, { clock := 100 }, { clock := 100 }, { random := some (List.replicate 32 0) },
   { random := some (List.replicate 32 1) }, {}, {}, { clock := 100 }, {}, {}]

theorem storing_lines_are_batched : ∃ ic' w nows,
    (storingResponse.process storingHandler).Run (exec anyFaults 0) quietStart.state (.ok (), ic') w ∧
    Batched storingHandler [lit "old=; Max-Age=0", lit "sid=secret", lit "lang=en; Path=/"] nows
      storingResponse quietStart.state.mem ic' w.mem := by
  have played : (playAlone anyFaults 0 (storingResponse.process storingHandler) quietStart.state
      storingChoices).any fun (result, _) => result.1.toOption.isSome := by
    decide +kernel
  obtain ⟨⟨⟨result, ic'⟩, w⟩, played, succeeded⟩ := (Option.any_eq_true _ _).mp played
  cases result with
  | error e => cases succeeded
  | ok done =>
      have processed := run_of_playAlone played
      obtain ⟨lines, -, -, nows, -, -, batched⟩ := @setCookie_lines_are_batched
        (fun _ => .revokeOwner 0) quietStart .refl storingHandler storingResponse (by decide) 0 _ _
        processed
      rw [lines (by decide) (by decide)] at batched
      exact ⟨ic', w, nows, processed, batched⟩

theorem Interceptor.mem_readLabels {raw given : List GoString} (read : readLabels raw = some given)
    {x : GoString} :
    x ∈ given ↔ (∃ value ∈ raw, Token labelSep value x) ∧ x ≠ Authz.anonymous := by
  unfold readLabels at read
  split_ifs at read
  cases read
  rw [List.mem_filter, mem_splitLabels_join, decide_eq_true_eq]

theorem Interceptor.readLabels_any {raw : List GoString} :
    (readLabels raw).any (· ≠ []) = true ↔
      ∃ value ∈ raw, ∃ x, Token labelSep value x ∧ x ≠ Authz.anonymous := by
  cases read : readLabels raw with
  | none =>
      have empty : raw = [] := by
        by_contra some
        rw [readLabels, if_neg some] at read
        cases read
      simp [empty]
  | some given =>
      rw [Option.any_some, decide_eq_true_eq]
      constructor
      · intro some
        obtain ⟨x, member⟩ := List.exists_mem_of_ne_nil given some
        obtain ⟨⟨value, listed, token⟩, other⟩ := (mem_readLabels read).mp member
        exact ⟨value, listed, x, token, other⟩
      · rintro ⟨value, listed, x, token, other⟩
        exact List.ne_nil_of_mem ((mem_readLabels read).mpr ⟨⟨value, listed, token⟩, other⟩)

/-- The response has something to hold: a cookie, an owner or a label. -/
def Said.NeedsSession (h : Handler) (nows : List Int) (said : Said) : Prop :=
  (∃ decision ∈ h.decisions said.lines nows, decision.2 = false) ∨
    (∃ owner, parseInt said.identity = some owner ∧ 0 < owner) ∨
    ∃ value ∈ said.labels, ∃ x, Token labelSep value x ∧ x ≠ Authz.anonymous

theorem needsSession_iff (h : Handler) (nows : List Int) (ic : Interceptor) :
    (h.heard ic.responseHeader).NeedsSession h nows ↔
      ((h.decisions ((ic.readRevoke h).responseHeader.values setCookieName) nows).any (!·.2) ||
        Interceptor.wantsSession ((ic.readRevoke h).controls h)) = true := by
  have owner : ((ic.readRevoke h).controls h).owner =
      (parseInt (h.heard ic.responseHeader).identity).filter (0 < ·) := by
    simp only [Interceptor.controls, Interceptor.readControls, Interceptor.readRevoke, Handler.heard]
  have labels : ((ic.readRevoke h).controls h).labels =
      Interceptor.readLabels (h.heard ic.responseHeader).labels := by
    simp only [Interceptor.controls, Interceptor.readControls, Interceptor.readRevoke, Handler.heard]
  rw [Said.NeedsSession, Handler.heard_lines_eq, Bool.or_eq_true, Interceptor.wantsSession, owner, labels,
    Bool.or_eq_true, Interceptor.readLabels_any, List.any_eq_true]
  simp [Option.isSome_filter, Option.any_eq_true]

/-- One session and one key are new, and nothing is gone. -/
structure MintsSession (mem mem' : Memory) (sid key : GoString) : Prop where
  session : mem.sessions.get sid = none ∧ mem'.sessions.get sid ≠ none
  sessions : ∀ s, s ≠ sid → mem'.sessions.get s = mem.sessions.get s
  mapped : mem.keys.get key = none ∧ mem'.keys.get key = some sid
  keys : ∀ k, k ≠ key → mem'.keys.get k = mem.keys.get k

theorem mintsSession_of_applies {w : World} {l l' : Live} {mem mem' : Memory} {m : Manager}
    {ownerID : Option Int} {labels : Option (List GoString)} {force periodic : Bool}
    {cookies : List CookieMutation} {now : Int} (inv : Inv anyFaults w)
    (begins : Begins m w.minted w.mem l mem)
    (applies : Applies m l ownerID labels force periodic cookies now mem l' mem') :
    MintsSession w.mem mem' l.sessionID l.keyID ∧ l'.newProxyCookie = some l.keyID := by
  have pending : l.rewrite = true := by rw [begins.handle]
  have issued : l.newProxyCookie = some l.keyID := by rw [begins.handle]; rfl
  obtain ⟨reported, keys, alive, others⟩ := applies.pending pending
  obtain ⟨now, stored⟩ := begins.stored
  have free : w.mem.keys.get l.keyID = none := by
    by_contra held
    obtain ⟨u, used⟩ := inv.keyUsed held
    exact begins.key (mem_minted.mpr ⟨u, inv.settled u _ (.inl used)⟩)
  refine ⟨⟨⟨(fresh_bare inv begins.session).1, alive⟩, fun s other => ?_, ⟨free, ?_⟩,
    fun k other => ?_⟩, reported.trans issued⟩
  · rw [others s other, stored]
    exact GoMap.get_set_of_ne other
  · rw [keys, stored]
    exact GoMap.get_set_self _ _ _
  · rw [keys, stored]
    exact GoMap.get_set_of_ne other

theorem Interceptor.Processed.minted {h : Handler} {t : Nat} {w w' : World} {nows : List Int}
    {live : Option Live} {mem : Memory} {now : Int} {ic ic' : Interceptor} (inv : Inv anyFaults w)
    (none : ic.live = none)
    (processed : Interceptor.Processed h t ic w nows live mem now ic' w') :
    ((h.heard ic.responseHeader).NeedsSession h nows → ∃ l', ic'.live = some l' ∧
      ∃ sid key, MintsSession w.mem w'.mem sid key ∧ l'.newProxyCookie = some key) ∧
    (¬ (h.heard ic.responseHeader).NeedsSession h nows → ic'.live = Option.none ∧ w'.mem = w.mem) := by
  obtain ⟨w₁, w₂, -, -, unlocked, handled⟩ := processed
  obtain ⟨rfl, rfl⟩ := unlocked none
  have alive : (ic.readRevoke h).live = Option.none := none
  have provided := handled.provided
  have concludes := handled.concludes
  rw [alive] at provided
  rw [needsSession_iff]
  generalize w₂.mem = memEnd at concludes
  generalize Interceptor.wantsSession ((ic.readRevoke h).controls h) = wants at provided
  cases concludes with
  | idle dead =>
      dsimp only at dead
      subst dead
      obtain ⟨-, unneeded, same⟩ := provided.of_none
      rw [unneeded]
      exact ⟨fun needed => (by cases needed), fun _ => ⟨rfl, same⟩⟩
  | @applied l l' _ alive applies =>
      dsimp only at alive
      subst alive
      generalize needed : (_ || wants) = held at provided
      cases provided with
      | begun begins =>
          refine ⟨fun _ => ?_, fun unneeded => absurd rfl unneeded⟩
          obtain ⟨mints, issued⟩ := mintsSession_of_applies inv begins applies
          exact ⟨l', rfl, _, _, mints, issued⟩

/-- A response on a request without a session begins one just when it has something to hold. -/
theorem session_is_minted_when_held {visit : Nat → Visit} {c : Machine (Option (Ended × Writer))}
    (run : (traffic visit).Reaches quietStart c) (h : Handler) (ic : Interceptor)
    (none : ic.live = none) (unrevoked : (ic.readRevoke h).revokeRequested = false) (t : Nat)
    {ic' : Interceptor} {w : World}
    (processed : (ic.process h).Run (exec anyFaults t) c.state (.ok (), ic') w) :
    (h.Apart → h.Undeclared ic.responseHeader →
      h.heard ic.responseHeader = h.written ic.responseHeader) ∧
    ∃ nows, nows.length = ((h.heard ic.responseHeader).lines.filterMap h.stored).length ∧
      walls t w = nows.reverse ++ walls t c.state ∧
      ((h.heard ic.responseHeader).NeedsSession h nows → ∃ sid key, MintsSession c.state.mem w.mem sid key ∧
        ic'.responseHeader.values setCookieName =
          (h.heard ic.responseHeader).lines.filter h.forwarded ++ [h.buildProxyCookie key]) ∧
      (¬ (h.heard ic.responseHeader).NeedsSession h nows → w.mem = c.state.mem ∧
        ic'.responseHeader.values setCookieName =
          (h.heard ic.responseHeader).lines.filter h.forwarded) := by
  refine ⟨Handler.heard_eq_written, ?_⟩
  have inv := (traffic_good run).inv.inv
  obtain ⟨nows, live, mem, now, done⟩ := (ic.process_alone unrevoked).run processed rfl
  have batched := done.batched inv
  obtain ⟨holding, empty⟩ := done.minted inv none
  refine ⟨nows, done.count, done.readings, fun holds => ?_, fun unheld => ?_⟩
  · obtain ⟨l', alive, sid, key, mints, issued⟩ := holding holds
    refine ⟨sid, key, mints, ?_⟩
    rw [batched.sent, alive]
    simp [issued]
  · obtain ⟨dead, same⟩ := empty unheld
    refine ⟨same, ?_⟩
    rw [batched.sent, dead]
    simp

def ownerResponse : Interceptor where
  w := { header := ∅ }
  live := none
  responseHeader := Header.set ∅ (lit "X-Identity") (lit "7")
  hadProxyCookie := false
  resolveErr := none

theorem owner_mints_session : ∃ ic' w sid key,
    (ownerResponse.process sampleHandler).Run (exec anyFaults 0) quietStart.state (.ok (), ic') w ∧
    MintsSession quietStart.state.mem w.mem sid key ∧
    ic'.responseHeader.values setCookieName = [sampleHandler.buildProxyCookie key] := by
  have played : (playAlone anyFaults 0 (ownerResponse.process sampleHandler) quietStart.state
      (storingChoices.drop 2)).any fun (result, _) => result.1.toOption.isSome := by
    decide +kernel
  obtain ⟨⟨⟨result, ic'⟩, w⟩, played, succeeded⟩ := (Option.any_eq_true _ _).mp played
  cases result with
  | error e => cases succeeded
  | ok done =>
      have processed := run_of_playAlone played
      obtain ⟨-, nows, -, -, minted, -⟩ := @session_is_minted_when_held (fun _ => .revokeOwner 0)
        quietStart .refl sampleHandler ownerResponse rfl (by decide) 0 _ _ processed
      have owned : parseInt (sampleHandler.heard ownerResponse.responseHeader).identity = some 7 := by
        decide +kernel
      have silent : (sampleHandler.heard ownerResponse.responseHeader).lines = [] := by
        decide +kernel
      obtain ⟨sid, key, mints, sent⟩ := minted (.inr (.inl ⟨7, owned, by decide⟩))
      rw [silent] at sent
      exact ⟨ic', w, sid, key, processed, mints, sent⟩

end Gosestor
