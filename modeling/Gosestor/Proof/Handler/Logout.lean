import Gosestor.Proof.Handler.Blocks
import Gosestor.Proof.Handler.Commits

/-!
# Logout

A response that asks for revocation is answered with 502, or the session it was made under is gone
and the client's proxy cookie has been expired.
-/

namespace Gosestor

open Gosestor.Go Gosestor.Lib Gosestor.Session Gosestor.Store

theorem served_deleteSession {faults : Fault → Bool} {m m' : Memory} {id : GoString}
    (served : Served faults m m' ⟨.store (.deleteSession id), .ok ()⟩) :
    m'.sessions.get id = none := by
  obtain ⟨order, -, rfl⟩ | ⟨failed, -⟩ := served
  · simp [Memory.perform, Memory.deleteSession, Memory.cascade]
  · cases failed

theorem Chained.removed {faults : Fault → Bool} {m : Memory} {log : List Event}
    (chained : Chained faults m log) {e : Event} {id : GoString} (logged : e ∈ log)
    (before : e.before.sessions.get id ≠ none) (after : m.sessions.get id = none) :
    ∃ e' ∈ log, e'.before.sessions.get id ≠ none ∧ e'.after.sessions.get id = none := by
  induction log generalizing m with
  | nil => cases logged
  | cons e' log ih =>
      obtain ⟨rfl, -, rest⟩ := chained
      by_cases here : e'.before.sessions.get id = none
      · obtain rfl | earlier := List.mem_cons.mp logged
        · exact absurd here before
        · obtain ⟨e'', member, removed⟩ := ih rest earlier here
          exact ⟨e'', List.mem_cons_of_mem _ member, removed⟩
      · exact ⟨e', List.mem_cons_self, here, after⟩

theorem Inv.gone_of_deleted {faults : Fault → Bool} {w : World} (inv : Inv faults w) {t : Nat}
    {newer older : History} {id : GoString} (row : Session)
    (history : own t w = newer ++ ⟨.store (.deleteSession id), .ok ()⟩ :: older)
    (read : (⟨.store (.getSession id), .ok row⟩ : Deed) ∈ older) : Gone w.mem id := by
  obtain ⟨later, e, earlier, logged, -, deed, -, before⟩ := ownDeeds_split newer history
  have member : e ∈ w.log := by simp [logged]
  have deleted : e.after.sessions.get id = none := by
    have served := inv.chained.served member
    rw [deed] at served
    exact served_deleteSession served
  refine gone_of_wf inv.wf ?_
  by_cases here : e.before.sessions.get id = none
  · rw [← before] at read
    obtain ⟨e', logged', -, deed'⟩ : ∃ e' ∈ earlier, e'.tid = t ∧ e'.deed = _ := by
      simpa [ownDeeds, and_assoc] using read
    have chained := inv.chained
    rw [logged] at chained
    have served := chained.split.served logged'
    rw [deed'] at served
    obtain ⟨e'', member', removed⟩ :=
      chained.split.removed logged' (by simp [served_getSession served]) here
    exact inv.goneSession (by simp [logged, member']) removed.1 removed.2
  · exact inv.goneSession member here deleted

/-- The response asks for revocation, under a header name that is not one of trailers. -/
structure AsksRevocation (h : Handler) (left : Header) : Prop where
  enabled : h.revokeEnabled = true
  value : ∃ raw ∈ left.values h.revokeHeaderName, parseBool raw = some true
  undeclared : canonicalHeaderKey h.revokeHeaderName ∉
    (declaredTrailers left).map canonicalHeaderKey
  named : canonicalHeaderKey h.revokeHeaderName ≠ trailerName ∧
    prefixedTrailer (canonicalHeaderKey h.revokeHeaderName) = none

def Mints : Call → Prop
  | .store (.putSession _ _) | .store (.putKey _ _ _) => True
  | _ => False

namespace Exchange

variable (x : Exchange)

/-- The client got 502 and nothing of the backend's response. -/
structure Refusal (past : History) : Prop where
  answered : (⟨.writeHeader 502 (clearHeaders x.outer), ()⟩ : Deed) ∈ past
  only : ∀ status hdr, (⟨.writeHeader status hdr, ()⟩ : Deed) ∈ past →
    status = 502 ∧ hdr = clearHeaders x.outer
  bodiless : ∀ body n, (⟨.write body, n⟩ : Deed) ∉ past

/-- The session that the request was made under is gone, from before the response on. -/
structure LoggedOut (t : Nat) (w : World) : Prop where
  gone : ∃ p newer r resolved, own t w = newer ++ ⟨.next r, ()⟩ :: resolved ∧
    Prog.Run History.step (x.handler.resolvePresented x.stripped) [] (.ok p) resolved ∧
    ∀ l, p.live = some l → Gone w.mem l.sessionID ∧ ∀ e ∈ w.log, e.tid = t →
      (∃ status hdr, e.call = .writeHeader status hdr) → Gone e.before l.sessionID
  answered : ∃ status hdr, Writer.informational status = false ∧
    (⟨.writeHeader status hdr, ()⟩ : Deed) ∈ own t w
  cookies : ∀ status hdr, (⟨.writeHeader status hdr, ()⟩ : Deed) ∈ own t w →
    hdr.received setCookieName =
      if Writer.informational status ∨ x.presented = none then []
      else [x.handler.buildExpiredProxyCookie]

end Exchange

theorem Exchange.Refusal.of_rejecting {x : Exchange} {new old : History}
    (answered : (⟨.writeHeader 502 (clearHeaders x.outer), ()⟩ : Deed) ∈ new)
    (only : ∀ d ∈ new, (∀ body, d.1 ≠ .write body) ∧ ∀ status hdr, d.1 = .writeHeader status hdr →
      status = 502 ∧ hdr = clearHeaders x.outer)
    (silent : ∀ d ∈ old, (∀ body, d.1 ≠ .write body) ∧ ∀ status hdr, d.1 ≠ .writeHeader status hdr) :
    x.Refusal (new ++ old) where
  answered := List.mem_append_left old answered
  only := by
    intro status hdr member
    obtain member | member := List.mem_append.mp member
    · exact (only _ member).2 status hdr rfl
    · exact absurd rfl ((silent _ member).2 status hdr)
  bodiless := by
    intro body n member
    obtain member | member := List.mem_append.mp member
    · exact (only _ member).1 body rfl
    · exact (silent _ member).1 body rfl

theorem readRevoke_asked {h : Handler} {ic : Interceptor}
    (asks : AsksRevocation h ic.responseHeader) : (ic.readRevoke h).revokeRequested = true := by
  obtain ⟨raw, member, value⟩ := asks.value
  have kept : (h.scrubTrailers ic.responseHeader).values h.revokeHeaderName =
      ic.responseHeader.values h.revokeHeaderName := by
    refine Header.values_of_get ?_
    rw [Handler.scrubTrailers, get_strip _ _ asks.named.2, get_withoutDeclarations _ _ asks.named.1,
      if_neg]
    intro dropped
    refine asks.undeclared (List.map_subset _ ?_ dropped)
    exact List.filter_sublist.subset
  have found : ((h.scrubTrailers ic.responseHeader).values h.revokeHeaderName).any
      (fun raw => parseBool raw = some true) = true := by
    rw [kept, List.any_eq_true]
    exact ⟨raw, member, by simp [value]⟩
  simp [Interceptor.readRevoke, asks.enabled, found]

theorem effects_append (new old : History) : effects (new ++ old) = effects new ++ effects old :=
  List.filterMap_append

theorem mem_of_deleted {past : History} {id : GoString}
    (effect : StoreCall.deleteSession id ∈ effects past) :
    (⟨.store (.deleteSession id), .ok ()⟩ : Deed) ∈ past := by
  obtain ⟨⟨c, r⟩, member, same⟩ := List.mem_filterMap.mp effect
  cases c with
  | store sc =>
      cases r with
      | error e => cases same
      | ok answer =>
          simp only [Deed.effect, Option.ite_none_right_eq_some] at same
          obtain ⟨-, same⟩ := same
          cases same
          exact member
  | _ => cases same

theorem Mints.stores {c : Call} (mints : Mints c) : ∃ sc, c = .store sc := by
  cases c with
  | store sc => exact ⟨sc, rfl⟩
  | _ => exact mints.elim

theorem Only.mintless {P : Call → Prop} {new : History} (only : Only P new)
    (aside : ∀ sc, ¬ P (.store sc)) : Only (¬ Mints ·) new := by
  intro d member mints
  obtain ⟨sc, same⟩ := mints.stores
  exact aside sc (same ▸ only d member)

theorem Preliminary.silent {c : Call} (preliminary : Preliminary c) :
    (∀ body, c ≠ .write body) ∧ ∀ status hdr, c ≠ .writeHeader status hdr := by
  refine ⟨?_, ?_⟩
  · rintro body rfl
    obtain staging | sessional | ⟨r, same⟩ | ⟨left, same⟩ := preliminary
    · exact staging
    · exact sessional
    · cases same
    · cases same
  · rintro status hdr rfl
    exact not_preliminary_writeHeader preliminary

namespace Exchange

variable {x : Exchange}

theorem Resolving.preliminary {p : Handler.Presented} {past : History} {r : Request}
    (resolving : x.Resolving p past) : Only Preliminary (⟨.next r, ()⟩ :: past) :=
  .cons (.inr (.inr (.inl ⟨_, rfl⟩))) (resolving.only.mono fun _ may => .inr (.inl may.sessional))

theorem Resolving.mintless {p : Handler.Presented} {past : History} {r : Request}
    (resolving : x.Resolving p past) : Only (¬ Mints ·) (⟨.next r, ()⟩ :: past) := by
  refine .cons id (resolving.only.mono fun c resolves mints => ?_)
  obtain ⟨sc, rfl⟩ := mints.stores
  cases sc <;> first | exact mints | exact resolves

theorem Completed.mintless {p : Handler.Presented} {ic : Interceptor} {past : History}
    (completed : x.Completed p ic past) : Only (¬ Mints ·) past := by
  obtain ⟨resolved, staged, new, r, resolving, rfl, only, only'⟩ := completed.history
  exact (only'.mintless fun _ => id).append
    (.cons id ((only.mintless fun _ => id).append resolving.mintless))

theorem Completed.left {p : Handler.Presented} {ic : Interceptor} {past done : History}
    {left : Header} (completed : x.Completed p ic past) (sessional : Only Sessional done)
    (returned : (⟨.returned none left, ()⟩ : Deed) ∈ done ++ past) : left = ic.responseHeader := by
  obtain ⟨resolved, staged, new, r, resolving, rfl, only, only'⟩ := completed.history
  obtain member | member := List.mem_append.mp returned
  · exact (sessional _ member).elim
  · obtain member | member := List.mem_append.mp member
    · exact (only' _ member).elim
    · obtain same | member := List.mem_cons.mp member
      · cases same
        rfl
      · obtain member | member := List.mem_append.mp member
        · exact (only _ member).elim
        · obtain same | member := List.mem_cons.mp member
          · cases same
          · exact (resolving.only _ member).elim

/-- The history of a logout: the session was deleted before anything was sent. -/
structure Revoked (x : Exchange) (past : History) : Prop where
  history : ∃ p sent done staged r resolved, x.Resolving p resolved ∧
    past = sent ++ (done ++ (staged ++ ⟨.next r, ()⟩ :: resolved)) ∧
    Only Preliminary (done ++ (staged ++ ⟨.next r, ()⟩ :: resolved)) ∧
    ∀ l, p.live = some l → (⟨.store (.deleteSession l.sessionID), .ok ()⟩ : Deed) ∈ done
  answered : ∃ status hdr, Writer.informational status = false ∧
    (⟨.writeHeader status hdr, ()⟩ : Deed) ∈ past
  cookies : ∀ status hdr, (⟨.writeHeader status hdr, ()⟩ : Deed) ∈ past →
    hdr.values setCookieName =
      if Writer.informational status ∨ x.presented = none then []
      else [x.handler.buildExpiredProxyCookie]

theorem revokes {p : Handler.Presented} {ic : Interceptor} {past done : History}
    {result : Except Err Unit × Interceptor} (completed : x.Completed p ic past)
    (tidied : Interceptor.Tidied x.handler ic past result (done ++ past))
    (asked : (ic.readRevoke x.handler).revokeRequested = true)
    (accepted : ¬ Handler.Refused x.handler result) :
    (Interceptor.deliveredHeader x.handler result).values setCookieName =
        (if x.presented = none then [] else [x.handler.buildExpiredProxyCookie]) ∧
      ∀ l, p.live = some l → (⟨.store (.deleteSession l.sessionID), .ok ()⟩ : Deed) ∈ done := by
  obtain ⟨result, ic'⟩ := result
  obtain ⟨hdr, live, rfl⟩ := tidied.frame
  obtain ⟨resolved, -, -, -, resolving, -⟩ := completed.history
  have had : ic.hadProxyCookie = x.presented.isSome :=
    completed.hadProxyCookie.trans resolving.presented
  have lines : (if ic.hadProxyCookie then some x.handler.buildExpiredProxyCookie
      else none).toList = if x.presented = none then [] else [x.handler.buildExpiredProxyCookie] := by
    rw [had]
    cases x.presented <;> rfl
  cases result with
  | error e => exact absurd ⟨fun h => (by cases h), .inr asked⟩ accepted
  | ok done =>
      obtain ⟨extra, calls, does, effect, values⟩ := tidied.does
      obtain ⟨-, -, only⟩ := values rfl
      cases does with
      | idle keep held | applied keep opens applies => cases keep.symm.trans asked
      | revoked revoke held =>
          refine ⟨(only asked).trans lines, fun l same => mem_of_deleted ?_⟩
          rw [effects_append] at effect
          cases (completed.live.symm.trans held).symm.trans same
          rw [List.append_cancel_right effect]
          exact List.mem_singleton.mpr rfl
      | expired revoke held =>
          refine ⟨(only asked).trans lines, fun l same => ?_⟩
          cases (completed.live.symm.trans held).symm.trans same

theorem Completed.revoking {p : Handler.Presented} {ic : Interceptor} {past done : History}
    {left : Header} (completed : x.Completed p ic past) (worked : x.Worked ic done)
    (returned : (⟨.returned none left, ()⟩ : Deed) ∈ done ++ past)
    (asks : AsksRevocation x.handler left) :
    (ic.readRevoke x.handler).revokeRequested = true ∧ Only (¬ Mints ·) (done ++ past) := by
  obtain rfl := completed.left worked.only returned
  have asked := readRevoke_asked asks
  refine ⟨asked, Only.append (fun d member mints => ?_) completed.mintless⟩
  have revoking := worked.revoking asked d member
  obtain ⟨c, answer⟩ := d
  obtain ⟨sc, rfl⟩ := mints.stores
  cases sc <;> first | exact mints | exact revoking

theorem Completed.revoked {p : Handler.Presented} {ic : Interceptor} {past done new : History}
    {result : Except Err Unit × Interceptor} {w : Writer} (completed : x.Completed p ic past)
    (tidied : Interceptor.Tidied x.handler ic past result (done ++ past)) (worked : x.Worked ic done)
    (accepted : ¬ Handler.Refused x.handler result)
    (delivers : x.Delivered ic.informational (Interceptor.deliveredHeader x.handler result)
      (⟨.processed (Handler.failure result.1), ()⟩ :: (done ++ past)) w new)
    (asked : (ic.readRevoke x.handler).revokeRequested = true) :
    x.Revoked (new ++ ⟨.processed (Handler.failure result.1), ()⟩ :: (done ++ past)) := by
  obtain ⟨lines, deleted⟩ := revokes completed tidied asked accepted
  have processing := completed.processing worked.only
  refine ⟨?_, ?_, fun status hdr found => ?_⟩
  · obtain ⟨resolved, staged, new', r, resolving, rfl, -, -⟩ := completed.history
    refine ⟨p, new ++ [⟨.processed (Handler.failure result.1), ()⟩], done,
      new' ++ ⟨.returned none ic.responseHeader, ()⟩ :: staged, r, resolved, resolving,
      by simp, ?_, deleted⟩
    simpa using processing
  · obtain ⟨dst, status, -, final, found⟩ := delivers.header
    exact ⟨status, _, final, List.mem_append_left _ found⟩
  · obtain found | found := List.mem_append.mp found
    · obtain ⟨info, listed, dst, same⟩ | ⟨final, dst, same⟩ := delivers.only _ found
      · cases same
        rw [if_pos (.inl (completed.early info listed)), values_copyHeaders]
        exact dropManaged_lines x.handler _
      · rw [same, values_copyHeaders, lines]
        simp [final]
    · obtain same | found := List.mem_cons.mp found
      · cases same
      · exact (not_preliminary_writeHeader (processing _ found)).elim

theorem returned_earlier {P : Call → Prop} {new past : History} {c : Call} {r : c.Answer}
    {err : Option Err} {left : Header} (only : Only P new) (aside : ¬ P (.returned err left))
    (other : c ≠ .returned err left)
    (returned : (⟨.returned err left, ()⟩ : Deed) ∈ new ++ ⟨c, r⟩ :: past) :
    (⟨.returned err left, ()⟩ : Deed) ∈ past := by
  obtain member | member := List.mem_append.mp returned
  · exact absurd (only _ member) aside
  · obtain same | member := List.mem_cons.mp member
    · exact absurd (congrArg Sigma.fst same).symm other
    · exact member

theorem Ends.of_revocation {ended : Ended} {w : Writer} {past : History} {left : Header}
    (ends : x.Ends ended w past) (ordinary : shaken past = false)
    (returned : (⟨.returned none left, ()⟩ : Deed) ∈ past)
    (asks : AsksRevocation x.handler left) :
    Only (¬ Mints ·) past ∧ (x.Refusal past ∨ x.Revoked past) := by
  cases ends with
  | unresolved only => exact (only _ returned).elim
  | denied resolved denial =>
      obtain same | member := List.mem_cons.mp returned
      · cases same
      · exact (resolved.only _ member).elim
  | taken took => exact absurd (ordinary.symm.trans took.isShaken) Bool.false_ne_true
  | panicked resolved only =>
      exact (resolved.only _ (returned_earlier only id (fun same => by cases same) returned)).elim
  | declined resolved declines =>
      obtain member | member := List.mem_append.mp returned
      · exact ⟨(declines.only.mintless fun sc may => may.silent.1 sc rfl).append resolved.mintless,
          .inl (.of_rejecting (declines.answered (declines.mark left member)).2
            (fun d found => (declines.only d found).silent.2)
            fun d found => (resolved.preliminary d found).silent)⟩
      · obtain same | member := List.mem_cons.mp member
        · cases same
        · exact (resolved.only _ member).elim
  | rejected completed tidied worked refused rejects =>
      have declines : Only (Declining (clearHeaders x.outer)) _ := rejects.only.mono fun _ => .inl
      have unreturned : ¬ Rejecting (clearHeaders x.outer) (.returned none left) := by
        rintro (staging | same)
        · exact staging
        · cases same
      have member := returned_earlier rejects.only unreturned (fun same => by cases same) returned
      refine ⟨(declines.mintless fun sc may => may.silent.1 sc rfl).append
        (.cons id (completed.revoking worked member asks).2), .inl (.of_rejecting rejects.answered
        (fun d found => (declines d found).silent.2) fun d found => ?_)⟩
      obtain rfl | found := List.mem_cons.mp found
      · exact ⟨fun _ h => (by cases h), fun _ _ h => by cases h⟩
      · exact (completed.processing worked.only d found).silent
  | sent completed tidied worked accepted delivers =>
      have member := returned_earlier delivers.only ?_ (fun same => by cases same) returned
      · obtain ⟨asked, mintless⟩ := completed.revoking worked member asks
        refine ⟨(delivers.only.mintless ?_).append (.cons id mintless),
          .inr (completed.revoked tidied worked accepted delivers asked)⟩
        rintro sc (⟨info, -, dst, same⟩ | sending)
        · cases same
        · exact sending
      · rintro (⟨info, -, dst, same⟩ | sending)
        · cases same
        · exact sending

end Exchange

theorem gone_before {visit : Nat → Visit} {c : Machine (Option (Ended × Writer))}
    (run : (traffic visit).Reaches quietStart c) {t : Nat} {sent newer older : History}
    {id : GoString} (row : Session)
    (history : own t c.state = sent ++ (newer ++ ⟨.store (.deleteSession id), .ok ()⟩ :: older))
    (read : (⟨.store (.getSession id), .ok row⟩ : Deed) ∈ older) {e : Event}
    (logged : e ∈ c.state.log) (tid : e.tid = t)
    (notMem : e.deed ∉ newer ++ ⟨.store (.deleteSession id), .ok ()⟩ :: older) :
    Gone e.before id := by
  obtain ⟨later, earlier, split⟩ := List.append_of_mem logged
  obtain ⟨before, -, -, reached, -, -, log, mem, -⟩ := logged_step run rfl split
  have mem := mem.symm
  have same : own t c.state = ownDeeds t later ++ e.deed :: ownDeeds t earlier := by
    rw [own, split]
    simp [ownDeeds, tid]
  obtain ⟨between, behind⟩ := behind_of_notMem (same.symm.trans history) notMem
  have shorter : own t before.state =
      between ++ newer ++ ⟨.store (.deleteSession id), .ok ()⟩ :: older := by
    rw [own, log, behind, List.append_assoc]
  rw [← mem]
  exact (traffic_good reached).inv.inv.gone_of_deleted row shorter read

/-- A response that asks for revocation mints nothing, and is refused or the session is gone and the
cookie expired: if all header keys are canonical and there was no handshake. -/
theorem logout_never_falsely_succeeds {visit : Nat → Visit}
    {c : Machine (Option (Ended × Writer))} (run : (traffic visit).Reaches quietStart c) {t : Nat}
    {x : Exchange} {ended : Ended} {w : Writer} (asked : visit t = .request x)
    (keys : x.CanonicalKeys) (done : c.thread t = some (.ret (some (ended, w))))
    (ordinary : shaken (own t c.state) = false) {left : Header}
    (returned : (⟨.returned none left, ()⟩ : Deed) ∈ own t c.state)
    (asks : AsksRevocation x.handler left) :
    (∀ d ∈ own t c.state, ¬ Mints d.1) ∧
      (x.Refusal (own t c.state) ∨ x.LoggedOut t c.state) := by
  obtain ⟨mintless, outcome⟩ := (traffic_ends run asked done).of_revocation ordinary returned asks
  refine ⟨mintless, outcome.imp id fun revoked => ⟨?_, revoked.answered, fun status hdr sent => ?_⟩⟩
  swap
  · rw [(keys.blocks (traffic_run run asked done) sent).received]
    exact revoked.cookies status hdr sent
  obtain ⟨p, sent, deleting, staged, r, resolved, resolving, history, preliminary, deleted⟩ :=
    revoked.history
  refine ⟨p, sent ++ deleting ++ staged, r, resolved, by simp [history], resolving.ran, ?_⟩
  intro l same
  obtain ⟨keyID, -, row, now, ttl, -, -, -, -, -, rfl⟩ := resolving.live l same
  obtain ⟨newer, older, rfl⟩ := List.append_of_mem (deleted l same)
  rw [List.append_assoc, List.cons_append] at history preliminary
  have longer := history.trans (List.append_assoc _ _ _).symm
  refine ⟨(traffic_good run).inv.inv.gone_of_deleted row longer (by simp), ?_⟩
  rintro e logged tid ⟨status, hdr, call⟩
  refine gone_before run row history (by simp) logged tid fun member => ?_
  have early := preliminary _ member
  rw [show e.deed.1 = _ from call] at early
  exact not_preliminary_writeHeader early

def logoutNext : Down := headerSetter defaultRevokeHeader (lit "true") (.ret none)

def Deed.left : Deed → Option Header
  | ⟨.returned none left, _⟩ => some left
  | _ => none

theorem mem_of_left {past : History} {left : Header}
    (found : past.findSome? Deed.left = some left) :
    (⟨.returned none left, ()⟩ : Deed) ∈ past := by
  obtain ⟨⟨c, answer⟩, member, same⟩ := List.exists_of_findSome?_eq_some found
  cases c with
  | returned err left =>
      cases err with
      | none =>
          cases same
          exact member
      | some e => cases same
  | _ => cases same

def asksRevocation (h : Handler) (left : Header) : Bool :=
  h.revokeEnabled && (left.values h.revokeHeaderName).any (fun raw => parseBool raw = some true) &&
    decide (canonicalHeaderKey h.revokeHeaderName ∉ (declaredTrailers left).map canonicalHeaderKey) &&
    decide (canonicalHeaderKey h.revokeHeaderName ≠ trailerName ∧
      prefixedTrailer (canonicalHeaderKey h.revokeHeaderName) = none)

theorem asksRevocation_of_check {h : Handler} {left : Header} (checked : asksRevocation h left) :
    AsksRevocation h left := by
  simp only [asksRevocation, Bool.and_eq_true, List.any_eq_true, decide_eq_true_eq] at checked
  obtain ⟨⟨⟨enabled, value⟩, undeclared⟩, named⟩ := checked
  exact ⟨enabled, value, undeclared, named⟩

theorem logout_sample_is_logged_out : ∃ c left,
    (traffic (sampleVisits logoutNext)).Reaches quietStart c ∧
    (⟨.returned none left, ()⟩ : Deed) ∈ own 1 c.state ∧ AsksRevocation sampleHandler left ∧
    (sampleReturn logoutNext).LoggedOut 1 c.state := by
  have played : (play anyFaults (fun _ _ => true) (traffic (sampleVisits logoutNext)).prog quietStart
      (returnMoves [{}, {}, {}, {}, {}, {}])).any fun c => (answer c 1).isSome &&
        (!shaken (own 1 c.state) && (((own 1 c.state).findSome? Deed.left).any
          (asksRevocation sampleHandler) &&
          ((own 1 c.state).filterMap Deed.sent).any fun sent => sent.1 ≠ 502)) := by
    decide +kernel
  obtain ⟨c, run, -, checked⟩ := reaches_of_played (fun _ => trivial) played
  simp only [Bool.and_eq_true, Bool.not_eq_true', List.any_eq_true, Option.any_eq_true,
    decide_eq_true_eq] at checked
  obtain ⟨answered, ordinary, ⟨left, returned, asks⟩, ⟨status, hdr⟩, sent, final⟩ := checked
  obtain ⟨⟨ended, w⟩, found⟩ := Option.isSome_iff_exists.mp answered
  have keys : (sampleReturn logoutNext).CanonicalKeys :=
    ⟨canonical_empty, fun _ => headerSetter_sets (fun _ canonical => canonical.set _ _) trivial⟩
  obtain ⟨-, refused | out⟩ := logout_never_falsely_succeeds run (x := sampleReturn logoutNext) rfl
    keys (answer_eq found) ordinary (mem_of_left returned) (asksRevocation_of_check asks)
  · exact absurd (refused.only status hdr (mem_of_sent sent)).1 final
  · exact ⟨c, left, run, mem_of_left returned, asksRevocation_of_check asks, out⟩

def upgradeNext : Down :=
  headerSetter defaultRevokeHeader (lit "true")
    (.call (.writeHeader 101) fun _ => .call .hijack fun _ => .ret none)

theorem upgrade_ignores_revocation : ∃ (c : Machine (Option (Ended × Writer))) (ended : Ended)
    (w : Writer) (left : Header), (traffic (sampleVisits upgradeNext)).Reaches quietStart c ∧
    c.thread 1 = some (.ret (some (ended, w))) ∧
    (⟨.returned none left, ()⟩ : Deed) ∈ own 1 c.state ∧ tripped (own 1 c.state) = false ∧
    (sampleReturn upgradeNext).presented = some sampleKey ∧
    c.state.mem.keys.get sampleKey = some sampleSession ∧
    c.state.mem.sessions.get sampleSession ≠ none ∧
    ∀ hdr, (⟨.writeHeader 502 hdr, ()⟩ : Deed) ∉ own 1 c.state := by
  have played : (play anyFaults (fun _ _ => true) (traffic (sampleVisits upgradeNext)).prog quietStart
      (returnMoves [{}, {}, {}, {}, {}])).any fun c => (answer c 1).isSome &&
        (((own 1 c.state).findSome? Deed.left).isSome && (!tripped (own 1 c.state) &&
        (c.state.mem.keys.get sampleKey = some sampleSession &&
        (c.state.mem.sessions.get sampleSession ≠ none &&
          ((own 1 c.state).filterMap Deed.sent).all fun sent => sent.1 ≠ 502)))) := by
    decide +kernel
  obtain ⟨c, run, -, checked⟩ := reaches_of_played (fun _ => trivial) played
  simp only [Bool.and_eq_true, Bool.not_eq_true', List.all_eq_true, decide_eq_true_eq] at checked
  obtain ⟨answered, returned, calm, held, alive, only⟩ := checked
  obtain ⟨⟨ended, w⟩, found⟩ := Option.isSome_iff_exists.mp answered
  obtain ⟨left, returned⟩ := Option.isSome_iff_exists.mp returned
  refine ⟨c, ended, w, left, run, answer_eq found, mem_of_left returned, calm, presented_return _,
    held, alive, fun hdr member => only (502, hdr) (List.mem_filterMap.mpr ⟨_, member, rfl⟩) rfl⟩

end Gosestor
