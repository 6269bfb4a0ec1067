import Gosestor.Proof.Handler.Traffic

/-!
# What reaches the client

A response that failed leaves no trace with the client or in the store, and whatever the backend
puts in its headers, no control header and no cookie of the session reaches the client.
-/

namespace Gosestor

open Gosestor.Go Gosestor.Lib Gosestor.Session
open Gosestor.Store (Memory StoreCall)

def Preliminary (c : Call) : Prop :=
  Staging c ∨ Sessional c ∨ (∃ r, c = .next r) ∨ ∃ hdr, c = .returned none hdr

theorem not_preliminary_writeHeader {status : Int} {hdr : Header} :
    ¬ Preliminary (.writeHeader status hdr) := by
  rintro (staging | sessional | ⟨r, same⟩ | ⟨left, same⟩)
  · exact staging
  · exact sessional
  · cases same
  · cases same

theorem not_preliminary_processed {err : Option Err} : ¬ Preliminary (.processed err) := by
  rintro (staging | sessional | ⟨r, same⟩ | ⟨left, same⟩)
  · exact staging
  · exact sessional
  · cases same
  · cases same

theorem not_preliminary_returned {e : Err} {hdr : Header} :
    ¬ Preliminary (.returned (some e) hdr) := by
  rintro (staging | sessional | ⟨r, same⟩ | ⟨left, same⟩)
  · exact staging
  · exact sessional
  · cases same
  · cases same

theorem Declining.silent {hdr : Header} {c : Call} (declining : Declining hdr c) :
    (∀ sc, c ≠ .store sc) ∧ (∀ body, c ≠ .write body) ∧
      ∀ status sent, c = .writeHeader status sent → status = 502 ∧ sent = hdr := by
  obtain (staging | rfl) | ⟨err, left, rfl⟩ := declining
  · cases c with
    | store | write | writeHeader => exact staging.elim
    | _ => exact ⟨fun _ h => (by cases h), fun _ h => (by cases h), fun _ _ h => by cases h⟩
  · refine ⟨fun _ h => (by cases h), fun _ h => (by cases h), fun status sent same => ?_⟩
    cases same
    exact ⟨rfl, rfl⟩
  · exact ⟨fun _ h => (by cases h), fun _ h => (by cases h), fun _ _ h => by cases h⟩

theorem served_still {faults : Fault → Bool} {m m' : Memory} {d : Deed}
    (served : Served faults m m' d) (still : ∀ sc, d.1 ≠ .store sc) : m' = m := by
  obtain ⟨c, r⟩ := d
  obtain same | ⟨sc, calls, -⟩ := served_mem served
  · exact same
  · exact absurd calls (still sc)

namespace Exchange

variable {x : Exchange}

theorem Completed.preliminary {p : Handler.Presented} {ic : Interceptor} {past : History}
    (completed : x.Completed p ic past) : Only Preliminary past := by
  obtain ⟨resolved, staged, new, r, resolving, rfl, only, only'⟩ := completed.history
  refine (only'.mono fun _ => .inl).append fun d member => ?_
  obtain rfl | member := List.mem_cons.mp member
  · exact .inr (.inr (.inr ⟨_, rfl⟩))
  · refine ((only.mono fun _ => .inl).append fun d member => ?_) d member
    obtain rfl | member := List.mem_cons.mp member
    · exact .inr (.inr (.inl ⟨_, rfl⟩))
    · exact .inr (.inl (resolving.only d member).sessional)

theorem Completed.processing {p : Handler.Presented} {ic : Interceptor} {past done : History}
    (completed : x.Completed p ic past) (only : Only Sessional done) :
    Only Preliminary (done ++ past) :=
  (only.mono fun _ sessional => .inr (.inl sessional)).append completed.preliminary

def Failed (past : History) : Prop :=
  tripped past = true ∨ ∃ e hdr, (⟨.returned (some e) hdr, ()⟩ : Deed) ∈ past

theorem not_failed {past : History} (calm : tripped past = false)
    (only : ∀ e hdr, (⟨.returned (some e) hdr, ()⟩ : Deed) ∉ past) : ¬ Failed past := by
  rintro (loud | ⟨e, hdr, member⟩)
  · exact Bool.false_ne_true (calm.symm.trans loud)
  · exact only e hdr member

theorem processed_not_failed {p : Handler.Presented} {ic : Interceptor}
    {past done new : History} {err : Option Err} (completed : x.Completed p ic past)
    (sessional : Only Sessional done)
    (calm : tripped (new ++ ⟨.processed err, ()⟩ :: (done ++ past)) =
      tripped (⟨.processed err, ()⟩ :: (done ++ past)))
    (only : ∀ e hdr, (⟨.returned (some e) hdr, ()⟩ : Deed) ∉ new) :
    ¬ Failed (new ++ ⟨.processed err, ()⟩ :: (done ++ past)) := by
  refine not_failed (calm.trans ?_) fun e hdr member => ?_
  · have silent : tripped done = false := sessional.none Sessional.notTrip
    have before : tripped past = false := completed.calm
    rw [tripped, List.any_cons, List.any_append, ← tripped, ← tripped, silent, before]
    rfl
  · obtain member | member := List.mem_append.mp member
    · exact only e hdr member
    · obtain same | member := List.mem_cons.mp member
      · cases same
      · exact not_preliminary_returned (completed.processing sessional _ member)

theorem Ends.of_failed {ended : Ended} {w : Writer} {past : History} (ends : x.Ends ended w past)
    (ordinary : shaken past = false) (failed : Failed past) :
    (w.header = clearHeaders x.outer ∨ w.header = x.outer) ∧
      ∃ p resolved r since, x.Resolving p resolved ∧ past = since ++ ⟨.next r, ()⟩ :: resolved ∧
        Only (Declining (clearHeaders x.outer)) since := by
  cases ends with
  | unresolved only =>
      exact absurd failed (not_failed ((only.mono fun _ => Resolves.sessional).none
        Sessional.notTrip) fun e hdr member => only _ member)
  | denied resolved denial =>
      refine absurd failed (not_failed ((resolved.only.mono fun _ => Resolves.sessional).none
        Sessional.notTrip) fun e hdr member => ?_)
      obtain same | member := List.mem_cons.mp member
      · cases same
      · exact resolved.only _ member
  | taken took => exact absurd (ordinary.symm.trans took.isShaken) Bool.false_ne_true
  | panicked resolved only =>
      exact ⟨.inr rfl, _, _, _, _, resolved, rfl, only.mono fun _ staging => .inl (.inl staging)⟩
  | declined resolved declines =>
      exact ⟨.inl declines.header, _, _, _, _, resolved, rfl, declines.only⟩
  | rejected completed tidied worked refused rejects =>
      refine absurd failed (processed_not_failed completed worked.only rejects.calm
        fun e hdr member => ?_)
      obtain staging | same := rejects.only _ member
      · exact staging
      · cases same
  | sent completed tidied worked accepted delivers =>
      refine absurd failed (processed_not_failed completed worked.only delivers.calm
        fun e hdr member => ?_)
      obtain ⟨info, -, dst, same⟩ | sending := delivers.only _ member
      · cases same
      · exact sending

end Exchange

theorem failed_response_leaves_no_trace {visit : Nat → Visit}
    {c : Machine (Option (Ended × Writer))} (run : (traffic visit).Reaches quietStart c) {t : Nat}
    {x : Exchange} {ended : Ended} {w : Writer} (asked : visit t = .request x)
    (done : c.thread t = some (.ret (some (ended, w))))
    (ordinary : shaken (own t c.state) = false) (failed : Exchange.Failed (own t c.state)) :
    (w.header = clearHeaders x.outer ∨ w.header = x.outer) ∧
      ∃ later call earlier r p, c.state.log = later ++ call :: earlier ∧ call.tid = t ∧
        call.deed = ⟨.next r, ()⟩ ∧
        Prog.Run History.step (x.handler.resolvePresented x.stripped) [] (.ok p)
          (ownDeeds t earlier) ∧
        ∀ e ∈ later, e.tid = t → e.after = e.before ∧ (∀ sc, e.call ≠ .store sc) ∧
          (∀ body, e.call ≠ .write body) ∧ ∀ status hdr, e.call = .writeHeader status hdr →
            status = 502 ∧ hdr = clearHeaders x.outer := by
  obtain ⟨header, p, resolved, r, since, resolving, history, only⟩ :=
    (traffic_ends run asked done).of_failed ordinary failed
  obtain ⟨later, call, earlier, logged, tid, deed, rest, before⟩ := ownDeeds_split since history
  refine ⟨header, later, call, earlier, r, p, logged, tid, deed, before ▸ resolving.ran, ?_⟩
  intro e member own
  have declining : Declining (clearHeaders x.outer) e.call := by
    refine only e.deed ?_
    rw [← rest]
    exact List.mem_map_of_mem (List.mem_filter.mpr ⟨member, by simp [own]⟩)
  have served : Served anyFaults e.before e.after e.deed :=
    (traffic_good run).inv.inv.chained.served (by simp [logged, member])
  obtain ⟨noStore, noBody, only502⟩ := declining.silent
  exact ⟨served_still served noStore, noStore, noBody, only502⟩

def Deed.fails : Deed → Bool
  | ⟨.returned (some _) _, _⟩ => true
  | _ => false

theorem Exchange.failed_of_any {past : History} (found : past.any Deed.fails) : Failed past := by
  obtain ⟨⟨c, r⟩, member, fails⟩ := List.any_eq_true.mp found
  cases c with
  | returned err hdr =>
      cases err with
      | none => cases fails
      | some e => exact .inr ⟨e, hdr, member⟩
  | _ => cases fails

theorem failing_sample_leaves_no_trace : ∃ c ended w,
    (traffic (sampleVisits (.ret (some .downstream)))).Reaches quietStart c ∧
    c.thread 1 = some (.ret (some (ended, w))) ∧ Exchange.Failed (own 1 c.state) ∧
    (w.header = clearHeaders ∅ ∨ w.header = ∅) := by
  have played : (play anyFaults (fun _ _ => true)
      (traffic (sampleVisits (.ret (some .downstream)))).prog quietStart (returnMoves [{}])).any
        fun c => (answer c 1).isSome && (!shaken (own 1 c.state) && (own 1 c.state).any Deed.fails) := by
    decide +kernel
  obtain ⟨c, run, -, checked⟩ := reaches_of_played (fun _ => trivial) played
  simp only [Bool.and_eq_true, Bool.not_eq_true'] at checked
  obtain ⟨answered, ordinary, fails⟩ := checked
  obtain ⟨⟨ended, w⟩, found⟩ := Option.isSome_iff_exists.mp answered
  have failed := Exchange.failed_of_any fails
  exact ⟨c, ended, w, run, answer_eq found, failed,
    (failed_response_leaves_no_trace run rfl (answer_eq found) ordinary failed).1⟩

namespace Interceptor

variable {h : Handler} {hdr : Header}

theorem Clean.copy (clean : Clean h hdr) (dst : Header) : Clean h (copyHeaders dst hdr) where
  controls := by
    intro name managed
    rw [get_copyHeaders dst hdr (canonicalHeaderKey_idem name)]
    exact clean.controls name managed
  trailers := clean.trailers.copy dst

theorem clean_clearHeaders (h : Handler) (hdr : Header) : Clean h (clearHeaders hdr) where
  controls := fun name _ => get_clearHeaders hdr (canonicalHeaderKey_idem name)
  trailers := noTrailers_clearHeaders hdr

theorem clean_scrubManaged (plain : h.Plain) (hdr : Header) :
    Clean h (h.scrubManagedResponseHeader hdr) where
  controls := by
    intro name managed
    rw [Handler.scrubManagedResponseHeader, dropManaged_get, if_pos]
    exact List.mem_map_of_mem (List.mem_cons_of_mem _ managed)
  trailers := (strip_noTrailers hdr (setCookieName :: h.managedHeaders)).within
    (dropManaged_within plain _)

theorem SessionEffect.extra {asked had : Bool} {live : Option Live} {past : History}
    {result : Except Err Unit} {extra : Option GoString} {calls : List StoreCall} {line : GoString}
    (does : SessionEffect h asked had live past result extra calls) (added : extra = some line) :
    (∃ keyID, line = h.buildProxyCookie keyID) ∨ line = h.buildExpiredProxyCookie := by
  cases does with
  | failed birth alive => cases added
  | idle keep held => cases added
  | revoked revoke held | expired revoke held =>
      split_ifs at added
      cases added
      exact .inr rfl
  | applied keep opens applies =>
      obtain ⟨keyID, -, rfl⟩ := Option.map_eq_some_iff.mp added
      exact .inl ⟨keyID, rfl⟩

end Interceptor

/-- What a header block of an ordinary response may carry, given the history of the request. -/
structure Presentable (h : Handler) (past : History) (status : Int) (hdr : Header) : Prop where
  clean : Interceptor.Clean h hdr
  lines : ∀ line ∈ hdr.values setCookieName, Writer.informational status = false ∧
    (∀ e, (⟨.processed (some e), ()⟩ : Deed) ∉ past) ∧
    ((∃ err left, (⟨.returned err left, ()⟩ : Deed) ∈ past ∧
        line ∈ left.values setCookieName ∧ h.forwarded line) ∨
      (∃ keyID, line = h.buildProxyCookie keyID) ∨ line = h.buildExpiredProxyCookie)

namespace Exchange

def Denied (x : Exchange) (past : History) (status : Int) (hdr : Header) : Prop :=
  x.Denial status hdr ∧ ∀ r, (⟨.next r, ()⟩ : Deed) ∉ past

theorem presentable_of_clean {h : Handler} {past : History} {status : Int} {hdr : Header}
    (clean : Interceptor.Clean h hdr) (bare : hdr.values setCookieName = []) :
    Presentable h past status hdr where
  clean := clean
  lines := fun line found => by simp [bare] at found

theorem presentable_clear {h : Handler} {past : History} {status : Int} (hdr : Header) :
    Presentable h past status (clearHeaders hdr) :=
  presentable_of_clean (Interceptor.clean_clearHeaders h hdr) (values_clearHeaders hdr _)

theorem presentable_informing {h : Handler} (plain : h.Plain) {past : History} {status : Int}
    {infos : List StagedInformationalResponse} {hdr : Header}
    (informing : Handler.Informing h infos (.writeHeader status hdr)) :
    Presentable h past status hdr := by
  obtain ⟨info, -, dst, same⟩ := informing
  cases same
  refine presentable_of_clean ((Interceptor.clean_scrubManaged plain _).copy dst) ?_
  rw [values_copyHeaders]
  exact dropManaged_lines h _

theorem presentable_delivered {x : Exchange} (plain : x.handler.Plain) {p : Handler.Presented}
    {ic : Interceptor} {past done new : History} {result : Except Err Unit × Interceptor}
    {w : Writer} (completed : x.Completed p ic past)
    (tidied : Interceptor.Tidied x.handler ic past result (done ++ past))
    (only : Only Sessional done)
    (delivers : x.Delivered ic.informational (Interceptor.deliveredHeader x.handler result)
      (⟨.processed (Handler.failure result.1), ()⟩ :: (done ++ past)) w new)
    {status : Int} (final : Writer.informational status = false) (dst : Header) :
    Presentable x.handler (new ++ ⟨.processed (Handler.failure result.1), ()⟩ :: (done ++ past))
      status (copyHeaders dst (Interceptor.deliveredHeader x.handler result)) where
  clean := (tidied.clean plain).copy dst
  lines := by
    intro line found
    rw [values_copyHeaders] at found
    obtain ⟨result, ic'⟩ := result
    cases result with
    | error e =>
        rw [Interceptor.deliveredHeader_error] at found
        cases found
    | ok value =>
        obtain ⟨extra, calls, does, -, lines⟩ := tidied.does
        refine ⟨final, fun e member => ?_, ?_⟩
        · obtain new | earlier := List.mem_append.mp member
          · obtain ⟨info, -, dst, same⟩ | sending := delivers.only _ new
            · cases same
            · exact sending
          · obtain same | earlier := List.mem_cons.mp earlier
            · cases same
            · exact not_preliminary_processed (completed.processing only _ earlier)
        · obtain ⟨member, forwarded⟩ | added := (lines rfl).1 line found
          · obtain ⟨resolved, staged, before, r, -, rfl, -, -⟩ := completed.history
            exact .inl ⟨none, ic.responseHeader, by simp, member, forwarded⟩
          · exact .inr (does.extra added)

theorem Ends.presentable {x : Exchange} {ended : Ended} {w : Writer} {past : History}
    (ends : x.Ends ended w past) (ordinary : shaken past = false) (plain : x.handler.Plain)
    {status : Int} {hdr : Header} (sent : (⟨.writeHeader status hdr, ()⟩ : Deed) ∈ past) :
    Presentable x.handler past status hdr ∨ x.Denied past status hdr := by
  cases ends with
  | unresolved only => exact (only _ sent).elim
  | denied resolved denial =>
      obtain same | earlier := List.mem_cons.mp sent
      · cases same
        refine .inr ⟨denial, fun r called => ?_⟩
        obtain same | earlier := List.mem_cons.mp called
        · cases same
        · exact resolved.only _ earlier
      · exact (resolved.only _ earlier).elim
  | taken took => exact absurd (ordinary.symm.trans took.isShaken) Bool.false_ne_true
  | panicked resolved only =>
      obtain new | earlier := List.mem_append.mp sent
      · exact (only _ new).elim
      · obtain same | earlier := List.mem_cons.mp earlier
        · cases same
        · exact (resolved.only _ earlier).elim
  | declined resolved declines =>
      obtain new | earlier := List.mem_append.mp sent
      · obtain ⟨-, -, only502⟩ := (declines.only _ new).silent
        rw [(only502 _ _ rfl).2]
        exact .inl (presentable_clear x.outer)
      · obtain same | earlier := List.mem_cons.mp earlier
        · cases same
        · exact (resolved.only _ earlier).elim
  | rejected completed tidied worked refused rejects =>
      obtain new | earlier := List.mem_append.mp sent
      · obtain staging | same := rejects.only _ new
        · exact staging.elim
        · cases same
          exact .inl (presentable_clear x.outer)
      · obtain same | earlier := List.mem_cons.mp earlier
        · cases same
        · exact (not_preliminary_writeHeader (completed.processing worked.only _ earlier)).elim
  | sent completed tidied worked accepted delivers =>
      obtain new | earlier := List.mem_append.mp sent
      · obtain informing | ⟨final, dst, same⟩ := delivers.only _ new
        · exact .inl (presentable_informing plain informing)
        · subst same
          exact .inl (presentable_delivered plain completed tidied worked.only delivers final dst)
      · obtain same | earlier := List.mem_cons.mp earlier
        · cases same
        · exact (not_preliminary_writeHeader (completed.processing worked.only _ earlier)).elim

end Exchange

theorem committed_headers_are_presentable {visit : Nat → Visit}
    {c : Machine (Option (Ended × Writer))} (run : (traffic visit).Reaches quietStart c) {t : Nat}
    {x : Exchange} {ended : Ended} {w : Writer} (asked : visit t = .request x)
    (done : c.thread t = some (.ret (some (ended, w))))
    (ordinary : shaken (own t c.state) = false) (plain : x.handler.Plain)
    {status : Int} {hdr : Header}
    (sent : (⟨.writeHeader status hdr, ()⟩ : Deed) ∈ own t c.state) :
    Presentable x.handler (own t c.state) status hdr ∨ x.Denied (own t c.state) status hdr :=
  (traffic_ends run asked done).presentable ordinary plain sent

def Deed.sent : Deed → Option (Int × Header)
  | ⟨.writeHeader status hdr, _⟩ => some (status, hdr)
  | _ => none

theorem mem_of_sent {past : History} {status : Int} {hdr : Header}
    (found : (status, hdr) ∈ past.filterMap Deed.sent) :
    (⟨.writeHeader status hdr, ()⟩ : Deed) ∈ past := by
  obtain ⟨⟨c, r⟩, member, same⟩ := List.mem_filterMap.mp found
  cases c with
  | writeHeader =>
      cases same
      exact member
  | _ => cases same

theorem login_sample_is_presentable : ∃ c status hdr,
    (traffic (sampleVisits (.ret none))).Reaches quietStart c ∧
    (⟨.writeHeader status hdr, ()⟩ : Deed) ∈ own 0 c.state ∧
    hdr.values setCookieName ≠ [] ∧ Presentable sampleHandler (own 0 c.state) status hdr := by
  have played : (play anyFaults (fun _ _ => true) (traffic (sampleVisits (.ret none))).prog quietStart
      loginMoves).any fun c => (answer c 0).isSome && (!shaken (own 0 c.state) &&
        ((own 0 c.state).filterMap Deed.sent).any fun sent => sent.2.values setCookieName ≠ []) := by
    decide +kernel
  obtain ⟨c, run, -, checked⟩ := reaches_of_played (fun _ => trivial) played
  simp only [Bool.and_eq_true, Bool.not_eq_true', List.any_eq_true] at checked
  obtain ⟨answered, ordinary, ⟨status, hdr⟩, sent, cookies⟩ := checked
  obtain ⟨⟨ended, w⟩, found⟩ := Option.isSome_iff_exists.mp answered
  have plain : sampleHandler.Plain := by
    unfold Handler.Plain
    decide +kernel
  refine ⟨c, status, hdr, run, mem_of_sent sent, of_decide_eq_true cookies, ?_⟩
  obtain presentable | ⟨⟨-, value, same⟩, -⟩ := committed_headers_are_presentable run
    (x := sampleLogin) rfl (answer_eq found) ordinary plain (mem_of_sent sent)
  · exact presentable
  · refine absurd ?_ (of_decide_eq_true cookies)
    obtain rfl | rfl := same
    all_goals
      rw [Header.values, Header.get_set, if_neg (by decide +kernel)]
      rfl

def deniedExchange : Exchange where
  handler := { sampleHandler with identityHeader := lit "Location" }
  conn := ⟨false, false⟩
  outer := ∅
  request := { path := lit "/admin", header := Header.set ∅ (lit "Accept") (lit "text/html") }
  next := fun _ => .ret none

theorem denial_commits_managed_header : ∃ (cfg : HandlerConfig) (c : Machine (Option (Ended × Writer)))
    (ended : Ended) (w : Writer) (status : Int) (hdr : Header),
    cfg.validate = .ok () ∧ cfg.provision id (fun _ => none) = .ok deniedExchange.handler ∧
    (∀ name ∈ deniedExchange.handler.managedHeaders,
      canonicalHeaderKey name ∉ [trailerName, setCookieName]) ∧
    (traffic fun _ => .request deniedExchange).Reaches quietStart c ∧
    c.thread 0 = some (.ret (some (ended, w))) ∧ shaken (own 0 c.state) = false ∧
    (⟨.writeHeader status hdr, ()⟩ : Deed) ∈ own 0 c.state ∧
    hdr.values deniedExchange.handler.identityHeader ≠ [] := by
  have played : (play anyFaults (fun _ _ => true) (traffic fun _ => .request deniedExchange).prog
      quietStart [.start 0, .act 0 {}]).any fun c => (answer c 0).isSome &&
        (!shaken (own 0 c.state) && ((own 0 c.state).filterMap Deed.sent).any fun sent =>
          sent.2.values deniedExchange.handler.identityHeader ≠ []) := by
    decide +kernel
  obtain ⟨c, run, -, checked⟩ := reaches_of_played (fun _ => trivial) played
  simp only [Bool.and_eq_true, Bool.not_eq_true', List.any_eq_true] at checked
  obtain ⟨answered, ordinary, ⟨status, hdr⟩, sent, named⟩ := checked
  obtain ⟨⟨ended, w⟩, found⟩ := Option.isSome_iff_exists.mp answered
  refine ⟨{ sampleConfig with identityHeader := lit "Location" }, c, ended, w, status, hdr, rfl, rfl,
    by decide +kernel, run, answer_eq found, ordinary, mem_of_sent sent, of_decide_eq_true named⟩

end Gosestor
