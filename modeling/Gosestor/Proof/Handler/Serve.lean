import Gosestor.Handler.Traffic
import Gosestor.Proof.Handler.Outcome
import Gosestor.Proof.Session.Runs

/-!
# How an exchange ends

`Ends` lists the ways out of an exchange with the calls made on each, and `Careful` is the
discipline that holds at every call.
-/

namespace Gosestor

open Gosestor.Go Gosestor.Lib Gosestor.Session

def Deed.isCommit : Deed → Bool
  | ⟨.writeHeader _ _, _⟩ => true
  | _ => false

def committed (past : History) : Bool := past.any Deed.isCommit

def Call.applies : Call → Bool
  | .store (.applySessionControls _ _ _ _) => true
  | _ => false

theorem Only.none {P : Call → Prop} {past : History} (only : Only P past) {mark : Deed → Bool}
    (silent : ∀ c (r : c.Answer), P c → mark ⟨c, r⟩ = false) : past.any mark = false :=
  List.any_eq_false.mpr fun d member => by
    simp [silent d.1 d.2 (only d member)]

theorem Settled.append {past new : History} (settled : Settled past)
    (proper : Only (fun c => ∀ past, Proper past c) new) : Settled (new ++ past) := by
  induction new with
  | nil => exact settled
  | cons d new ih =>
      have tail := ih fun d member => proper d (List.mem_cons_of_mem _ member)
      exact tail.cons (proper d List.mem_cons_self _) d.2

theorem Staging.proper {c : Call} (staging : Staging c) (past : History) : Proper past c := by
  cases c with
  | store => exact staging.elim
  | _ => trivial

theorem Staging.notCommit (c : Call) (r : c.Answer) (staging : Staging c) :
    Deed.isCommit ⟨c, r⟩ = false := by
  cases c with
  | writeHeader => exact staging.elim
  | _ => rfl

theorem Sessional.notCommit (c : Call) (r : c.Answer) (sessional : Sessional c) :
    Deed.isCommit ⟨c, r⟩ = false := by
  cases c with
  | writeHeader => exact sessional.elim
  | _ => rfl

theorem Session.Resolves.relabels {c : Call} (resolves : Resolves c) (past : History) :
    Relabels past c := by
  cases c with
  | store sc =>
      cases sc with
      | applySessionControls => exact resolves.elim
      | _ => trivial
  | _ => trivial

theorem Session.Resolves.sessional {c : Call} (resolves : Resolves c) : Sessional c := by
  cases c with
  | store | now => trivial
  | _ => exact resolves.elim

theorem Sessional.notTrip (c : Call) (r : c.Answer) (sessional : Sessional c) :
    Deed.isTrip ⟨c, r⟩ = false := by
  cases c with
  | trip => exact sessional.elim
  | _ => rfl

namespace Exchange

variable (x : Exchange)

/-- The calls of an exchange up to the point where the session is known. -/
structure Resolving (p : Handler.Presented) (past : History) : Prop where
  only : Only Resolves past
  settled : Settled past
  presented : p.hadProxyCookie = x.presented.isSome
  live : ∀ l, p.live = some l → ∃ keyID, x.presented = some keyID ∧
    Resolved x.handler.manager keyID l [] past
  ran : Prog.Run History.step (x.handler.resolvePresented x.stripped) [] (.ok p) past

def Authorized (past : History) : Prop :=
  ∀ a, x.handler.authz = some a → a.required x.request.path ≠ Authz.anonymous →
    ∃ keyID l, x.presented = some keyID ∧ Resolved x.handler.manager keyID l [] past ∧
      a.required x.request.path ∈ l.labels

/-- The discipline of an exchange: ids are used properly, labels change only together with the key
or before the key has been sent, and the downstream handler is called for authorized requests. -/
structure Careful (past : History) (c : Call) : Prop where
  proper : Proper past c
  relabels : Relabels past c
  early : c.applies → committed past = false
  authorized : ∀ r, c = .next r → x.Authorized past

theorem careful_of_quiet (past : History) (c : Call) (quiet : Quiet c) : x.Careful past c := by
  cases c with
  | store | now | wallClock | randomRead | next => exact quiet.elim
  | _ => exact ⟨trivial, trivial, fun h => (by cases h), fun _ h => by cases h⟩

theorem careful_of_guarded {past : History} {c : Call} (guarded : Guarded past c)
    (early : committed past = false) : x.Careful past c := by
  refine ⟨guarded.1.2, guarded.2, fun _ => early, fun r same => ?_⟩
  subst same
  exact guarded.1.1.elim

variable {x}

theorem obeys_careful {α : Type} {post : α → History → Prop} {p : Act α} {past : History}
    (obeys : Obeys Guarded post p past) (early : committed past = false) :
    Obeys x.Careful post p past := by
  refine (obeys.frame (fun past => committed past = false) ?_ early).mono
    (fun _ _ h => x.careful_of_guarded h.1 h.2) fun _ _ h => h.1
  rintro past c r past' guarded ⟨-, rfl⟩ early
  cases c with
  | store | now | wallClock | randomRead => exact early
  | _ => exact guarded.1.1.elim

variable (x)

theorem resolvePresented_obeys :
    Obeys (fun past c => Orderly past c ∧ Resolves c)
      (fun result past => Only Resolves past ∧ ∀ p, result = .ok p → x.Resolving p past)
      (x.handler.resolvePresented x.stripped) [] := by
  have known : Obeys (fun past c => Orderly past c ∧ Resolves c)
      (fun result past => Settled past ∧ ∀ p, result = .ok p →
        p.hadProxyCookie = x.presented.isSome ∧ ∀ l, p.live = some l → ∃ keyID,
          x.presented = some keyID ∧ Resolved x.handler.manager keyID l [] past)
      (x.handler.resolvePresented x.stripped) [] := by
    unfold Handler.resolvePresented Exchange.presented
    cases x.handler.presentedKey x.stripped with
    | none =>
        refine ⟨settled_nil, fun p same => ?_⟩
        cases same
        exact ⟨rfl, fun l h => by cases h⟩
    | some keyID =>
        refine Prog.Wp.bind (((resolve_proper x.handler.manager keyID settled_nil).and
          (resolve_history x.handler.manager keyID [])).weaken fun result past spec => ?_)
        obtain ⟨settled, resolved⟩ := spec
        cases result with
        | ok live =>
            refine ⟨settled, fun p same => ?_⟩
            cases same
            refine ⟨rfl, fun l same => ⟨keyID, rfl, resolved l ?_⟩⟩
            rw [← same]
        | error e =>
            dsimp only
            split_ifs with closed
            · exact ⟨settled, fun p same => by cases same⟩
            · refine ⟨settled, fun p same => ?_⟩
              cases same
              exact ⟨rfl, fun l h => by cases h⟩
  refine (obeys_only (fun _ _ allowed => allowed.2) known.traced).weaken ?_
  rintro result past ⟨⟨⟨settled, spec⟩, ran⟩, new, grown, only⟩
  rw [List.append_nil] at grown
  subst grown
  refine ⟨only, fun p same => ?_⟩
  subst same
  exact ⟨only, settled, (spec p rfl).1, (spec p rfl).2, ran⟩

/-- The calls of `process`. -/
structure Worked (ic : Interceptor) (done : History) : Prop where
  only : Only Sessional done
  revoking : (ic.readRevoke x.handler).revokeRequested = true → Only Interceptor.Revoking done

/-- The downstream handler has returned without an error, and nothing has failed to be staged. -/
structure Completed (p : Handler.Presented) (ic : Interceptor) (past : History) : Prop where
  history : ∃ resolved staged new r, x.Resolving p resolved ∧
    past = new ++ ⟨.returned none ic.responseHeader, ()⟩ :: (staged ++ ⟨.next r, ()⟩ :: resolved) ∧
    Only Staging staged ∧ Only Staging new
  calm : tripped past = false
  live : ic.live = p.live
  hadProxyCookie : ic.hadProxyCookie = p.hadProxyCookie
  unasked : ic.revokeRequested = false
  early : ∀ info ∈ ic.informational, Writer.informational info.status

def Denial (status : Int) (hdr : Header) : Prop :=
  Writer.informational status = false ∧ ∃ value,
    hdr = x.outer.set (lit "Location") value ∨ hdr = x.outer.set (lit "X-Auth-Endpoint") value

/-- A processed response with the header `hdr` has been sent by the calls `new`. -/
structure Delivered (infos : List StagedInformationalResponse) (hdr : Header) (past : History)
    (w : Writer) (new : History) : Prop where
  only : Only (fun c => Handler.Informing x.handler infos c ∨ Handler.Sending hdr c) new
  calm : tripped (new ++ past) = tripped past
  header : ∃ dst status, w.header = copyHeaders dst hdr ∧ Writer.informational status = false ∧
    (⟨.writeHeader status (copyHeaders dst hdr), ()⟩ : Deed) ∈ new

/-- The downstream handler took the connection over. -/
structure Taken (w : Writer) (past : History) : Prop where
  history : ∃ p resolved new r, x.Resolving p resolved ∧ past = new ++ ⟨.next r, ()⟩ :: resolved ∧
    Only Quiet new
  isShaken : shaken past
  unforged : Unforged w past

inductive Ends : Ended → Writer → History → Prop
  | unresolved {e : Err} {past : History} (only : Only Resolves past) :
      Ends (.returned (some e)) { header := x.outer } past
  | denied {p : Handler.Presented} {past : History} {status : Int} {hdr : Header}
      (resolved : x.Resolving p past) (denial : x.Denial status hdr) :
      Ends (.returned none) { header := hdr, wrote := true } (⟨.writeHeader status hdr, ()⟩ :: past)
  | taken {ended : Ended} {w : Writer} {past : History} (took : x.Taken w past) : Ends ended w past
  | panicked {p : Handler.Presented} {past new : History} {r : Request} {cause : Panic}
      (resolved : x.Resolving p past) (only : Only Staging new) :
      Ends (.panicked cause) { header := x.outer } (new ++ ⟨.next r, ()⟩ :: past)
  | declined {p : Handler.Presented} {past new : History} {r : Request} {err : Option Err}
      {w : Writer} (resolved : x.Resolving p past) (declines : Declined x.outer err w new) :
      Ends (.returned err) w (new ++ ⟨.next r, ()⟩ :: past)
  | rejected {p : Handler.Presented} {ic : Interceptor} {past done new : History}
      {result : Except Err Unit × Interceptor} {w : Writer} (completed : x.Completed p ic past)
      (tidied : Interceptor.Tidied x.handler ic past result (done ++ past))
      (worked : x.Worked ic done) (refused : Handler.Refused x.handler result)
      (rejects : Rejected x.outer (⟨.processed (Handler.failure result.1), ()⟩ :: (done ++ past)) w
        new) :
      Ends (.returned none) w
        (new ++ ⟨.processed (Handler.failure result.1), ()⟩ :: (done ++ past))
  | sent {p : Handler.Presented} {ic : Interceptor} {past done new : History}
      {result : Except Err Unit × Interceptor} {err : Option Err} {w : Writer}
      (completed : x.Completed p ic past)
      (tidied : Interceptor.Tidied x.handler ic past result (done ++ past))
      (worked : x.Worked ic done) (accepted : ¬ Handler.Refused x.handler result)
      (delivers : x.Delivered ic.informational (Interceptor.deliveredHeader x.handler result)
        (⟨.processed (Handler.failure result.1), ()⟩ :: (done ++ past)) w new) :
      Ends (.returned err) w
        (new ++ ⟨.processed (Handler.failure result.1), ()⟩ :: (done ++ past))

def Pending (result : Ended × Writer) (past : History) : Prop :=
  (x.Ends result.1 result.2 past ∧ (result.1 = .returned none → result.2.wrote = true)) ∨
  x.Taken result.2 past ∨
  (result.1 = .returned none ∧ result.2.Fresh ∧
    x.Ends (.returned none) { result.2 with wrote := true }
      (⟨.writeHeader 200 result.2.header, ()⟩ :: past))

variable {x} in
theorem labelled_of_lacking {a : Authz} {r : Request} {live : Option Live}
    (lacks : Handler.lacking a r live = none) (guarded : a.required r.path ≠ Authz.anonymous) :
    ∃ l, live = some l ∧ a.required r.path ∈ l.labels := by
  simp only [Handler.lacking, ite_eq_right_iff, reduceCtorEq, imp_false, not_and, guarded,
    ne_eq, not_false_eq_true, true_implies] at lacks
  cases live with
  | none => simp at lacks
  | some l =>
      refine ⟨l, rfl, ?_⟩
      simpa [Live.hasLabel] using lacks

theorem denyAuthz_obeys (a : Authz) (required : GoString) {past : History} :
    Obeys x.Careful
      (fun w past' => ∃ status hdr, w = { header := hdr, wrote := true } ∧
        past' = ⟨.writeHeader status hdr, ()⟩ :: past ∧ x.Denial status hdr)
      (Handler.denyAuthz a { header := x.outer } x.stripped required) past := by
  have sends : ∀ status hdr, x.Denial status hdr → Obeys x.Careful
      (fun w past' => ∃ status hdr, w = { header := hdr, wrote := true } ∧
        past' = ⟨.writeHeader status hdr, ()⟩ :: past ∧ x.Denial status hdr)
      (Writer.writeHeader { header := hdr } status) past := by
    intro status hdr denial
    apply Writer.writeHeader_fresh
    · exact ⟨rfl, rfl⟩
    · exact x.careful_of_quiet _ _ trivial
    · refine ⟨status, hdr, ?_, rfl, denial⟩
      rw [denial.1]
      rfl
  unfold Handler.denyAuthz
  dsimp only
  by_cases html : contains (x.stripped.header.get (lit "Accept")) (lit "text/html") = true
  · rw [if_pos html]
    exact sends 302 _ ⟨by decide, _, .inl rfl⟩
  · rw [if_neg html]
    exact sends 401 _ ⟨by decide, _, .inr rfl⟩

theorem delivered_of_sent {infos : List StagedInformationalResponse} {hdr : Header}
    {past new : History} {err : Option Err} {w : Writer}
    (sent : Handler.Sent x.handler infos hdr past err w new) :
    (w.wrote = true ∧ x.Delivered infos hdr past w new) ∨
      (w.Fresh ∧ err = none ∧ x.Delivered infos hdr past { w with wrote := true }
        (⟨.writeHeader 200 w.header, ()⟩ :: new)) := by
  obtain ⟨dst, header, ⟨wrote, status, final, member⟩ | ⟨fresh, same⟩⟩ := sent.header
  · exact .inl ⟨wrote, sent.only, sent.calm, dst, status, header, final, member⟩
  · refine .inr ⟨fresh, same, fun d member => ?_, sent.calm, dst, 200, header, by decide, ?_⟩
    · obtain rfl | earlier := List.mem_cons.mp member
      · exact .inr ⟨by decide, dst, header⟩
      · exact sent.only d earlier
    · rw [header]
      exact List.mem_cons_self

theorem process_worked (ic : Interceptor) {past : History} (settled : Settled past)
    (held : Interceptor.Held past ic.live) :
    Obeys Guarded
      (fun result past' => Interceptor.Tidied x.handler ic past result past' ∧
        ∃ done, past' = done ++ past ∧ x.Worked ic done)
      (ic.process x.handler) past := by
  have obeys := Interceptor.process_obeys (h := x.handler) ic settled held
  cases asked : (ic.readRevoke x.handler).revokeRequested with
  | false =>
      refine (obeys_only (fun _ _ guarded => guarded.1.1) obeys).weaken ?_
      rintro result past' ⟨tidied, done, rfl, only⟩
      refine ⟨tidied, done, rfl, only, fun revoke => ?_⟩
      cases asked.symm.trans revoke
  | true =>
      refine (obeys_only (P := fun c => Sessional c ∧ Interceptor.Revoking c)
        (fun _ _ allowed => ⟨allowed.1.1.1, allowed.2⟩)
        (obeys.and (Interceptor.process_revoking ic asked))).mono (fun _ _ h => h.1) ?_
      rintro result past' ⟨⟨tidied, -⟩, done, rfl, only⟩
      exact ⟨tidied, done, rfl, only.mono fun _ => And.left, fun _ => only.mono fun _ => And.right⟩

theorem forward_obeys {p : Handler.Presented} {past : History} (resolved : x.Resolving p past)
    (authorized : x.Authorized past) :
    Obeys x.Careful x.Pending
      (x.handler.forward x.conn { header := x.outer } x.stripped p x.next) past := by
  have sessional : Only Sessional past := resolved.only.mono fun _ => Resolves.sessional
  have silent : tripped past = false := sessional.none Sessional.notTrip
  have untried : takeovers past = [] := sessional.untaken id
  unfold Handler.forward
  dsimp only
  generalize x.handler.prepareUpstreamCookies x.stripped ((p.live.map Live.cookies).getD ∅) = r
  refine Handler.intercept_rule x.careful_of_quiet _ _ _ _ ?_ ⟨rfl, rfl⟩ rfl rfl rfl rfl
    (fun _ h => by cases h) silent (fun status hdr member => (resolved.only _ member).elim) untried
    ?_ ?_ ?_ ?_
  · exact ⟨trivial, trivial, fun h => (by cases h), fun _ _ => authorized⟩
  · exact fun ended w new only isShaken unforged =>
      .inr (.inl ⟨⟨p, past, new, r, resolved, rfl, only⟩, isShaken, unforged⟩)
  · exact fun cause new only => .inl ⟨.panicked resolved only, fun h => by cases h⟩
  · intro err w new declines
    refine .inl ⟨.declined resolved declines, fun same => ?_⟩
    cases same
    exact (declines.answered rfl).1
  · intro ic staged new kept only only' calm
    have settled : Settled (new ++ ⟨.returned none ic.responseHeader, ()⟩ ::
        (staged ++ ⟨.next r, ()⟩ :: past)) := by
      have asked := (resolved.settled.cons (c := .next r) trivial ()).append
        (only.mono fun c staging past => staging.proper past)
      exact (asked.cons (c := .returned none ic.responseHeader) trivial ()).append
        (only'.mono fun c staging past => staging.proper past)
    have early : committed (new ++ ⟨.returned none ic.responseHeader, ()⟩ ::
        (staged ++ ⟨.next r, ()⟩ :: past)) = false := by
      simp only [committed, List.any_append, List.any_cons, only.none Staging.notCommit,
        only'.none Staging.notCommit, sessional.none Sessional.notCommit]
      rfl
    have held : Interceptor.Held (new ++ ⟨.returned none ic.responseHeader, ()⟩ ::
        (staged ++ ⟨.next r, ()⟩ :: past)) ic.live := by
      intro l alive pending
      obtain ⟨keyID, -, row, now, ttl, -, -, -, -, settledKey, -⟩ :=
        resolved.live l (kept.live.symm.trans alive)
      rw [settledKey] at pending
      cases pending
    have completed : x.Completed p { ic with processed := true } _ :=
      ⟨⟨past, staged, new, _, resolved, rfl, only, only'⟩, calm, kept.live, kept.hadProxyCookie,
        kept.revokeRequested, kept.infos fun _ h => by cases h⟩
    refine (obeys_careful (x.process_worked { ic with processed := true } settled held)
      early).weaken ?_
    rintro result past' ⟨tidied, done, rfl, worked⟩
    obtain ⟨responseHeader, live, same⟩ := tidied.frame
    refine ⟨⟨responseHeader, live, _, same⟩, fun refused w new' rejects => ?_,
      fun accepted err w new' sent => ?_⟩
    · exact .inl ⟨.rejected completed tidied worked refused rejects, fun _ => rejects.wrote⟩
    · obtain ⟨wrote, delivers⟩ | ⟨fresh, rfl, delivers⟩ := x.delivered_of_sent sent
      · exact .inl ⟨.sent completed tidied worked accepted delivers, fun _ => wrote⟩
      · exact .inr (.inr ⟨rfl, fresh, .sent completed tidied worked accepted delivers⟩)

theorem serveHTTP_obeys :
    Obeys x.Careful x.Pending
      (x.handler.serveHTTP x.conn { header := x.outer } x.request x.next) [] := by
  refine Prog.Wp.bind ((obeys_careful (x.resolvePresented_obeys.mono
    (fun _ _ allowed => ⟨allowed.1, allowed.2.relabels _⟩) fun _ _ h => h) rfl).weaken
    fun result past spec => ?_)
  obtain ⟨only, resolving⟩ := spec
  cases result with
  | error e => exact .inl ⟨.unresolved only, fun h => by cases h⟩
  | ok p =>
      have resolved := resolving p rfl
      dsimp only
      cases policy : x.handler.authz with
      | none => exact x.forward_obeys resolved fun a same => by cases policy.symm.trans same
      | some a =>
          dsimp only
          cases lacks : Handler.lacking a (x.handler.stripSpoofed x.request) p.live with
          | none =>
              refine x.forward_obeys resolved fun a' same guarded => ?_
              cases policy.symm.trans same
              obtain ⟨l, alive, label⟩ := labelled_of_lacking lacks guarded
              obtain ⟨keyID, presented, history⟩ := resolved.live l alive
              exact ⟨keyID, l, presented, history, label⟩
          | some required =>
              refine Prog.Wp.bind ((x.denyAuthz_obeys a required).weaken ?_)
              rintro w past' ⟨status, hdr, rfl, rfl, denial⟩
              exact .inl ⟨.denied resolved denial, fun _ => rfl⟩

theorem taken_writeHeader {w : Writer} {past : History} (took : x.Taken w past) (status : Int) :
    Obeys x.Careful x.Taken (w.writeHeader status) past := by
  refine ((obeys_new (P := Quiet) (obeys_shaken ((Writer.writeHeader_unforged took.unforged
    status).mono (fun _ _ client => Wire.quiet (.inr client)) fun _ _ h => h) took.isShaken)).mono
    x.careful_of_quiet fun _ _ h => h).weaken ?_
  rintro w' past' ⟨⟨unforged, isShaken⟩, new, rfl, only⟩
  obtain ⟨p, resolved, new', r, resolving, rfl, only'⟩ := took.history
  exact ⟨⟨p, resolved, new ++ new', r, resolving, (List.append_assoc _ _ _).symm,
    only.append only'⟩, isShaken, unforged⟩

theorem prog_obeys :
    Obeys x.Careful (fun result past => x.Ends result.1 result.2 past) x.prog [] := by
  refine Prog.Wp.bind (x.serveHTTP_obeys.weaken fun result past pending => ?_)
  obtain ⟨ended, w⟩ := result
  obtain ⟨ends, sent⟩ | took | ⟨same, fresh, ends⟩ := pending
  · cases ended with
    | panicked cause => exact ends
    | returned err =>
        cases err with
        | some e => exact ends
        | none =>
            dsimp only
            rw [Writer.writeHeader_wrote (sent rfl)]
            exact ends
  · cases ended with
    | panicked cause => exact .taken took
    | returned err =>
        cases err with
        | some e => exact .taken took
        | none =>
            refine Prog.Wp.bind ((x.taken_writeHeader took 200).weaken fun w' past' took' => ?_)
            exact .taken took'
  · cases same
    refine Prog.Wp.bind ?_
    apply Writer.writeHeader_fresh
    · exact fresh
    · exact x.careful_of_quiet _ _ trivial
    · exact ends

end Exchange

end Gosestor
