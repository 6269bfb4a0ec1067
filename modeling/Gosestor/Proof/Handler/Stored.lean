import Gosestor.Proof.Go.Http
import Gosestor.Proof.Handler.Traffic
import Gosestor.Proof.Session.Supplies

/-!
# What responses store

Whatever backends answer, the cookies in the store are pairs that net/http accepts, and the labels
are canonical and without `anonymous`. The request that goes upstream carries the cookies that
`Resolve` read.
-/

namespace Gosestor

open Gosestor.Go Gosestor.Lib Gosestor.Session

def Granted (stored : GoString) : Prop :=
  ∃ labels, (∀ x ∈ labels, IsLabel x ∧ x ≠ Authz.anonymous) ∧ stored = normalizeLabels labels

theorem granted_nil : Granted [] := ⟨[], List.forall_mem_nil _, rfl⟩

def Storable (name value : GoString) : Prop := IsPair (name, value)

abbrev Furnishes : Call → Prop := Supplying Storable Granted

theorem Quiet.supplying {P : GoString → GoString → Prop} {L : GoString → Prop} {c : Call}
    (quiet : Quiet c) : Supplying P L c := by
  cases c with
  | store => exact quiet.elim
  | _ => trivial

namespace Interceptor

variable {h : Handler} {past : History}

theorem readLabels_plain {raw given : List GoString} (read : readLabels raw = some given) :
    ∀ x ∈ given, IsLabel x ∧ x ≠ Authz.anonymous := by
  unfold readLabels at read
  split_ifs at read
  cases read
  intro x member
  obtain ⟨listed, other⟩ := List.mem_filter.mp member
  exact ⟨isLabel_of_mem_splitLabels listed, by simpa using other⟩

theorem ensureLive_supplier (ic : Interceptor) :
    Supplier Storable Granted (ic.ensureLive h) past := by
  unfold ensureLive
  split_ifs with alive
  · trivial
  · refine (begin_supplier h.manager granted_nil).bind fun result past => ?_
    cases result <;> trivial

theorem sortCookies_furnishes (lines : List GoString) {mutations : List CookieMutation}
    (valid : ∀ c ∈ mutations, c.delete = false → Storable c.name c.value) (ic : Interceptor) :
    Obeys (fun _ => Furnishes)
      (fun result _ => ∀ mutations, result.1 = .ok mutations →
        ∀ c ∈ mutations, c.delete = false → Storable c.name c.value)
      (sortCookies h lines mutations ic) past := by
  induction lines generalizing mutations ic past with
  | nil =>
      intro mutations' same
      cases same
      exact valid
  | cons line lines ih =>
      unfold sortCookies
      cases parsed : parseSetCookie h.parseTime line with
      | none => exact ih valid ic
      | some cookie =>
          dsimp only
          cases h.filter.decide cookie.name with
          | forward => exact ih valid _
          | drop => exact ih valid ic
          | store =>
              refine obeys_act trivial fun now _ => ?_
              split_ifs with deletes alive
              · apply ih
                simp only [List.forall_mem_append, List.forall_mem_singleton]
                exact ⟨valid, fun kept => by cases kept⟩
              · exact ih valid ic
              · refine Prog.Wp.bind ((ensureLive_supplier ic).weaken fun begun past' _ => ?_)
                obtain ⟨begun, ic'⟩ := begun
                cases begun with
                | error e => exact fun mutations same => by cases same
                | ok done =>
                    apply ih
                    simp only [List.forall_mem_append, List.forall_mem_singleton]
                    exact ⟨valid, fun _ => parseSetCookie_isPair parsed⟩

theorem commitControls_supplier (ic : Interceptor) {c : Controls}
    {mutations : List CookieMutation}
    (granted : ∀ given, c.labels = some given → Granted (normalizeLabels given))
    (valid : ∀ c ∈ mutations, c.delete = false → Storable c.name c.value) :
    Supplier Storable Granted (ic.commitControls h c mutations) past := by
  unfold commitControls
  cases ic.live with
  | none => trivial
  | some l =>
      refine (applyControls_supplier h.manager l granted valid c.owner c.rotate true).bind
        fun result past => ?_
      obtain ⟨result, l'⟩ := result
      cases result with
      | error e => trivial
      | ok done =>
          dsimp only
          cases l'.newProxyCookie <;> trivial

theorem processLocked_supplier (ic : Interceptor) :
    Supplier Storable Granted (ic.processLocked h) past := by
  have granted : ∀ given,
      (readControls h (ic.responseHeader.del setCookieName)).1.labels = some given →
      Granted (normalizeLabels given) := fun given read => ⟨given, readLabels_plain read, rfl⟩
  unfold processLocked
  dsimp only
  split_ifs with revoke
  · unfold revokeLocked
    cases ic.live with
    | none => trivial
    | some l =>
        refine revoke_supplier.bind fun deleted past => ?_
        obtain ⟨deleted, l'⟩ := deleted
        cases deleted <;> trivial
  · refine Prog.Wp.bind ((sortCookies_furnishes _ (List.forall_mem_nil _) _).weaken
      fun result past₁ valid => ?_)
    obtain ⟨result, ic₁⟩ := result
    cases result with
    | error e => trivial
    | ok mutations =>
        dsimp only
        split_ifs with wants
        · refine (ensureLive_supplier ic₁).bind fun begun past₂ => ?_
          obtain ⟨begun, ic₂⟩ := begun
          cases begun with
          | error e => trivial
          | ok done => exact commitControls_supplier ic₂ granted (valid mutations rfl)
        · exact commitControls_supplier ic₁ granted (valid mutations rfl)

theorem process_supplier (ic : Interceptor) : Supplier Storable Granted (ic.process h) past := by
  unfold process
  dsimp only
  split
  · trivial
  · cases (ic.readRevoke h).live with
    | none => exact processLocked_supplier _
    | some l =>
        exact withLock_obeys (fun _ _ => supplies_nothing (by simp) rfl)
          (fun _ => supplies_nothing (by simp) rfl) (fun _ _ _ => trivial)
          (processLocked_supplier _) fun _ =>
            (processLocked_supplier _).weaken fun _ _ _ _ => trivial

end Interceptor

namespace Exchange

variable (x : Exchange)

def Sends (past : History) (r : Request) : Prop :=
  ∃ p, x.Resolving p past ∧
    r = x.handler.prepareUpstreamCookies x.stripped ((p.live.map Live.cookies).getD ∅)

structure PassesOn (past : History) (c : Call) : Prop where
  supplies : Furnishes c
  sends : ∀ r, c = .next r → x.Sends past r

theorem passesOn_of_quiet (past : History) (c : Call) (quiet : Quiet c) : x.PassesOn past c := by
  refine ⟨quiet.supplying, fun r same => ?_⟩
  subst same
  exact quiet.elim

theorem passesOn_of_sessional {past : History} {c : Call} (supplies : Furnishes c)
    (sessional : Sessional c) : x.PassesOn past c := by
  refine ⟨supplies, fun r same => ?_⟩
  subst same
  exact sessional.elim

theorem forward_passesOn {p : Handler.Presented} {past : History} (resolved : x.Resolving p past) :
    Obeys x.PassesOn (fun _ _ => True)
      (x.handler.forward x.conn { header := x.outer } x.stripped p x.next) past := by
  have sessional : Only Sessional past := resolved.only.mono fun _ => Resolves.sessional
  unfold Handler.forward
  apply Handler.intercept_rule x.passesOn_of_quiet
  · refine ⟨trivial, fun r same => ?_⟩
    cases same
    exact ⟨p, resolved, rfl⟩
  · exact ⟨rfl, rfl⟩
  · rfl
  · rfl
  · rfl
  · rfl
  · exact List.forall_mem_nil _
  · exact sessional.none Sessional.notTrip
  · exact fun status hdr member => (resolved.only _ member).elim
  · exact sessional.untaken id
  · exact fun _ _ _ _ _ _ => trivial
  · exact fun _ _ _ => trivial
  · exact fun _ _ _ _ => trivial
  · intro ic staged new kept only only' calm
    have settled : Settled (new ++ ⟨.returned none ic.responseHeader, ()⟩ ::
        (staged ++ ⟨.next (x.handler.prepareUpstreamCookies x.stripped
          ((p.live.map Live.cookies).getD ∅)), ()⟩ :: past)) := by
      have asked := (resolved.settled.cons (c := .next (x.handler.prepareUpstreamCookies x.stripped
        ((p.live.map Live.cookies).getD ∅))) trivial ()).append
        (only.mono fun c staging past => staging.proper past)
      exact (asked.cons (c := .returned none ic.responseHeader) trivial ()).append
        (only'.mono fun c staging past => staging.proper past)
    have held : ∀ past, Interceptor.Held past ic.live := by
      intro past l alive pending
      obtain ⟨keyID, -, row, now, ttl, -, -, -, -, settledKey, -⟩ :=
        resolved.live l (kept.live.symm.trans alive)
      rw [settledKey] at pending
      cases pending
    refine (((x.process_worked { ic with processed := true } settled (held _)).and
      (Interceptor.process_supplier { ic with processed := true })).mono (fun _ _ allowed =>
        x.passesOn_of_sessional allowed.2 allowed.1.1.1) fun _ _ done => done).weaken ?_
    rintro result past' ⟨⟨tidied, -⟩, -⟩
    obtain ⟨responseHeader, live, same⟩ := tidied.frame
    exact ⟨⟨responseHeader, live, _, same⟩, fun _ _ _ _ => trivial, fun _ _ _ _ _ => trivial⟩

theorem prog_passesOn : Obeys x.PassesOn (fun _ _ => True) x.prog [] := by
  have ending : ∀ {past : History} (w : Writer) (status : Int),
      Obeys x.PassesOn (fun _ _ => True) (w.writeHeader status) past := fun w status =>
    ((w.writeHeader_client status).mono (fun past c client =>
      x.passesOn_of_quiet past c (Wire.quiet (.inr client))) fun _ _ _ => trivial)
  have served : Obeys x.PassesOn (fun _ _ => True)
      (x.handler.serveHTTP x.conn { header := x.outer } x.request x.next) [] := by
    refine Prog.Wp.bind ((x.resolvePresented_obeys.mono (fun _ _ allowed =>
      x.passesOn_of_sessional allowed.2.supplying allowed.1.1) fun _ _ done => done).weaken ?_)
    rintro result past ⟨-, resolving⟩
    cases result with
    | error e => trivial
    | ok p =>
        have resolved := resolving p rfl
        dsimp only
        cases x.handler.authz with
        | none => exact x.forward_passesOn resolved
        | some a =>
            dsimp only
            cases Handler.lacking a (x.handler.stripSpoofed x.request) p.live with
            | none => exact x.forward_passesOn resolved
            | some required =>
                apply Prog.Wp.bind
                unfold Handler.denyAuthz
                dsimp only
                split_ifs
                all_goals exact ending _ _
  refine Prog.Wp.bind (served.weaken fun result past _ => ?_)
  obtain ⟨ended, w⟩ := result
  cases ended with
  | panicked p => trivial
  | returned err =>
      cases err with
      | some e => trivial
      | none => exact Prog.Wp.bind (ending w 200)

end Exchange

def Visit.PassesOn : Visit → History → Call → Prop
  | .request x => x.PassesOn
  | .revokeOwner _ => fun _ => Furnishes

theorem Visit.PassesOn.supplying {v : Visit} {past : History} {c : Call} (passesOn : v.PassesOn past c) :
    Furnishes c := by
  cases v with
  | request x => exact Exchange.PassesOn.supplies passesOn
  | revokeOwner ownerID => exact passesOn

theorem Visit.prog_passesOn (v : Visit) : Obeys v.PassesOn (fun _ _ => True) v.prog [] := by
  cases v with
  | request x => exact Prog.Wp.bind (x.prog_passesOn.weaken fun _ _ _ => trivial)
  | revokeOwner ownerID => exact (revokeOwner_supplier ownerID).bind fun _ _ => trivial

section Runs

variable {visit : Nat → Visit} {c : Machine (Option (Ended × Writer))}

structure Furnished (visit : Nat → Visit) (w : World) : Prop where
  sound : Sound visit w
  stocked : w.mem.Stocked Storable Granted
  made : ∀ t, Made (visit t).PassesOn (own t w)

theorem Furnished.step {t : Nat} {w w' : World} {call : Call} {r : call.Answer}
    (furnished : Furnished visit w) (careful : (visit t).Careful (own t w) call)
    (passesOn : (visit t).PassesOn (own t w) call) (step : exec anyFaults t w call r w') :
    Furnished visit w' where
  sound := furnished.sound.step careful step
  stocked := stocked_step furnished.stocked passesOn.supplying step
  made := by
    intro u
    by_cases same : t = u
    · subst same
      rw [exec_own step]
      exact (furnished.made t).cons passesOn r
    · rw [exec_own_other step same]
      exact furnished.made u

theorem traffic_furnished (run : (traffic visit).Reaches quietStart c) :
    Furnished visit c.state := by
  have good : Good (traffic visit)
      (histories anyFaults {} (Furnished visit) (fun furnished => furnished.sound.inv.wf.timely))
      (fun t past c => (visit t).Careful past c ∧ (visit t).PassesOn past c)
      (fun t a past => (visit t).Ends a past ∧ True) c := by
    refine Good.reaches (fun _ => ?_) (fun _ _ => trivial) (fun furnished _ allowed step =>
      furnished.step allowed.1 allowed.2 step) (.initial ?_ fun _ => rfl) run
    · exact (Visit.prog_obeys _).and (Visit.prog_passesOn _)
    · exact ⟨sound_initial, Store.Memory.newMemory_stocked, fun _ => made_nil _⟩
  exact good.inv

end Runs

end Gosestor
