import Gosestor.Proof.Handler.Serve

/-!
# Runs of traffic

What holds in every reachable state of concurrent requests and owner revocations: the invariant of
the store, that every call was made with care, and that a request which is over has ended in one
of the known ways.
-/

namespace Gosestor

open Gosestor.Go Gosestor.Lib Gosestor.Session

namespace Visit

def Careful : Visit → History → Call → Prop
  | .request x => x.Careful
  | .revokeOwner _ => fun past c => Proper past c ∧ c.applies = false

def Ends : Visit → Option (Ended × Writer) → History → Prop
  | .request x, some (ended, w), past => x.Ends ended w past
  | .request _, none, _ => False
  | .revokeOwner _, _, _ => True

theorem Careful.proper {v : Visit} {past : History} {c : Call} (careful : v.Careful past c) :
    Proper past c := by
  cases v with
  | request x => exact Exchange.Careful.proper careful
  | revokeOwner ownerID => exact careful.1

theorem revokeEach_still (ownerID : Int) (sids : List GoString) (firstErr : Option Err)
    {past : History} :
    Obeys (fun _ c => c.applies = false) (fun _ _ => True)
      (Manager.revokeEach ownerID sids firstErr) past := by
  induction sids generalizing firstErr past with
  | nil => trivial
  | cons sid sids ih =>
      refine obeys_act rfl fun deleted _ => ?_
      cases deleted with
      | error e => exact ih _
      | ok gone => exact ih _

theorem revokeOwner_still (ownerID : Int) {past : History} :
    Obeys (fun _ c => c.applies = false) (fun _ _ => True) (Manager.revokeOwner ownerID) past := by
  refine obeys_act rfl fun sids _ => ?_
  cases sids with
  | error e => trivial
  | ok sids => exact revokeEach_still ownerID sids none

theorem prog_obeys (v : Visit) : Obeys v.Careful v.Ends v.prog [] := by
  cases v with
  | request x => exact Prog.Wp.bind (x.prog_obeys.weaken fun result past ends => ends)
  | revokeOwner ownerID =>
      refine Prog.Wp.bind ((((revokeOwner_proper ownerID settled_nil).and
        (revokeOwner_still ownerID)).mono (fun _ _ h => ⟨h.1.2, h.2⟩) fun _ _ h => h).weaken
        fun _ _ _ => trivial)

end Visit

section Runs

variable {visit : Nat → Visit} {c : Machine (Option (Ended × Writer))}

structure Sound (visit : Nat → Visit) (w : World) : Prop where
  inv : Inv anyFaults w
  made : ∀ t, Made (visit t).Careful (own t w)

theorem Sound.step {t : Nat} {w w' : World} {call : Call} {r : call.Answer} (sound : Sound visit w)
    (careful : (visit t).Careful (own t w) call) (step : exec anyFaults t w call r w') :
    Sound visit w' where
  inv := sound.inv.step careful.proper step
  made := by
    intro u
    by_cases same : t = u
    · subst same
      rw [exec_own step]
      exact (sound.made t).cons careful r
    · rw [exec_own_other step same]
      exact sound.made u

theorem sound_initial : Sound visit {} := ⟨inv_initial, fun _ => made_nil _⟩

abbrev GoodTraffic (visit : Nat → Visit) : Machine (Option (Ended × Writer)) → Prop :=
  Good (traffic visit)
    (histories anyFaults {} (Sound visit) (fun sound => sound.inv.wf.timely))
    (fun t => (visit t).Careful) (fun t => (visit t).Ends)

theorem traffic_good (run : (traffic visit).Reaches quietStart c) : GoodTraffic visit c :=
  Good.reaches (fun _ => Visit.prog_obeys _) (fun _ _ => trivial)
    (fun sound _ careful step => sound.step careful step) (.initial sound_initial fun _ => rfl) run

theorem traffic_ends (run : (traffic visit).Reaches quietStart c) {t : Nat} {x : Exchange}
    {ended : Ended} {w : Writer} (asked : visit t = .request x)
    (done : c.thread t = some (.ret (some (ended, w)))) : x.Ends ended w (own t c.state) := by
  have ends : (visit t).Ends (some (ended, w)) (own t c.state) := (traffic_good run).running done
  rw [asked] at ends
  exact ends

/-- A request that is over has run by itself, with the answers of its own history. -/
theorem traffic_run (run : (traffic visit).Reaches quietStart c) {t : Nat} {x : Exchange}
    {result : Ended × Writer} (asked : visit t = .request x)
    (done : c.thread t = some (.ret (some result))) :
    Prog.Run History.step x.prog [] result (own t c.state) := by
  have good : Good (traffic visit)
      (histories anyFaults {} (Sound visit) (fun sound => sound.inv.wf.timely))
      (fun t => (visit t).Careful)
      (fun t result past => (visit t).Ends result past ∧
        Prog.Run History.step (visit t).prog [] result past) c :=
    Good.reaches (fun _ => (Visit.prog_obeys _).traced) (fun _ _ => trivial)
      (fun sound _ careful step => sound.step careful step) (.initial sound_initial fun _ => rfl) run
  obtain ⟨-, ran⟩ := good.running done
  rw [asked] at ran
  obtain ⟨result', past, ran, last⟩ := Prog.Run.split ran
  cases last
  exact ran

end Runs

def sampleConfig : HandlerConfig where
  redis := { address := lit "localhost:6379" }
  cookie := { name := lit "SID" }
  identityHeader := lit "X-Identity"
  authz := some
    { rules := [⟨lit "/admin", lit "staff"⟩]
      defaultLabel := Authz.anonymous
      authEndpoints := GoMap.set ∅ (lit "staff") (lit "/login") }
  onStoreError := failClosed

def sampleAuthz : Authz where
  rules := [⟨lit "/admin", lit "staff"⟩]
  defaultLabel := Authz.anonymous
  endpoints := GoMap.set ∅ (lit "staff") (lit "/login")
  redirectParam := lit "rd"

def sampleHandler : Handler where
  cookie := { name := lit "SID", path := lit "/" }
  identityHeader := lit "X-Identity"
  rotateHeaderName := defaultRotateHeader
  rotateEnabled := true
  revokeHeaderName := defaultRevokeHeader
  revokeEnabled := true
  labelsHeaderName := defaultLabelsHeader
  authz := some sampleAuthz
  onStoreError := failClosed
  filter := ⟨[], []⟩
  manager := sampleManager
  parseTime := fun _ => none

def callsNext : Deed → Option Request
  | ⟨.next r, _⟩ => some r
  | _ => none

theorem mem_of_callsNext {past : History} {r : Request}
    (found : past.findSome? callsNext = some r) : (⟨.next r, ()⟩ : Deed) ∈ past := by
  obtain ⟨⟨c, answer⟩, member, same⟩ := List.exists_of_findSome?_eq_some found
  cases c with
  | next r' =>
      cases same
      exact member
  | _ => cases same

def headerSetter (name value : GoString) (next : Down) : Down :=
  .call (.setHeader fun hdr => hdr.set name value) fun _ => next

def sampleLogin : Exchange where
  handler := sampleHandler
  conn := ⟨false, false⟩
  outer := ∅
  request := { path := lit "/login" }
  next := fun _ => headerSetter defaultLabelsHeader (lit "staff") (.ret none)

theorem required_admin : sampleAuthz.required (lit "/admin") = lit "staff" := by
  decide +kernel

def sampleReturn (next : Down) : Exchange where
  handler := sampleHandler
  conn := ⟨true, false⟩
  outer := ∅
  request :=
    { path := lit "/admin"
      header := Header.set ∅ (lit "Cookie") (lit "SID=" ++ sampleKey) }
  next := fun _ => next

theorem presented_return (next : Down) : (sampleReturn next).presented = some sampleKey := by
  have presented : (sampleReturn (.ret none)).presented = some sampleKey := by decide +kernel
  exact presented

def sampleVisits (next : Down) : Nat → Visit
  | 0 => .request sampleLogin
  | _ => .request (sampleReturn next)

def loginMoves : List Move := .start 0 ::
  [{}, {}, {}, { clock := 100 }, { random := some (List.replicate 32 0) },
    { random := some (List.replicate 32 1) }, {}, {}, { clock := 100 }, {}, {}, {}, {}, {}].map
    (.act 0)

def resolveChoices : List Choice := [{}, {}, { clock := 110 }, {}, {}, {}, {}]

def returnMoves (rest : List Choice) : List Move :=
  loginMoves ++ .start 1 :: (resolveChoices ++ rest).map (.act 1)

def answer (c : Machine (Option (Ended × Writer))) (t : Nat) : Option (Ended × Writer) :=
  match c.thread t with
  | some (.ret result) => result
  | _ => none

theorem answer_eq {c : Machine (Option (Ended × Writer))} {t : Nat} {result : Ended × Writer}
    (found : answer c t = some result) : c.thread t = some (.ret (some result)) := by
  unfold answer at found
  split at found
  · subst found
    assumption
  · cases found

end Gosestor
