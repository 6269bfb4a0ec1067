import Gosestor.Proof.Handler.Traffic
import Gosestor.Proof.Session.ResolveWindow

/-!
# Complete mediation

`Resolve` reads the labels before `TouchSession` checks the key. In between, labels change only
together with the key, or under a key that no client has yet, so a key that still maps to the
session vouches for the labels that were read.
-/

namespace Gosestor

open Gosestor.Go Gosestor.Lib Gosestor.Session Gosestor.Store

/-- A response with the proxy cookie for `keyID` has been sent. -/
def Visit.Emitted (v : Visit) (keyID : GoString) (past : History) : Prop :=
  ∃ x, v = .request x ∧ ∃ status hdr, (⟨.writeHeader status hdr, ()⟩ : Deed) ∈ past ∧
    x.handler.buildProxyCookie keyID ∈ hdr.values setCookieName

/-- No client presents a key before the response that carries it has been sent. -/
def PresentedAfterEmission (visit : Nat → Visit) (log : List Event) : Prop :=
  ∀ later e earlier, log = later ++ e :: earlier → ∀ x keyID, visit e.tid = .request x →
    x.presented = some keyID → ∀ u, Issued (ownDeeds u log) keyID →
      (visit u).Emitted keyID (ownDeeds u earlier)

variable {visit : Nat → Visit}

theorem PresentedAfterEmission.tail (later : List Event) {log : List Event}
    (assumed : PresentedAfterEmission visit (later ++ log)) : PresentedAfterEmission visit log := by
  intro newer e earlier same x keyID asked presented u issued
  refine assumed (later ++ newer) e earlier ?_ x keyID asked presented u ?_
  · rw [same, List.append_assoc]
  · refine issued.mono fun d member => ?_
    rw [ownDeeds_append]
    exact List.mem_append_right _ member

def LabelsHold (visit : Nat → Visit) (w : World) : Prop :=
  ∀ t x keyID sessionID row newer older, visit t = .request x → x.presented = some keyID →
    own t w = newer ++ ⟨.store (.getSession sessionID), .ok row⟩ :: older →
    (⟨.store (.getKey keyID), .ok sessionID⟩ : Deed) ∈ older →
    w.mem.keys.get keyID = some sessionID →
    ∃ current, w.mem.sessions.get sessionID = some current ∧ current.labels = row.labels

theorem labelsHold_step {w w' : World} {u : Nat} {call : Call} {r : call.Answer}
    (sound : Sound visit w) (careful : (visit u).Careful (own u w) call)
    (step : exec anyFaults u w call r w') (assumed : PresentedAfterEmission visit w'.log)
    (hold : LabelsHold visit w) : LabelsHold visit w' := by
  intro t x keyID sessionID row newer older asked presented history resolved held
  have inv := sound.inv
  have served := exec_served step
  -- Either this very call reads the row, or it was read before.
  have split : (u = t ∧ newer = []) ∨
      ∃ newer, own t w = newer ++ ⟨.store (.getSession sessionID), .ok row⟩ :: older := by
    by_cases same : u = t
    · subst same
      rw [exec_own step] at history
      cases newer with
      | nil => exact .inl ⟨rfl, rfl⟩
      | cons d newer => exact .inr ⟨newer, (List.cons.inj history).2⟩
    · rw [exec_own_other step same] at history
      exact .inr ⟨newer, history⟩
  obtain ⟨rfl, rfl⟩ | ⟨newer, earlier⟩ := split
  · rw [exec_own step] at history
    obtain ⟨same, -⟩ := List.cons.inj history
    cases same
    have unchanged : w'.mem = w.mem := by
      obtain same | ⟨sc, same, done⟩ := served_mem served
      · exact same
      · cases same
        exact done
    rw [unchanged]
    exact ⟨row, served_getSession served, rfl⟩
  · have asking : (⟨.store (.getKey keyID), .ok sessionID⟩ : Deed) ∈ own t w := by
      rw [earlier]
      exact List.mem_append_right _ (List.mem_cons_of_mem _ resolved)
    obtain ⟨e, logged, tid, deed⟩ := mem_own.mp asking
    have seen : e.before.keys.get keyID = some sessionID := by
      have answered := inv.chained.served logged
      rw [deed] at answered
      exact served_getKey answered
    have reads := hold t x keyID sessionID row newer older asked presented earlier resolved
    obtain same | ⟨sc, rfl, done⟩ := served_mem served
    · rw [same] at held ⊢
      exact reads held
    · have live := (sound.step careful step).inv.wf.keyLive held
      rw [done] at held live ⊢
      have before : w.mem.keys.get keyID = some sessionID := by
        obtain earlier | ⟨named, -⟩ := Memory.perform_keys held
        · exact earlier
        · have used := inv.seenKey (k := keyID) logged (by simp [seen])
          exact absurd used (inv.unused (proper_newName careful.proper named))
      obtain ⟨current, found, labels⟩ := reads before
      obtain ⟨row', after⟩ := Option.ne_none_iff_exists'.mp live
      refine ⟨row', after, ?_⟩
      obtain kept | named | ⟨controls, ttl, ownerTTL, rfl, set, old, rotated⟩ :=
        Memory.perform_labels found after
      · exact kept.trans labels
      · have used := inv.sessionUsed (s := sessionID) (by simp [found])
        exact absurd used (inv.unused (proper_newName careful.proper named))
      · have same : controls.oldKeyID = keyID := inv.wf.keyUnique old before
        exfalso
        cases who : visit u with
        | revokeOwner ownerID =>
            rw [who] at careful
            cases careful.2
        | request y =>
            rw [who] at careful
            obtain rotate | issued := careful.relabels set
            · rw [same] at rotated
              rw [rotated rotate] at held
              cases held
            · rw [same] at issued
              obtain ⟨later, rest, parts⟩ := List.append_of_mem logged
              have log' := exec_log step
              rw [parts] at log'
              obtain ⟨y', -, status, hdr, sent, -⟩ := assumed (_ :: later) e rest log' x keyID
                (tid ▸ asked) presented u (issued.mono fun d member => own_mono step member)
              have silent : committed (own u w) = false := careful.early rfl
              have older : ownDeeds u rest ⊆ own u w := by
                unfold own
                rw [parts]
                exact ownDeeds_older u later e rest
              have loud : committed (own u w) = true :=
                List.any_eq_true.mpr ⟨⟨.writeHeader status hdr, ()⟩, older sent, rfl⟩
              cases silent.symm.trans loud

theorem labelsHold_reached {c : Machine (Option (Ended × Writer))}
    (run : (traffic visit).Reaches quietStart c)
    (assumed : PresentedAfterEmission visit c.state.log) : LabelsHold visit c.state := by
  induction run with
  | refl =>
      intro t x keyID sessionID row newer older asked presented history
      cases newer <;> cases history
  | @tail mid last run step ih =>
      have good := traffic_good run
      cases step with
      | start t idle isReady => exact ih assumed
      | act t running step =>
          have earlier : PresentedAfterEmission visit mid.state.log := by
            rw [exec_log step] at assumed
            exact assumed.tail [_]
          exact labelsHold_step good.inv (good.running running).1 step assumed (ih earlier)

theorem next_only_for_proven_label {c : Machine (Option (Ended × Writer))}
    (run : (traffic visit).Reaches quietStart c)
    (assumed : PresentedAfterEmission visit c.state.log) {t : Nat} {x : Exchange} {a : Authz}
    {r : Request} (asked : visit t = .request x) (policy : x.handler.authz = some a)
    (guarded : a.required x.request.path ≠ Authz.anonymous)
    (called : (⟨.next r, ()⟩ : Deed) ∈ own t c.state) :
    ∃ later call mid touch earlier keyID sessionID lastAccess legacy ttl row,
      c.state.log = later ++ call :: (mid ++ touch :: earlier) ∧
      call.tid = t ∧ call.deed = ⟨.next r, ()⟩ ∧ touch.tid = t ∧
      touch.deed = ⟨.store (.touchSession sessionID keyID lastAccess legacy ttl), .ok ()⟩ ∧
      x.presented = some keyID ∧ touch.before.keys.get keyID = some sessionID ∧
      touch.before.sessions.get sessionID = some row ∧
      a.required x.request.path ∈ fields row.labels := by
  have good := traffic_good run
  obtain ⟨newer, older, split⟩ := List.append_of_mem called
  have careful := good.inv.made t newer (.next r) () older split
  rw [asked] at careful
  obtain ⟨keyID, l, presented, resolved, label⟩ := careful.authorized r rfl a policy guarded
  obtain ⟨row, now, ttl, -, -, -, labels, -, history⟩ := resolved
  obtain ⟨later, call, rest, logged, callTid, callDeed, -, before⟩ := ownDeeds_split newer split
  rw [history] at before
  obtain ⟨mid, touch, earlier, rfl, touchTid, touchDeed, -, read⟩ :=
    ownDeeds_split [_, _] before
  have touched : c.state.log = (later ++ call :: mid) ++ touch :: earlier := by
    rw [logged]
    simp
  obtain ⟨c₀, -, -, run₀, -, -, log₀, mem₀, -⟩ := logged_step run rfl touched
  have mem₀ := mem₀.symm
  have served := good.inv.inv.chained.served (e := touch) (by simp [touched])
  rw [touchDeed] at served
  obtain ⟨held, current, found, -⟩ := served_touchSession served
  have assumed₀ : PresentedAfterEmission visit c₀.state.log := by
    rw [touched] at assumed
    rw [log₀]
    refine PresentedAfterEmission.tail ((later ++ call :: mid) ++ [touch]) ?_
    simpa using assumed
  obtain ⟨current', found', kept⟩ := labelsHold_reached run₀ assumed₀ t x keyID l.sessionID row [_]
    [_] asked presented (by rw [own, log₀, read]; rfl) List.mem_cons_self (mem₀ ▸ held)
  rw [mem₀, found] at found'
  cases found'
  refine ⟨later, call, mid, touch, earlier, keyID, l.sessionID, now, _, ttl, current, logged,
    callTid, callDeed, touchTid, touchDeed, presented, held, found, ?_⟩
  rw [kept, ← labels]
  exact label

def Visit.emits (v : Visit) (keyID : GoString) (past : History) : Bool :=
  match v with
  | .request x => past.any fun
      | ⟨.writeHeader _ hdr, _⟩ => x.handler.buildProxyCookie keyID ∈ hdr.values setCookieName
      | _ => false
  | .revokeOwner _ => false

theorem Visit.emitted_of_emits {v : Visit} {keyID : GoString} {past : History}
    (emits : v.emits keyID past) : v.Emitted keyID past := by
  cases v with
  | request x =>
      obtain ⟨⟨c, r⟩, member, sent⟩ := List.any_eq_true.mp emits
      cases c with
      | writeHeader status hdr => exact ⟨x, rfl, status, hdr, member, of_decide_eq_true sent⟩
      | _ => cases sent
  | revokeOwner ownerID => cases emits

def presentsEmitted (visit : Nat → Visit) (log : List Event) : List Event → Bool
  | [] => true
  | e :: earlier =>
      (match visit e.tid with
        | .request x => x.presented.all fun keyID => log.all fun e' =>
            e'.deed.newKey ≠ some keyID || (visit e'.tid).emits keyID (ownDeeds e'.tid earlier)
        | .revokeOwner _ => true) && presentsEmitted visit log earlier

theorem presentedAfterEmission_of_check {log : List Event}
    (checked : presentsEmitted visit log log) : PresentedAfterEmission visit log := by
  have suffix : ∀ later e earlier, presentsEmitted visit log (later ++ e :: earlier) →
      ∀ x keyID, visit e.tid = .request x → x.presented = some keyID → ∀ e' ∈ log,
        e'.deed.newKey = some keyID → (visit e'.tid).emits keyID (ownDeeds e'.tid earlier) := by
    intro later e earlier checked x keyID asked presented e' member issued
    induction later with
    | nil =>
        have head := (Bool.and_eq_true _ _ ▸ checked).1
        rw [asked] at head
        simp only [presented, Option.all_some, List.all_eq_true] at head
        simpa [issued] using head e' member
    | cons e'' later ih => exact ih (Bool.and_eq_true _ _ ▸ checked).2
  intro later e earlier same x keyID asked presented u ⟨d, member, issued⟩
  obtain ⟨e', found, rfl⟩ := List.mem_map.mp member
  obtain ⟨logged, tid⟩ := List.mem_filter.mp found
  obtain rfl : e'.tid = u := by simpa using tid
  refine Visit.emitted_of_emits (suffix later e earlier ?_ x keyID asked presented e' logged issued)
  rwa [← same]

def plainChoices : List Choice := [{}, {}, { clock := 110 }, {}, {}, {}, {}]

theorem returning_sample_is_staff : ∃ c, (traffic (sampleVisits (.ret none))).Reaches quietStart c ∧
    PresentedAfterEmission (sampleVisits (.ret none)) c.state.log ∧
    ∃ touch ∈ c.state.log, ∃ sessionID row, touch.before.keys.get sampleKey = some sessionID ∧
      touch.before.sessions.get sessionID = some row ∧ lit "staff" ∈ fields row.labels := by
  have played : (play anyFaults (fun _ _ => true) (traffic (sampleVisits (.ret none))).prog quietStart
      (returnMoves plainChoices)).any fun c =>
        presentsEmitted (sampleVisits (.ret none)) c.state.log c.state.log &&
          ((own 1 c.state).findSome? callsNext).isSome := by
    decide +kernel
  obtain ⟨c, run, -, checked⟩ := reaches_of_played (fun _ => trivial) played
  obtain ⟨emitted, called⟩ := (Bool.and_eq_true _ _).mp checked
  obtain ⟨r, found⟩ := Option.isSome_iff_exists.mp called
  have assumed := presentedAfterEmission_of_check emitted
  have guarded : sampleAuthz.required (lit "/admin") ≠ Authz.anonymous := by
    rw [required_admin]
    decide
  obtain ⟨later, call, mid, touch, earlier, keyID, sessionID, lastAccess, legacy, ttl, row, logged,
      -, -, -, -, named, held, current, label⟩ :=
    next_only_for_proven_label run (x := sampleReturn (.ret none)) assumed rfl rfl guarded
      (mem_of_callsNext found)
  rw [presented_return] at named
  cases named
  refine ⟨c, run, assumed, touch, by simp [logged], sessionID, row, held, current, ?_⟩
  rw [← required_admin]
  exact label

end Gosestor
