import Gosestor.Lib.Simulation
import Gosestor.Proof.Store.Mirror
import Gosestor.Session.Operation

/-!
# Operations do not see the order of a map

The two stores give the cookies of a session as maps with the same lookups. An operation that is told
one map instead of the other makes the same calls and comes to the same result, up to the maps in the
handle that it returns.
-/

namespace Gosestor

open Gosestor.Go Gosestor.Lib Gosestor.Store

def Call.Alike : (c : Call) → c.Answer → c.Answer → Prop
  | .store (.getCookies _), a, a' | .store (.cookieSHAs _), a, a' => MapsAlike a a'
  | _, a, a' => a = a'

inductive CallsAlike : Matching Call Call.Answer
  | same (c : Call) : CallsAlike c c c.Alike

theorem Call.Alike.refl (c : Call) (a : c.Answer) : c.Alike a a := by
  unfold Call.Alike
  split
  · exact .refl _
  · exact .refl _
  · rfl

namespace Session

structure Live.Alike (l l' : Live) : Prop where
  rest : { l with cookies := ∅, shas := ∅ } = { l' with cookies := ∅, shas := ∅ }
  cookies : l.cookies.get = l'.cookies.get
  shas : l.shas.get = l'.shas.get

inductive Outcome.Alike : Outcome → Outcome → Prop
  | same (o : Outcome) : Alike o o
  | resolved {l l' : Live} (alike : l.Alike l') : Alike (.resolved (.ok (some l))) (.resolved (.ok (some l')))

section Programs

variable {α β : Type} {V : α → β → Prop} (m : Manager)

theorem alike_act {c : Call} {f : c.Answer → Act α} {g : c.Answer → Act β}
    (exact : ∀ a a', c.Alike a a' → a = a') (rest : ∀ a, Prog.Sim CallsAlike V (f a) (g a)) :
    Prog.Sim CallsAlike V (act c >>= f) (act c >>= g) := by
  refine .call (.same c) fun a a' alike => ?_
  obtain rfl := exact a a' alike
  exact rest a

theorem alike_newID {f : Except Err GoString → Act α} {g : Except Err GoString → Act β}
    (rest : ∀ id, Prog.Sim CallsAlike V (f id) (g id)) :
    Prog.Sim CallsAlike V (newID >>= f) (newID >>= g) := by
  refine Prog.Sim.bind (V := Eq) (alike_act (fun _ _ same => same) fun buf => ?_) fun id _ same => ?_
  · cases buf <;> exact .ret rfl
  · subst same
    exact rest id

theorem begin_alike : Prog.Sim CallsAlike Eq m.begin m.begin := by
  refine alike_act (fun _ _ same => same) fun now => ?_
  refine alike_newID fun sid => ?_
  cases sid with
  | error e => exact .ret rfl
  | ok sid =>
      refine alike_newID fun key => ?_
      cases key with
      | error e => exact .ret rfl
      | ok key =>
          refine alike_act (fun _ _ same => same) fun put => ?_
          cases put with
          | error e => exact .ret rfl
          | ok done =>
              refine alike_act (fun _ _ same => same) fun keyed => ?_
              cases keyed <;> exact .ret rfl

inductive ResolvedAlike : Except Err (Option Live) → Except Err (Option Live) → Prop
  | same (result : Except Err (Option Live)) : ResolvedAlike result result
  | found {l l' : Live} (alike : l.Alike l') : ResolvedAlike (.ok (some l)) (.ok (some l'))

theorem resolve_alike (keyID : GoString) :
    Prog.Sim CallsAlike ResolvedAlike (m.resolve keyID) (m.resolve keyID) := by
  refine alike_act (fun _ _ same => same) fun key => ?_
  cases key with
  | error e => cases e <;> exact .ret (.same _)
  | ok sid =>
      refine alike_act (fun _ _ same => same) fun row => ?_
      cases row with
      | error e => cases e <;> exact .ret (.same _)
      | ok row =>
          refine alike_act (fun _ _ same => same) fun now => ?_
          dsimp only
          split_ifs
          · exact alike_act (fun _ _ same => same) fun _ => .ret (.same _)
          · refine alike_act (fun _ _ same => same) fun touched => ?_
            cases touched with
            | error e => exact .ret (.same _)
            | ok done =>
                refine .call (.same _) fun cookies cookies' alike => ?_
                cases (alike : MapsAlike cookies cookies') with
                | error e => exact .ret (.same _)
                | ok sameCookies =>
                    refine .call (.same _) fun shas shas' alike => ?_
                    cases (alike : MapsAlike shas shas') with
                    | error e => exact .ret (.same _)
                    | ok sameShas => exact .ret (.found ⟨rfl, sameCookies, sameShas⟩)

theorem commitControls_alike (l : Live) (sess : Session) (now : Int) (c : SessionControls)
    (ownerID : Option Int) (labels : Option (List GoString)) :
    Prog.Sim CallsAlike Eq (l.commitControls sess now c ownerID labels)
      (l.commitControls sess now c ownerID labels) := by
  refine alike_act (fun _ _ same => same) fun done => ?_
  cases done <;> exact .ret rfl

theorem applyControls_alike (l : Live) (ownerID : Option Int) (labels : Option (List GoString))
    (force periodic : Bool) (cookies : List CookieMutation) :
    Prog.Sim CallsAlike Eq (l.applyControls m ownerID labels force periodic cookies)
      (l.applyControls m ownerID labels force periodic cookies) := by
  refine alike_act (fun _ _ same => same) fun now => ?_
  refine alike_act (fun _ _ same => same) fun row => ?_
  cases row with
  | error e => exact .ret rfl
  | ok row =>
      dsimp only
      unfold Live.carryOut
      split_ifs
      · exact .ret rfl
      · refine alike_newID fun key => ?_
        cases key with
        | error e => exact .ret rfl
        | ok key => exact commitControls_alike ..
      · exact commitControls_alike ..

theorem setLabels_alike (l : Live) (labels : List GoString) :
    Prog.Sim CallsAlike Eq (l.setLabels m labels) (l.setLabels m labels) := by
  refine alike_act (fun _ _ same => same) fun row => ?_
  cases row with
  | error e => exact .ret rfl
  | ok row =>
      refine (applyControls_alike m l none (some labels) false false []).bind fun _ _ same => ?_
      subst same
      exact .ret rfl

theorem bindOwner_alike (l : Live) (ownerID : Int) :
    Prog.Sim CallsAlike Eq (l.bindOwner m ownerID) (l.bindOwner m ownerID) := by
  unfold Live.bindOwner
  split_ifs
  · exact .ret rfl
  · refine alike_act (fun _ _ same => same) fun row => ?_
    cases row with
    | error e => exact .ret rfl
    | ok row =>
        refine (applyControls_alike m _ (some ownerID) none false false []).bind fun a _ same => ?_
        subst same
        obtain ⟨result, after⟩ := a
        cases result <;> exact .ret rfl

theorem rotateKey_alike (l : Live) (ttl : Duration) (lastRotation : Int) :
    Prog.Sim CallsAlike Eq (l.rotateKey ttl lastRotation) (l.rotateKey ttl lastRotation) := by
  refine alike_newID fun key => ?_
  cases key with
  | error e => exact .ret rfl
  | ok key =>
      refine alike_act (fun _ _ same => same) fun done => ?_
      cases done <;> exact .ret rfl

theorem maybeRotate_alike (l : Live) : Prog.Sim CallsAlike Eq (l.maybeRotate m) (l.maybeRotate m) := by
  unfold Live.maybeRotate
  split_ifs
  · exact .ret rfl
  · refine alike_act (fun _ _ same => same) fun now => ?_
    refine alike_act (fun _ _ same => same) fun row => ?_
    cases row with
    | error e => exact .ret rfl
    | ok row =>
        dsimp only
        split_ifs
        · exact .ret rfl
        · exact rotateKey_alike ..

theorem forceRotate_alike (l : Live) : Prog.Sim CallsAlike Eq l.forceRotate l.forceRotate := by
  unfold Live.forceRotate
  split_ifs
  · exact .ret rfl
  · refine alike_act (fun _ _ same => same) fun now => ?_
    refine alike_act (fun _ _ same => same) fun row => ?_
    cases row with
    | error e => exact .ret rfl
    | ok row => exact rotateKey_alike ..

theorem revoke_alike (l : Live) : Prog.Sim CallsAlike Eq l.revoke l.revoke := by
  refine alike_act (fun _ _ same => same) fun done => ?_
  cases done <;> exact .ret rfl

theorem revokeEach_alike (ownerID : Int) (sids : List GoString) (firstErr : Option Err) :
    Prog.Sim CallsAlike Eq (Manager.revokeEach ownerID sids firstErr)
      (Manager.revokeEach ownerID sids firstErr) := by
  induction sids generalizing firstErr with
  | nil => exact .ret rfl
  | cons sid sids ih =>
      refine alike_act (fun _ _ same => same) fun deleted => ?_
      cases deleted <;> exact ih _

theorem revokeOwner_alike (ownerID : Int) :
    Prog.Sim CallsAlike Eq (Manager.revokeOwner ownerID) (Manager.revokeOwner ownerID) := by
  refine alike_act (fun _ _ same => same) fun sids => ?_
  cases sids with
  | error e => exact .ret rfl
  | ok sids => exact revokeEach_alike ..

theorem withLock_alike {W : Outcome → Outcome → Prop} (same : ∀ o, W o o) (sessionID : GoString)
    {fn : Act Outcome} (body : Prog.Sim CallsAlike W fn fn) :
    Prog.Sim CallsAlike W (m.withLock sessionID .unlocked fn) (m.withLock sessionID .unlocked fn) := by
  unfold Manager.withLock
  split_ifs
  · exact body
  · refine alike_act (fun _ _ same => same) fun locked => ?_
    cases locked with
    | error e => exact .ret (same _)
    | ok got =>
        cases got with
        | false => exact .ret (same _)
        | true =>
            refine body.bind fun a b alike => ?_
            exact alike_act (fun _ _ same => same) fun _ => .ret alike

theorem op_alike (op : Op) : Prog.Sim CallsAlike Outcome.Alike (op.prog m) (op.prog m) := by
  have done : ∀ {α : Type} {p : Act α} {f : α → Outcome}, Prog.Sim CallsAlike Eq p p →
      Prog.Sim CallsAlike Outcome.Alike (p >>= fun a => pure (f a)) (p >>= fun a => pure (f a)) := by
    intro α p f sim
    refine sim.bind fun a b same => ?_
    subst same
    exact .ret (.same _)
  induction op with
  | begin => exact done (begin_alike m)
  | resolve keyID =>
      refine (resolve_alike m keyID).bind fun a b alike => .ret ?_
      cases alike with
      | same result => exact .same _
      | found alike => exact .resolved alike
  | applyResponse l ownerID labels force cookies => exact done (applyControls_alike ..)
  | applyResponseControls l ownerID labels force => exact done (applyControls_alike ..)
  | setLabels l labels => exact done (setLabels_alike ..)
  | storeCookie l name value => exact done (applyControls_alike ..)
  | deleteCookie l name => exact done (applyControls_alike ..)
  | bindOwner l ownerID => exact done (bindOwner_alike ..)
  | forceRotate l => exact done (forceRotate_alike ..)
  | maybeRotate l => exact done (maybeRotate_alike ..)
  | revoke l => exact done (revoke_alike ..)
  | revokeOwner ownerID => exact done (revokeOwner_alike ..)
  | withLock sessionID fn ih => exact withLock_alike m .same sessionID ih

end Programs

end Session

end Gosestor
