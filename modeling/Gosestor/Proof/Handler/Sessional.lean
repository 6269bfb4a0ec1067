import Gosestor.Proof.Handler.CanonicalKeys
import Gosestor.Proof.Session.Handle
import Gosestor.Proof.Session.Proper

/-!
# What processing can reach

Processing a response makes calls on the session alone and changes nothing of the interceptor but
the handle, the revoke signal and the response header, which keeps canonical keys.
-/

namespace Gosestor

open Gosestor.Go Gosestor.Lib Gosestor.Session

namespace Interceptor

variable {h : Handler} {past : History}

/-- What processing may leave of the interceptor `ic`. -/
structure Edits (ic ic' : Interceptor) : Prop where
  frame : ∃ responseHeader live revokeRequested,
    ic' = { ic with responseHeader, live, revokeRequested }
  canonical : Canonical ic.responseHeader → Canonical ic'.responseHeader

theorem Edits.refl (ic : Interceptor) : Edits ic ic := ⟨⟨_, _, _, rfl⟩, id⟩

theorem Edits.trans {ic ic' ic'' : Interceptor} (first : Edits ic ic') (second : Edits ic' ic'') :
    Edits ic ic'' := by
  obtain ⟨_, _, _, rfl⟩ := first.frame
  obtain ⟨_, _, _, rfl⟩ := second.frame
  exact ⟨⟨_, _, _, rfl⟩, second.canonical ∘ first.canonical⟩

theorem edits_live (ic : Interceptor) (live : Option Live) : Edits ic { ic with live } :=
  ⟨⟨_, _, _, rfl⟩, id⟩

theorem edits_add (ic : Interceptor) (line : GoString) (live : Option Live) :
    Edits ic { ic with live, responseHeader := ic.responseHeader.add setCookieName line } :=
  ⟨⟨_, _, _, rfl⟩, fun canonical => canonical.add _ _⟩

theorem newID_sessional {α : Type} {post : α → History → Prop} {f : Except Err GoString → Act α}
    (rest : ∀ id past', Obeys (fun _ => Sessional) post (f id) past') :
    Obeys (fun _ => Sessional) post (newID >>= f) past := by
  refine Prog.Wp.bind (obeys_act trivial fun buf _ => ?_)
  cases buf <;> exact rest _ _

theorem begin_sessional (m : Manager) :
    Obeys (fun _ => Sessional) (fun _ _ => True) m.begin past := by
  refine obeys_act trivial fun now _ => newID_sessional fun sid _ => ?_
  cases sid with
  | error e => trivial
  | ok sid =>
      refine newID_sessional fun key _ => ?_
      cases key with
      | error e => trivial
      | ok key =>
          refine obeys_act trivial fun put _ => ?_
          cases put with
          | error e => trivial
          | ok done =>
              refine obeys_act trivial fun stored _ => ?_
              cases stored <;> trivial

theorem carryOut_sessional (l : Live) (sess : Store.Session) (now : Int)
    (c : Store.SessionControls) (ownerID : Option Int) (labels : Option (List GoString)) :
    Obeys (fun _ => Sessional) (fun _ _ => True) (l.carryOut sess now c ownerID labels) past := by
  have committing : ∀ {c : Store.SessionControls} {past : History},
      Obeys (fun _ => Sessional) (fun _ _ => True)
        (l.commitControls sess now c ownerID labels) past := by
    intro c past
    refine obeys_act trivial fun done _ => ?_
    cases done <;> trivial
  unfold Live.carryOut
  split_ifs with idle rotate
  · trivial
  · refine newID_sessional fun key _ => ?_
    cases key with
    | error e => trivial
    | ok key => exact committing
  · exact committing

theorem applyResponse_sessional (m : Manager) (l : Live) (ownerID : Option Int)
    (labels : Option (List GoString)) (force : Bool) (cookies : List CookieMutation) :
    Obeys (fun _ => Sessional) (fun _ _ => True)
      (l.applyResponse m ownerID labels force cookies) past := by
  refine obeys_act trivial fun now _ => ?_
  refine obeys_act trivial fun row _ => ?_
  cases row with
  | error e => trivial
  | ok sess => exact carryOut_sessional l sess now _ ownerID labels

theorem ensureLive_sessional (ic : Interceptor) :
    Obeys (fun _ => Sessional) (fun result _ => Edits ic result.2) (ic.ensureLive h) past := by
  unfold ensureLive
  split_ifs with alive
  · exact .refl ic
  · refine Prog.Wp.bind ((begin_sessional h.manager).weaken fun result past' _ => ?_)
    cases result with
    | error e => exact .refl ic
    | ok l => exact edits_live ic (some l)

theorem sortCookies_sessional (lines : List GoString) (mutations : List CookieMutation)
    (ic : Interceptor) :
    Obeys (fun _ => Sessional) (fun result _ => Edits ic result.2)
      (sortCookies h lines mutations ic) past := by
  induction lines generalizing mutations ic past with
  | nil => exact .refl ic
  | cons line rest ih =>
      unfold sortCookies
      cases parseSetCookie h.parseTime line with
      | none => exact ih mutations ic
      | some cookie =>
          dsimp only
          cases h.filter.decide cookie.name with
          | forward =>
              exact (ih mutations _).weaken fun _ _ edits => (edits_add ic line ic.live).trans edits
          | drop => exact ih mutations ic
          | store =>
              refine obeys_act trivial fun now _ => ?_
              split_ifs with deletes alive
              · exact ih _ ic
              · exact ih mutations ic
              · refine Prog.Wp.bind ((ensureLive_sessional ic).weaken ?_)
                rintro ⟨result, ic'⟩ past' begun
                cases result with
                | error e => exact begun
                | ok done => exact (ih _ ic').weaken fun _ _ edits => begun.trans edits

theorem commitControls_sessional (ic : Interceptor) (c : Controls)
    (mutations : List CookieMutation) :
    Obeys (fun _ => Sessional) (fun result _ => Edits ic result.2)
      (ic.commitControls h c mutations) past := by
  unfold commitControls
  cases ic.live with
  | none => exact .refl ic
  | some l =>
      refine Prog.Wp.bind ((applyResponse_sessional h.manager l _ _ _ _).weaken ?_)
      rintro ⟨result, l'⟩ past' -
      cases result with
      | error e => exact edits_live ic (some l')
      | ok done =>
          dsimp only
          cases l'.newProxyCookie with
          | none => exact edits_live ic (some l')
          | some key => exact edits_add ic _ (some l')

theorem revokeLocked_sessional (ic : Interceptor) :
    Obeys (fun _ => Sessional) (fun result _ => Edits ic result.2) (revokeLocked h ic) past := by
  unfold revokeLocked
  cases ic.live with
  | none =>
      dsimp only
      split_ifs
      · exact edits_add ic _ ic.live
      · exact .refl ic
  | some l =>
      refine Prog.Wp.bind (obeys_act trivial fun deleted _ => ?_)
      cases deleted with
      | error e => exact edits_live ic (some l)
      | ok done =>
          simp only [Prog.pure_eq]
          split_ifs
          · exact edits_add ic _ none
          · exact edits_live ic none

theorem processLocked_sessional (ic : Interceptor) :
    Obeys (fun _ => Sessional) (fun result _ => Edits ic result.2) (ic.processLocked h) past := by
  have controlled : Edits ic { ic with
      responseHeader := (readControls h (ic.responseHeader.del setCookieName)).2 } :=
    ⟨⟨_, _, _, rfl⟩, fun canonical => (canonical.del _).readControls h⟩
  unfold processLocked
  dsimp only
  split_ifs with revoke
  · exact (revokeLocked_sessional _).weaken fun _ _ edits => controlled.trans edits
  · refine Prog.Wp.bind ((sortCookies_sessional _ _ _).weaken ?_)
    rintro ⟨result, ic₁⟩ past₁ sorted
    have sorted := controlled.trans sorted
    cases result with
    | error e => exact sorted
    | ok mutations =>
        dsimp only
        split_ifs with wants
        · refine Prog.Wp.bind ((ensureLive_sessional ic₁).weaken ?_)
          rintro ⟨begun, ic₂⟩ past₂ opened
          cases begun with
          | error e => exact sorted.trans opened
          | ok done =>
              exact (commitControls_sessional ic₂ _ _).weaken fun _ _ edits =>
                sorted.trans (opened.trans edits)
        · exact (commitControls_sessional ic₁ _ _).weaken fun _ _ edits => sorted.trans edits

theorem process_sessional (ic : Interceptor) :
    Obeys (fun _ => Sessional) (fun result _ => Edits ic result.2) (ic.process h) past := by
  have read : Edits ic (ic.readRevoke h) :=
    ⟨⟨_, _, _, rfl⟩, fun canonical => (canonical.strip _).del _⟩
  have locked : ∀ {past : History}, Obeys (fun _ => Sessional) (fun result _ => Edits ic result.2)
      ((ic.readRevoke h).processLocked h) past :=
    (processLocked_sessional _).weaken fun _ _ edits => read.trans edits
  unfold process
  dsimp only
  split
  · exact read
  · cases (ic.readRevoke h).live with
    | none => exact locked
    | some l =>
        refine withLock_obeys (fun _ _ => trivial) (fun _ => trivial) (fun _ _ _ => read) locked ?_
        exact fun _ => locked.weaken fun _ _ edits _ => edits

end Interceptor

end Gosestor
