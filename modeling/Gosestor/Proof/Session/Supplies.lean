import Gosestor.Proof.Session.Handle
import Gosestor.Proof.Session.Labels
import Gosestor.Proof.Session.Runs

/-!
# What operations bring into the store

Cookies and labels enter the store through the controls of a handle operation alone. So the stored
cookies and labels are of any kind that the arguments of the operations are of.
-/

namespace Gosestor

open Gosestor.Go Gosestor.Lib Gosestor.Store
open Gosestor.Store.Memory (Supplies)

variable {P : GoString → GoString → Prop} {L : GoString → Prop} {past : History} {α β : Type}

def Supplying (P : GoString → GoString → Prop) (L : GoString → Prop) : Call → Prop
  | .store c => Supplies P L c
  | _ => True

abbrev Supplier (P : GoString → GoString → Prop) (L : GoString → Prop) (p : Act α)
    (past : History) : Prop :=
  Obeys (fun _ => Supplying P L) (fun _ _ => True) p past

theorem supplies_nothing {c : StoreCall} (row : ∀ s ttl, c ≠ .putSession s ttl)
    (controls : c.controls = none) : Supplies P L c where
  row same := absurd same (row _ _)
  cookies asks := by simp [controls] at asks
  labels asks := by simp [controls] at asks

theorem Supplier.bind {p : Act α} {f : α → Act β} (first : Supplier P L p past)
    (rest : ∀ a past, Supplier P L (f a) past) : Supplier P L (p >>= f) past :=
  Prog.Wp.bind (first.weaken fun a past _ => rest a past)

theorem supplier_read {c : StoreCall} {f : c.Answer → Act α}
    (row : ∀ s ttl, c ≠ .putSession s ttl) (controls : c.controls = none)
    (rest : ∀ r past, Supplier P L (f r) past) : Supplier P L (callStore c >>= f) past :=
  obeys_act (supplies_nothing row controls) fun r _ => rest r _

namespace Session

variable (m : Manager)

theorem newID_supplier : Supplier P L newID past := by
  refine obeys_act trivial fun buf _ => ?_
  cases buf <;> trivial

theorem begin_supplier (blank : L []) : Supplier P L m.begin past := by
  refine obeys_act trivial fun now _ => newID_supplier.bind fun sid past => ?_
  cases sid with
  | error e => trivial
  | ok sid =>
      refine newID_supplier.bind fun key past => ?_
      cases key with
      | error e => trivial
      | ok key =>
          have row : Supplying P L (.store (.putSession (m.newSession sid now)
              (Manager.ttl (m.newSession sid now) now))) := by
            refine ⟨fun same => ?_, fun asks => (by cases asks), fun asks => by cases asks⟩
            cases same
            exact blank
          refine obeys_act row fun put _ => ?_
          cases put with
          | error e => trivial
          | ok done =>
              refine supplier_read (by simp) rfl fun stored past => ?_
              cases stored <;> trivial

theorem Resolves.supplying {c : Call} (resolves : Resolves c) : Supplying P L c := by
  cases c with
  | store sc =>
      cases sc with
      | putSession | applySessionControls | rotateSessionKey => exact resolves.elim
      | _ => exact supplies_nothing (by simp) rfl
  | _ => trivial

theorem resolve_supplier (keyID : GoString) : Supplier P L (m.resolve keyID) past :=
  (resolve_history m keyID past).mono (fun _ _ resolves => resolves.supplying) fun _ _ _ => trivial

theorem revokeOwner_supplier (ownerID : Int) : Supplier P L (Manager.revokeOwner ownerID) past := by
  have each : ∀ (sids : List GoString) (firstErr : Option Err) (past : History),
      Supplier P L (Manager.revokeEach ownerID sids firstErr) past := by
    intro sids
    induction sids with
    | nil => exact fun _ _ => trivial
    | cons sid sids ih =>
        intro firstErr past
        refine supplier_read (by simp) rfl fun deleted past => ?_
        cases deleted <;> exact ih _ _
  refine supplier_read (by simp) rfl fun sids past => ?_
  cases sids with
  | error e => trivial
  | ok sids => exact each sids none past

section Controls

variable (l : Live) {labels : Option (List GoString)}

section Commit

variable {cookies : List CookieMutation}
  (labelled : ∀ given, labels = some given → L (normalizeLabels given))
  (valid : ∀ c ∈ cookies, c.delete = false → P c.name c.value)

include labelled valid

theorem controls_supplies (sess : Session) (now : Int) (ownerID : Option Int)
    (force periodic : Bool) (key : GoString) (ttl ownerTTL : Duration) :
    Supplies P L (.applySessionControls l.sessionID
      { Live.controls m l sess now ownerID labels force periodic cookies with newKeyID := key }
      ttl ownerTTL) where
  row same := by cases same
  cookies := by
    intro id ctl asks cookie member kept
    cases asks
    obtain ⟨c, listed, rfl⟩ := List.mem_map.mp member
    exact valid c listed kept
  labels := by
    intro id ctl asks set
    cases asks
    cases labels with
    | none => simp [Live.controls] at set
    | some given => exact labelled given rfl

theorem applyControls_supplier (ownerID : Option Int) (force periodic : Bool) :
    Supplier P L (l.applyControls m ownerID labels force periodic cookies) past := by
  refine obeys_act trivial fun now _ => supplier_read (by simp) rfl fun row past => ?_
  cases row with
  | error e => trivial
  | ok sess =>
      have committing : ∀ (key : GoString) (past : History),
          Supplier P L (l.commitControls sess now
            { Live.controls m l sess now ownerID labels force periodic cookies with newKeyID := key }
            ownerID labels) past := by
        intro key past
        refine obeys_act ?_ fun done _ => ?_
        · exact controls_supplies m l labelled valid sess now ownerID force periodic key _ _
        · cases done <;> trivial
      dsimp only
      unfold Live.carryOut
      split_ifs with idle rotate
      · trivial
      · refine newID_supplier.bind fun key past => ?_
        cases key with
        | error e => trivial
        | ok key => exact committing key past
      · exact committing l.keyID past

end Commit

variable {m l}

theorem unlabelled {given : List GoString} (none : (none : Option (List GoString)) = some given) :
    L (normalizeLabels given) := by cases none

theorem setLabels_supplier {given : List GoString} (labelled : L (normalizeLabels given)) :
    Supplier P L (l.setLabels m given) past := by
  refine supplier_read (by simp) rfl fun row past => ?_
  cases row with
  | error e => trivial
  | ok sess =>
      refine (applyControls_supplier m l ?_ (List.forall_mem_nil _) none false false).bind
        fun _ _ => trivial
      intro other same
      cases same
      exact labelled

theorem bindOwner_supplier (ownerID : Int) : Supplier P L (l.bindOwner m ownerID) past := by
  unfold Live.bindOwner
  split_ifs with anonymous
  · trivial
  · refine supplier_read (by simp) rfl fun row past => ?_
    cases row with
    | error e => trivial
    | ok sess =>
        refine (applyControls_supplier m _ (fun _ => unlabelled) (List.forall_mem_nil _)
          (some ownerID) false false).bind fun result past => ?_
        obtain ⟨result, after⟩ := result
        cases result <;> trivial

theorem rotateKey_supplier (ttl : Duration) (lastRotation : Int) :
    Supplier P L (l.rotateKey ttl lastRotation) past := by
  refine newID_supplier.bind fun key past => ?_
  cases key with
  | error e => trivial
  | ok key =>
      refine obeys_act ⟨fun same => (by cases same), fun asks => ?_, fun asks set => ?_⟩
        fun done _ => ?_
      · cases asks
        exact List.forall_mem_nil _
      · cases asks
        cases set
      · cases done <;> trivial

theorem maybeRotate_supplier : Supplier P L (l.maybeRotate m) past := by
  unfold Live.maybeRotate
  split_ifs with skip
  · trivial
  · refine obeys_act trivial fun now _ => supplier_read (by simp) rfl fun row past => ?_
    cases row with
    | error e => trivial
    | ok sess =>
        dsimp only
        split_ifs with meanwhile
        · trivial
        · exact rotateKey_supplier _ _

theorem forceRotate_supplier : Supplier P L l.forceRotate past := by
  unfold Live.forceRotate
  split_ifs with pending
  · trivial
  · refine obeys_act trivial fun now _ => supplier_read (by simp) rfl fun row past => ?_
    cases row with
    | error e => trivial
    | ok sess => exact rotateKey_supplier _ _

theorem revoke_supplier : Supplier P L l.revoke past := by
  refine supplier_read (by simp) rfl fun deleted past => ?_
  cases deleted <;> trivial

end Controls

def Op.asksLabels : Op → Option (List GoString)
  | .applyResponse _ _ labels _ _ | .applyResponseControls _ _ labels _ => labels
  | .setLabels _ labels => some labels
  | .withLock _ fn => fn.asksLabels
  | _ => none

theorem op_supplier (op : Op)
    (labelled : ∀ given, op.asksLabels = some given → L (normalizeLabels given)) (blank : L []) :
    Supplier (fun _ _ => True) L (op.prog m) past := by
  have any : ∀ cookies : List CookieMutation, ∀ c ∈ cookies, c.delete = false → True :=
    fun _ _ _ _ => trivial
  induction op generalizing past with
  | begin => exact (begin_supplier m blank).bind fun _ _ => trivial
  | resolve keyID => exact (resolve_supplier m keyID).bind fun _ _ => trivial
  | revokeOwner ownerID => exact (revokeOwner_supplier ownerID).bind fun _ _ => trivial
  | applyResponse l ownerID labels force cookies =>
      exact (applyControls_supplier m l labelled (any cookies) _ force true).bind fun _ _ => trivial
  | applyResponseControls l ownerID labels force =>
      exact (applyControls_supplier m l labelled (any []) _ force true).bind fun _ _ => trivial
  | setLabels l labels => exact (setLabels_supplier (labelled labels rfl)).bind fun _ _ => trivial
  | storeCookie l name value =>
      exact (applyControls_supplier m l (fun _ => unlabelled) (any _) none false false).bind
        fun _ _ => trivial
  | deleteCookie l name =>
      exact (applyControls_supplier m l (fun _ => unlabelled) (any _) none false false).bind
        fun _ _ => trivial
  | bindOwner l ownerID => exact (bindOwner_supplier ownerID).bind fun _ _ => trivial
  | forceRotate l => exact forceRotate_supplier.bind fun _ _ => trivial
  | maybeRotate l => exact maybeRotate_supplier.bind fun _ _ => trivial
  | revoke l => exact revoke_supplier.bind fun _ _ => trivial
  | withLock sessionID fn ih =>
      apply withLock_obeys
      · exact fun _ _ => supplies_nothing (by simp) rfl
      · exact fun _ => supplies_nothing (by simp) rfl
      · exact fun _ _ _ => trivial
      · exact ih labelled
      · exact fun _ => (ih labelled).weaken fun _ _ _ _ => trivial

end Session

structure Stocking (P : GoString → GoString → Prop) (L : GoString → Prop) (w : World) : Prop where
  inv : Inv anyFaults w
  stocked : w.mem.Stocked P L

theorem stocked_step {w w' : World} {t : Nat} {c : Call} {r : c.Answer}
    (stocked : w.mem.Stocked P L) (supplying : Supplying P L c) (step : exec anyFaults t w c r w') :
    w'.mem.Stocked P L := by
  obtain same | ⟨sc, rfl, done⟩ := served_mem (exec_served step)
  · rw [same]
    exact stocked
  · rw [done]
    exact (Memory.perform_change w.mem sc).stocked stocked supplying

namespace Session

variable {job : Nat → Job} {c : Machine Outcome}

theorem jobs_stocking (blank : L [])
    (labelled : ∀ t given, (job t).op.asksLabels = some given → L (normalizeLabels given))
    (run : (jobs job).Reaches idle c) : Stocking (fun _ _ => True) L c.state := by
  have good : Good (jobs job) (histories anyFaults {} (Stocking (fun _ _ => True) L)
        (fun stocking => stocking.inv.wf.timely))
      (fun _ past c => Proper past c ∧ Supplying (fun _ _ => True) L c) (fun _ _ _ => True) c := by
    refine Good.reaches (fun {t} _ _ => ?_) (fun _ _ => trivial)
      (fun {t w c r w'} stocking _ allowed step => ?_) (.initial ?_ fun _ => rfl) run
    · have proper := op_proper (job t).manager (job t).op settled_nil
      exact (proper.and (op_supplier _ (job t).op (labelled t) blank)).mono
        (fun _ _ allowed => ⟨allowed.1.2, allowed.2⟩) fun _ _ _ => trivial
    · exact ⟨stocking.inv.step allowed.1 step, stocked_step stocking.stocked allowed.2 step⟩
    · exact ⟨inv_initial, Memory.newMemory_stocked⟩
  exact good.inv

end Session

end Gosestor
