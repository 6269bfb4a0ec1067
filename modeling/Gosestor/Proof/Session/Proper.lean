import Gosestor.Proof.History
import Gosestor.Session.Operation

/-!
# How the operations use their ids

A program is proper when it stores only ids that it minted itself, each of them once, gives a
session it created one key, indexes positive owners only, and stores no time before the epoch.
Every manager and handle operation is proper, whatever the store answers and whatever handle it is
called on.
-/

namespace Gosestor

open Gosestor.Go Gosestor.Lib Gosestor.Store

def Deed.newName : Deed → Option GoString
  | ⟨.store c, _⟩ => c.newName
  | _ => none

def Used (past : History) (x : GoString) : Prop := ∃ d ∈ past, Deed.newName d = some x

def Keyed (past : History) (sessionID : GoString) : Prop :=
  ∃ keyID ttl r, (⟨.store (.putKey keyID sessionID ttl), r⟩ : Deed) ∈ past

def Fresh (past : History) (x : GoString) : Prop := Minted past x ∧ ¬ Used past x

def Proper (past : History) : Call → Prop
  | .store (.putSession session _) =>
      Fresh past session.id ∧ session.ownerID = 0 ∧ 0 ≤ session.lastRotation
  | .store (.touchSession _ _ _ legacyRotation _) => 0 ≤ legacyRotation
  | .store (.putKey keyID sessionID _) =>
      Fresh past keyID ∧ Minted past sessionID ∧ ¬ Keyed past sessionID
  | .store (.applySessionControls _ c _ _) =>
      (c.rotate → Fresh past c.newKeyID) ∧ (c.setOwner → 0 < c.ownerID)
  | .store (.rotateSessionKey _ _ newKeyID _ _) => Fresh past newKeyID
  | _ => True

def Sessional : Call → Prop
  | .store _ | .now | .wallClock | .randomRead => True
  | _ => False

def Orderly (past : History) (c : Call) : Prop := Sessional c ∧ Proper past c

def Settled (past : History) : Prop := ∀ x, Used past x ∨ Keyed past x → Minted past x

theorem Minted.cons {past : History} {x : GoString} (minted : Minted past x) (d : Deed) :
    Minted (d :: past) x := by
  obtain ⟨d', member, named⟩ := minted
  exact ⟨d', List.mem_cons_of_mem d member, named⟩

theorem used_cons {past : History} {d : Deed} {x : GoString} :
    Used (d :: past) x ↔ Deed.newName d = some x ∨ Used past x := by
  simp [Used]

theorem proper_newName {past : History} {c : StoreCall} {x : GoString}
    (proper : Proper past (.store c)) (names : c.newName = some x) : Fresh past x := by
  cases c with
  | putSession session ttl =>
      cases names
      exact proper.1
  | putKey keyID sessionID ttl =>
      cases names
      exact proper.1
  | applySessionControls id controls sessionTTL ownerTTL =>
      simp only [StoreCall.newName] at names
      split_ifs at names with rotate
      cases names
      exact proper.1 rotate
  | rotateSessionKey id oldKeyID newKeyID lastRotation ttl =>
      cases names
      exact proper
  | _ => cases names

theorem keyed_cons {past : History} {c : Call} {r : c.Answer} {x : GoString}
    (keyed : Keyed (⟨c, r⟩ :: past) x) :
    Keyed past x ∨ ∃ keyID ttl, c = .store (.putKey keyID x ttl) := by
  obtain ⟨keyID, ttl, r', member⟩ := keyed
  obtain same | earlier := List.mem_cons.mp member
  · exact .inr ⟨keyID, ttl, (congrArg Sigma.fst same).symm⟩
  · exact .inl ⟨keyID, ttl, r', earlier⟩

theorem settled_nil : Settled [] := by
  rintro x (⟨d, member, -⟩ | ⟨keyID, ttl, r, member⟩)
  all_goals cases member

theorem Settled.cons {past : History} {c : Call} (settled : Settled past)
    (proper : Proper past c) (r : c.Answer) : Settled (⟨c, r⟩ :: past) := by
  rintro x (used | keyed)
  · obtain named | earlier := used_cons.mp used
    · cases c with
      | store c => exact (proper_newName proper named).1.cons _
      | _ => cases named
    · exact (settled x (.inl earlier)).cons _
  · obtain earlier | ⟨keyID, ttl, rfl⟩ := keyed_cons keyed
    · exact (settled x (.inr earlier)).cons _
    · exact proper.2.1.cons _

theorem Settled.fresh {past : History} (settled : Settled past) {buf : List UInt8}
    (new : ¬ Minted past (encodeToString buf)) :
    Fresh (⟨.randomRead, some buf⟩ :: past) (encodeToString buf) := by
  refine ⟨⟨_, List.mem_cons_self, rfl⟩, fun used => ?_⟩
  obtain named | earlier := used_cons.mp used
  · cases named
  · exact new (settled _ (.inl earlier))

theorem Fresh.cons {past : History} {x : GoString} (fresh : Fresh past x) {d : Deed}
    (other : Deed.newName d ≠ some x) : Fresh (d :: past) x := by
  refine ⟨fresh.1.cons d, fun used => ?_⟩
  obtain named | earlier := used_cons.mp used
  · exact other named
  · exact fresh.2 earlier

section Rules

variable {α : Type} {post : α → History → Prop} {past : History}

theorem proper_act {c : Call} {f : c.Answer → Act α} (session : Sessional c)
    (settled : Settled past) (proper : Proper past c)
    (rest : ∀ r, Legal past c r → Settled (⟨c, r⟩ :: past) →
      Obeys Orderly post (f r) (⟨c, r⟩ :: past)) :
    Obeys Orderly post (act c >>= f) past :=
  obeys_act ⟨session, proper⟩ fun r legal => rest r legal (settled.cons proper r)

theorem proper_newID {f : Except Err GoString → Act α} (settled : Settled past)
    (failed : Settled (⟨.randomRead, none⟩ :: past) →
      Obeys Orderly post (f (.error .random)) (⟨.randomRead, none⟩ :: past))
    (minted : ∀ buf, ¬ Minted past (encodeToString buf) →
      Settled (⟨.randomRead, some buf⟩ :: past) →
      Fresh (⟨.randomRead, some buf⟩ :: past) (encodeToString buf) →
      Obeys Orderly post (f (.ok (encodeToString buf))) (⟨.randomRead, some buf⟩ :: past)) :
    Obeys Orderly post (Session.newID >>= f) past := by
  refine Prog.Wp.bind (obeys_act ⟨trivial, trivial⟩ fun r legal => ?_)
  have after := settled.cons (c := .randomRead) trivial r
  cases r with
  | none => exact failed after
  | some buf => exact minted buf legal.2 after (settled.fresh legal.2)

end Rules

namespace Session

variable {past : History} (m : Manager)

theorem begin_proper (settled : Settled past) :
    Obeys Orderly (fun _ => Settled) m.begin past := by
  refine proper_act trivial settled trivial fun now epoch settled => ?_
  refine proper_newID settled id fun sid newSid settledSid freshSid => ?_
  refine proper_newID settledSid id fun key newKey settledKey freshKey => ?_
  have distinct : encodeToString sid ≠ encodeToString key := by
    intro same
    exact newKey (same ▸ freshSid.1)
  have freshSid' := freshSid.cons (d := ⟨.randomRead, some key⟩) (by simp [Deed.newName])
  refine proper_act trivial settledKey ⟨freshSid', rfl, epoch⟩ fun put _ settledPut => ?_
  cases put with
  | error e => exact settledPut
  | ok done =>
      have keyless : ¬ Keyed (⟨.store (.putSession (m.newSession (encodeToString sid) now)
          (Manager.ttl (m.newSession (encodeToString sid) now) now)), .ok done⟩ ::
          ⟨.randomRead, some key⟩ :: ⟨.randomRead, some sid⟩ :: ⟨.now, now⟩ :: past)
          (encodeToString sid) := by
        intro keyed
        obtain keyed | ⟨k, ttl, same⟩ := keyed_cons keyed
        · obtain keyed | ⟨k, ttl, same⟩ := keyed_cons keyed
          · obtain keyed | ⟨k, ttl, same⟩ := keyed_cons keyed
            · exact newSid (settled _ (.inr keyed))
            · cases same
          · cases same
        · cases same
      refine proper_act trivial settledPut ⟨freshKey.cons ?_, freshSid'.1.cons _, keyless⟩
        fun stored _ settledStored => ?_
      · simpa [Deed.newName, StoreCall.newName, Manager.newSession] using distinct
      · cases stored with
        | error e => exact settledStored
        | ok done => exact settledStored

theorem slide_lastRotation {row : Session} {now : Int} (timely : 0 ≤ row.lastRotation)
    (epoch : 0 ≤ now) : 0 ≤ (m.slide row now).lastRotation := by
  unfold Manager.slide
  dsimp only
  split_ifs
  · exact epoch
  · exact timely

theorem resolve_proper (keyID : GoString) (settled : Settled past) :
    Obeys Orderly (fun _ => Settled) (m.resolve keyID) past := by
  refine proper_act trivial settled trivial fun key _ settled => ?_
  cases key with
  | error e => cases e <;> exact settled
  | ok sid =>
      refine proper_act trivial settled trivial fun row legal settled => ?_
      cases row with
      | error e => cases e <;> exact settled
      | ok row =>
          refine proper_act trivial settled trivial fun now epoch settled => ?_
          dsimp only
          split_ifs with expired
          · exact proper_act trivial settled trivial fun _ _ settled => settled
          · refine proper_act trivial settled (slide_lastRotation m legal epoch) fun touched _ settled => ?_
            cases touched with
            | error e => exact settled
            | ok done =>
                refine proper_act trivial settled trivial fun cookies _ settled => ?_
                cases cookies with
                | error e => exact settled
                | ok cookies =>
                    refine proper_act trivial settled trivial fun shas _ settled => ?_
                    cases shas with
                    | error e => exact settled
                    | ok shas => exact settled

theorem revokeEach_proper (ownerID : Int) (sids : List GoString) (firstErr : Option Err)
    (settled : Settled past) :
    Obeys Orderly (fun _ => Settled) (Manager.revokeEach ownerID sids firstErr) past := by
  induction sids generalizing firstErr past with
  | nil => exact settled
  | cons sid sids ih =>
      refine proper_act trivial settled trivial fun deleted _ settled => ?_
      cases deleted with
      | error e => exact ih _ settled
      | ok gone => exact ih _ settled

theorem revokeOwner_proper (ownerID : Int) (settled : Settled past) :
    Obeys Orderly (fun _ => Settled) (Manager.revokeOwner ownerID) past := by
  refine proper_act trivial settled trivial fun sids _ settled => ?_
  cases sids with
  | error e => exact settled
  | ok sids => exact revokeEach_proper ownerID sids none settled

theorem commitControls_proper (l : Live) (sess : Session) (now : Int) (c : SessionControls)
    (ownerID : Option Int) (labels : Option (List GoString)) (settled : Settled past)
    (fresh : c.rotate → Fresh past c.newKeyID) (positive : c.setOwner → 0 < c.ownerID) :
    Obeys Orderly (fun _ => Settled) (l.commitControls sess now c ownerID labels) past := by
  refine proper_act trivial settled ⟨fresh, positive⟩ fun done _ settled => ?_
  cases done with
  | error e => exact settled
  | ok done => exact settled

theorem controls_setOwner {m : Manager} {l : Live} {sess : Session} {now : Int}
    {ownerID : Option Int} {labels : Option (List GoString)} {force periodic : Bool}
    {cookies : List CookieMutation} (positive : ∀ o, ownerID = some o → 0 < o)
    (set : (Live.controls m l sess now ownerID labels force periodic cookies).setOwner) :
    0 < (Live.controls m l sess now ownerID labels force periodic cookies).ownerID := by
  cases ownerID with
  | none => simp [Live.controls] at set
  | some o => exact positive o rfl

theorem carryOut_proper (l : Live) (sess : Session) (now : Int) (c : SessionControls)
    (ownerID : Option Int) (labels : Option (List GoString)) (settled : Settled past)
    (positive : c.setOwner → 0 < c.ownerID) :
    Obeys Orderly (fun _ => Settled) (l.carryOut sess now c ownerID labels) past := by
  unfold Live.carryOut
  split_ifs with idle rotate
  · exact settled
  · refine proper_newID settled id fun key _ settled fresh => ?_
    exact commitControls_proper l sess now _ ownerID labels settled (fun _ => fresh) positive
  · exact commitControls_proper l sess now c ownerID labels settled (fun h => absurd h rotate)
      positive

theorem applyControls_proper (l : Live) (ownerID : Option Int) (labels : Option (List GoString))
    (force periodic : Bool) (cookies : List CookieMutation) (settled : Settled past)
    (positive : ∀ o, ownerID = some o → 0 < o) :
    Obeys Orderly (fun _ => Settled)
      (l.applyControls m ownerID labels force periodic cookies) past := by
  refine proper_act trivial settled trivial fun now _ settled => ?_
  refine proper_act trivial settled trivial fun row _ settled => ?_
  cases row with
  | error e => exact settled
  | ok sess =>
      exact carryOut_proper l sess now _ ownerID labels settled (controls_setOwner positive)

theorem rotateKey_proper (l : Live) (ttl : Duration) (lastRotation : Int)
    (settled : Settled past) :
    Obeys Orderly (fun _ => Settled) (l.rotateKey ttl lastRotation) past := by
  refine proper_newID settled id fun key _ settled fresh => ?_
  refine proper_act trivial settled fresh fun done _ settled => ?_
  cases done with
  | error e => exact settled
  | ok done => exact settled

theorem maybeRotate_proper (l : Live) (settled : Settled past) :
    Obeys Orderly (fun _ => Settled) (l.maybeRotate m) past := by
  unfold Live.maybeRotate
  split_ifs with skip
  · exact settled
  · refine proper_act trivial settled trivial fun now _ settled => ?_
    refine proper_act trivial settled trivial fun row _ settled => ?_
    cases row with
    | error e => exact settled
    | ok sess =>
        dsimp only
        split_ifs with meanwhile
        · exact settled
        · exact rotateKey_proper l _ _ settled

theorem forceRotate_proper (l : Live) (settled : Settled past) :
    Obeys Orderly (fun _ => Settled) l.forceRotate past := by
  unfold Live.forceRotate
  split_ifs with pending
  · exact settled
  · refine proper_act trivial settled trivial fun now _ settled => ?_
    refine proper_act trivial settled trivial fun row _ settled => ?_
    cases row with
    | error e => exact settled
    | ok sess => exact rotateKey_proper l _ _ settled

theorem revoke_proper (l : Live) (settled : Settled past) :
    Obeys Orderly (fun _ => Settled) l.revoke past := by
  refine proper_act trivial settled trivial fun done _ settled => ?_
  cases done with
  | error e => exact settled
  | ok done => exact settled

theorem setLabels_proper (l : Live) (labels : List GoString) (settled : Settled past) :
    Obeys Orderly (fun _ => Settled) (l.setLabels m labels) past := by
  refine proper_act trivial settled trivial fun row _ settled => ?_
  cases row with
  | error e => exact settled
  | ok sess =>
      refine Prog.Wp.bind ?_
      refine (applyControls_proper m l none (some labels) false false [] settled
        (fun o h => by cases h)).weaken fun result past settled => ?_
      exact settled

theorem bindOwner_proper (l : Live) (ownerID : Int) (settled : Settled past) :
    Obeys Orderly (fun _ => Settled) (l.bindOwner m ownerID) past := by
  unfold Live.bindOwner
  split_ifs with anonymous
  · exact settled
  · refine proper_act trivial settled trivial fun row _ settled => ?_
    cases row with
    | error e => exact settled
    | ok sess =>
        refine Prog.Wp.bind ?_
        refine (applyControls_proper m _ (some ownerID) none false false [] settled
          (fun o h => by cases h; omega)).weaken fun result past settled => ?_
        obtain ⟨result, after⟩ := result
        cases result with
        | error e => exact settled
        | ok done => exact settled

theorem withLock_proper {α : Type} (sessionID : GoString) (fail : Err → α) {fn : Act α}
    (body : ∀ {past}, Settled past → Obeys Orderly (fun _ => Settled) fn past)
    (settled : Settled past) :
    Obeys Orderly (fun _ => Settled) (m.withLock sessionID fail fn) past := by
  unfold Manager.withLock
  split_ifs with off
  · exact body settled
  · refine proper_act trivial settled trivial fun locked _ settled => ?_
    cases locked with
    | error e => exact settled
    | ok got =>
        cases got with
        | false => exact settled
        | true =>
            refine Prog.Wp.bind ?_
            refine (body settled).weaken fun result past settled => ?_
            exact proper_act trivial settled trivial fun _ _ settled => settled

theorem op_proper (op : Op) (settled : Settled past) :
    Obeys Orderly (fun _ => Settled) (op.prog m) past := by
  have positive : ∀ (ownerID : Option OwnerID) o, ownerID.map (·.val) = some o → 0 < o := by
    intro ownerID o found
    obtain ⟨owner, -, rfl⟩ := Option.map_eq_some_iff.mp found
    exact owner.property
  induction op generalizing past with
  | begin => exact Prog.Wp.bind ((begin_proper m settled).weaken fun _ _ h => h)
  | resolve keyID => exact Prog.Wp.bind ((resolve_proper m keyID settled).weaken fun _ _ h => h)
  | applyResponse l ownerID labels force cookies =>
      exact Prog.Wp.bind ((applyControls_proper m l _ labels force true cookies settled
        (positive ownerID)).weaken fun _ _ h => h)
  | applyResponseControls l ownerID labels force =>
      exact Prog.Wp.bind ((applyControls_proper m l _ labels force true [] settled
        (positive ownerID)).weaken fun _ _ h => h)
  | setLabels l labels =>
      exact Prog.Wp.bind ((setLabels_proper m l labels settled).weaken fun _ _ h => h)
  | storeCookie l name value =>
      exact Prog.Wp.bind ((applyControls_proper m l none none false false _ settled
        (fun o h => by cases h)).weaken fun _ _ h => h)
  | deleteCookie l name =>
      exact Prog.Wp.bind ((applyControls_proper m l none none false false _ settled
        (fun o h => by cases h)).weaken fun _ _ h => h)
  | bindOwner l ownerID =>
      exact Prog.Wp.bind ((bindOwner_proper m l ownerID settled).weaken fun _ _ h => h)
  | forceRotate l => exact Prog.Wp.bind ((forceRotate_proper l settled).weaken fun _ _ h => h)
  | maybeRotate l => exact Prog.Wp.bind ((maybeRotate_proper m l settled).weaken fun _ _ h => h)
  | revoke l => exact Prog.Wp.bind ((revoke_proper l settled).weaken fun _ _ h => h)
  | revokeOwner ownerID =>
      exact Prog.Wp.bind ((revokeOwner_proper ownerID settled).weaken fun _ _ h => h)
  | withLock sessionID fn ih => exact withLock_proper m sessionID Outcome.unlocked ih settled

end Session

end Gosestor
