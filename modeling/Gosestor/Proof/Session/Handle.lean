import Gosestor.Proof.Session.Proper
import Gosestor.Proof.Store.Integrity

/-!
# What an operation does to its handle

An operation writes the session of its handle only, with the hashes of the cookies it stores and
the times its clock read. One that returns an error leaves its handle as it was.
-/

namespace Gosestor.Session

open Gosestor.Go Gosestor.Lib Gosestor.Store

variable {α : Type} {past : History} {m : Manager} {l : Live}

def Restored (l : Live) (result : Except Err α × Live) : Prop :=
  ∀ e, result.1 = .error e → result.2 = l

theorem restored_ok {value : α} {l' : Live} : Restored l (.ok value, l') := fun _ failed => by
  cases failed

theorem restored_error {e : Err} : Restored l ((.error e, l) : Except Err α × Live) :=
  fun _ _ => rfl

def clock (past : History) : Option Int := past.findSome? Deed.clock

def Timed (m : Manager) (past : History) : StoreCall → Prop
  | .putSession s _ => ∃ now, clock past = some now ∧ s = m.newSession s.id now
  | .touchSession _ _ lastAccess _ _ => clock past = some lastAccess
  | .applySessionControls _ c _ _ =>
      (if c.setOwner || c.setLabels || !c.cookies.isEmpty then clock past = some c.lastAccess
        else c.lastAccess = 0) ∧
      if c.rotate then clock past = some c.lastRotation else c.lastRotation = 0
  | .rotateSessionKey _ _ _ lastRotation _ => clock past = some lastRotation
  | _ => True

def Manager.Hash (m : Manager) (value sha : GoString) : Prop :=
  sha = encodeToString (m.sum256 value)

def Recorded (m : Manager) (past : History) : Call → Prop
  | .store c => c.Related m.Hash ∧ Timed m past c
  | _ => True

def subject : Call → Option GoString
  | .store c => c.subject
  | _ => none

def Turning (m : Manager) (l : Live) : Call → Prop
  | .store c => ∀ id ctl, c.controls = some (id, ctl) → ctl.setOwner = true →
      ctl.rotate = true ∨ m.cfg.rotateOnLogin = false ∨ l.rewrite = true
  | _ => True

structure Confined (m : Manager) (l : Live) (past : History) (c : Call) : Prop where
  recorded : Recorded m past c
  about : ∀ s, subject c = some s → s = l.sessionID
  turning : Turning m l c

theorem related_of_uncontrolled {R : GoString → GoString → Prop} {c : StoreCall}
    (none : c.controls = none) : c.Related R := by
  intro id ctl asks
  simp [none] at asks

theorem confined_read {c : StoreCall} (silent : c.subject = none)
    (untimed : Timed m past c) : Confined m l past (.store c) := by
  have none : c.controls = none := by
    cases c <;> first | rfl | cases silent
  refine ⟨⟨related_of_uncontrolled none, untimed⟩, ?_, ?_⟩
  · intro s writes
    simp [subject, silent] at writes
  · intro id ctl asks
    simp [none] at asks

theorem confined_now : Confined m l past .now where
  recorded := trivial
  about := by simp [subject]
  turning := trivial

theorem confined_random : Confined m l past .randomRead where
  recorded := trivial
  about := by simp [subject]
  turning := trivial

theorem newID_confined {post : α → History → Prop} {f : Except Err GoString → Act α}
    (failed : Obeys (Confined m l) post (f (.error .random)) (⟨.randomRead, none⟩ :: past))
    (minted : ∀ buf, Obeys (Confined m l) post (f (.ok (encodeToString buf)))
      (⟨.randomRead, some buf⟩ :: past)) :
    Obeys (Confined m l) post (newID >>= f) past := by
  refine Prog.Wp.bind (obeys_act confined_random fun buf _ => ?_)
  cases buf with
  | none => exact failed
  | some buf => exact minted buf

theorem controls_related (l : Live) (sess : Session) (now : Int) (ownerID : Option Int)
    (labels : Option (List GoString)) (force periodic : Bool) (cookies : List CookieMutation) :
    ∀ c ∈ (Live.controls m l sess now ownerID labels force periodic cookies).cookies,
      c.delete = false → m.Hash c.value c.sha := by
  intro c member kept
  obtain ⟨given, -, rfl⟩ := List.mem_map.mp member
  have kept : given.delete = false := kept
  simp [Live.mutation, Manager.Hash, kept]

theorem controls_turning (l : Live) (sess : Session) (now : Int) (ownerID : Option Int)
    (labels : Option (List GoString)) (force periodic : Bool) (cookies : List CookieMutation)
    (sets : (Live.controls m l sess now ownerID labels force periodic cookies).setOwner = true) :
    (Live.controls m l sess now ownerID labels force periodic cookies).rotate = true ∨
      m.cfg.rotateOnLogin = false ∨ l.rewrite = true := by
  simp only [Live.controls] at sets ⊢
  cases m.cfg.rotateOnLogin <;> cases l.rewrite <;> simp_all

theorem commitControls_confined {l' : Live} (same : l'.sessionID = l.sessionID) (sess : Session)
    (now : Int) (c : SessionControls) (ownerID : Option Int) (labels : Option (List GoString))
    (related : ∀ cookie ∈ c.cookies, cookie.delete = false → m.Hash cookie.value cookie.sha)
    (timed : ∀ ttl ownerTTL, Timed m past (.applySessionControls l'.sessionID c ttl ownerTTL))
    (turning : c.setOwner = true →
      c.rotate = true ∨ m.cfg.rotateOnLogin = false ∨ l.rewrite = true) :
    Obeys (Confined m l) (fun result _ => Restored l' result)
      (l'.commitControls sess now c ownerID labels) past := by
  refine obeys_act ⟨⟨?_, timed _ _⟩, ?_, ?_⟩ fun done _ => ?_
  · rintro id ctl ⟨⟩
    exact related
  · intro s writes
    exact (Option.some.inj writes).symm.trans same
  · rintro id ctl ⟨⟩
    exact turning
  · cases done with
    | error e => exact restored_error
    | ok done => exact restored_ok

theorem timed_controls (l : Live) (sess : Session) (now : Int) (ownerID : Option Int)
    (labels : Option (List GoString)) (force periodic : Bool) (cookies : List CookieMutation)
    (newKeyID : GoString) (read : clock past = some now) (id : GoString)
    (ttl ownerTTL : Duration) :
    Timed m past (.applySessionControls id
      { Live.controls m l sess now ownerID labels force periodic cookies with newKeyID }
      ttl ownerTTL) := by
  simp only [Timed, Live.controls, List.isEmpty_map]
  constructor <;> split_ifs <;> first | exact read | rfl

theorem carryOut_confined {l' : Live} (same : l'.sessionID = l.sessionID)
    (pending : l'.rewrite = true → l.rewrite = true) (sess : Session) (now : Int)
    (ownerID : Option Int) (labels : Option (List GoString)) (force periodic : Bool)
    (cookies : List CookieMutation) (read : clock past = some now) :
    Obeys (Confined m l) (fun result _ => Restored l' result)
      (l'.carryOut sess now (l'.controls m sess now ownerID labels force periodic cookies)
        ownerID labels) past := by
  have related := controls_related (m := m) l' sess now ownerID labels force periodic cookies
  have turning := fun sets => (controls_turning (m := m) l' sess now ownerID labels force periodic
    cookies sets).imp_right (Or.imp_right pending)
  unfold Live.carryOut
  split_ifs with idle rotate
  · exact restored_ok
  · apply newID_confined
    · exact restored_error
    · intro key
      dsimp only
      apply commitControls_confined same
      · exact related
      · exact timed_controls l' sess now ownerID labels force periodic cookies _ read l'.sessionID
      · exact turning
  · apply commitControls_confined same
    · exact related
    · exact timed_controls l' sess now ownerID labels force periodic cookies _ read l'.sessionID
    · exact turning

theorem applyControls_confined {l' : Live} (same : l'.sessionID = l.sessionID)
    (pending : l'.rewrite = true → l.rewrite = true) (ownerID : Option Int)
    (labels : Option (List GoString)) (force periodic : Bool) (cookies : List CookieMutation) :
    Obeys (Confined m l) (fun result _ => Restored l' result)
      (l'.applyControls m ownerID labels force periodic cookies) past := by
  refine obeys_act confined_now fun now _ => ?_
  refine obeys_act (confined_read rfl trivial) fun row _ => ?_
  cases row with
  | error e => exact restored_error
  | ok sess =>
      exact carryOut_confined same pending sess now ownerID labels force periodic cookies rfl

theorem rotateKey_confined (ttl : Duration) (lastRotation : Int)
    (read : clock past = some lastRotation) :
    Obeys (Confined m l) (fun result _ => Restored l result)
      (l.rotateKey ttl lastRotation) past := by
  apply newID_confined
  · exact restored_error
  · intro key
    refine obeys_act ⟨⟨?_, read⟩, ?_, ?_⟩ fun done _ => ?_
    · rintro id ctl ⟨⟩ cookie ⟨⟩
    · intro s writes
      exact (Option.some.inj writes).symm
    · rintro id ctl ⟨⟩ sets
      cases sets
    · cases done with
      | error e => exact restored_error
      | ok done => exact restored_ok

theorem maybeRotate_confined :
    Obeys (Confined m l) (fun result _ => Restored l result) (l.maybeRotate m) past := by
  unfold Live.maybeRotate
  split_ifs with skip
  · exact restored_ok
  · refine obeys_act confined_now fun now _ => ?_
    refine obeys_act (confined_read rfl trivial) fun row _ => ?_
    cases row with
    | error e => exact restored_error
    | ok sess =>
        dsimp only
        split_ifs with meanwhile
        · exact restored_ok
        · exact rotateKey_confined _ _ rfl

theorem forceRotate_confined :
    Obeys (Confined m l) (fun result _ => Restored l result) l.forceRotate past := by
  unfold Live.forceRotate
  split_ifs with pending
  · exact restored_ok
  · refine obeys_act confined_now fun now _ => ?_
    refine obeys_act (confined_read rfl trivial) fun row _ => ?_
    cases row with
    | error e => exact restored_error
    | ok sess => exact rotateKey_confined _ _ rfl

theorem revoke_confined :
    Obeys (Confined m l) (fun result _ => Restored l result) l.revoke past := by
  refine obeys_act ⟨⟨related_of_uncontrolled rfl, trivial⟩, ?_, ?_⟩ fun done _ => ?_
  · intro s writes
    exact (Option.some.inj writes).symm
  · intro id ctl asks
    cases asks
  · cases done with
    | error e => exact restored_error
    | ok done => exact restored_ok

theorem setLabels_confined (labels : List GoString) :
    Obeys (Confined m l) (fun result _ => Restored l result)
      (l.setLabels m labels) past := by
  refine obeys_act (confined_read rfl trivial) fun row _ => ?_
  cases row with
  | error e => exact restored_error
  | ok sess =>
      refine Prog.Wp.bind ((applyControls_confined rfl id none (some labels) false false []).weaken ?_)
      rintro ⟨result, after⟩ past' restored
      cases result with
      | error e => exact fun _ _ => restored e rfl
      | ok done => exact restored_ok

theorem bindOwner_confined (ownerID : Int) :
    Obeys (Confined m l) (fun result _ => Restored l result)
      (l.bindOwner m ownerID) past := by
  -- The pending key that was cleared for the commit is put back.
  unfold Live.bindOwner
  split_ifs with anonymous
  · exact restored_ok
  · refine obeys_act (confined_read rfl trivial) fun row _ => ?_
    cases row with
    | error e => exact restored_error
    | ok sess =>
        refine Prog.Wp.bind
          ((applyControls_confined ?_ ?_ (some ownerID) none false false []).weaken ?_)
        · split_ifs <;> rfl
        · split_ifs <;> simp
        · rintro ⟨result, after⟩ past' restored
          cases result with
          | error e =>
              intro _ _
              have cleared : after = _ := restored e rfl
              dsimp only
              rw [cleared]
              split_ifs <;> rfl
          | ok done => exact restored_ok

theorem withLock_obeys {may : History → Call → Prop} {post : α → History → Prop}
    {sessionID : GoString} {fail : Err → α} {fn : Act α}
    (locks : ∀ past ttl, may past (.store (.lock sessionID ttl)))
    (unlocks : ∀ past, may past (.store (.unlock sessionID)))
    (failed : ∀ e ttl r, post (fail e) (⟨.store (.lock sessionID ttl), r⟩ :: past))
    (free : Obeys may post fn past)
    (held : ∀ ttl, Obeys may
      (fun a after => ∀ r, post a (⟨.store (.unlock sessionID), r⟩ :: after)) fn
      (⟨.store (.lock sessionID ttl), .ok true⟩ :: past)) :
    Obeys may post (m.withLock sessionID fail fn) past := by
  unfold Manager.withLock
  split_ifs with off
  · exact free
  · refine obeys_act (locks _ _) fun locked _ => ?_
    cases locked with
    | error e => exact failed _ _ _
    | ok got =>
        cases got with
        | false => exact failed _ _ _
        | true =>
            refine Prog.Wp.bind ((held _).weaken fun a after done => ?_)
            exact obeys_act (unlocks _) fun r _ => done r

end Gosestor.Session
