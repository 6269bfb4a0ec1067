import Gosestor.Session.Manager
import Gosestor.World
import Mathlib.Data.Finset.Basic

/-!
# Manager and Live operations as concurrent programs

A job is one operation of one manager with arbitrary arguments; the handle a `Live` operation
works on is any handle at all, however old. Owner ids are positive: `processLocked` and
`BindOwner` let no other id through.
-/

namespace Gosestor.Session

open Gosestor.Go Gosestor.Lib Gosestor.Store

abbrev OwnerID := { owner : Int // 0 < owner }

inductive Op
  | begin
  | resolve (keyID : GoString)
  | applyResponse (live : Live) (ownerID : Option OwnerID) (labels : Option (List GoString))
      (forceRotate : Bool) (cookies : List CookieMutation)
  | applyResponseControls (live : Live) (ownerID : Option OwnerID)
      (labels : Option (List GoString)) (forceRotate : Bool)
  | setLabels (live : Live) (labels : List GoString)
  | storeCookie (live : Live) (name value : GoString)
  | deleteCookie (live : Live) (name : GoString)
  | bindOwner (live : Live) (ownerID : Int)
  | forceRotate (live : Live)
  | maybeRotate (live : Live)
  | revoke (live : Live)
  | revokeOwner (ownerID : Int)
  | withLock (sessionID : GoString) (fn : Op)

inductive Outcome
  | live (result : Except Err Live)
  | resolved (result : Except Err (Option Live))
  | handled (result : Except Err Unit) (live : Live)
  | changed (result : Except Err Bool) (live : Live)
  | revoked (firstErr : Option Err)
  | unlocked (err : Err)

def Op.prog (m : Manager) : Op → Act Outcome
  | .begin => return .live (← m.begin)
  | .resolve keyID => return .resolved (← m.resolve keyID)
  | .applyResponse l ownerID labels force cookies => do
      let (r, l) ← l.applyResponse m (ownerID.map (·.val)) labels force cookies
      return .handled r l
  | .applyResponseControls l ownerID labels force => do
      let (r, l) ← l.applyResponseControls m (ownerID.map (·.val)) labels force
      return .handled r l
  | .setLabels l labels => do
      let (r, l) ← l.setLabels m labels
      return .changed r l
  | .storeCookie l name value => do
      let (r, l) ← l.storeCookie m name value
      return .handled r l
  | .deleteCookie l name => do
      let (r, l) ← l.deleteCookie m name
      return .handled r l
  | .bindOwner l ownerID => do
      let (r, l) ← l.bindOwner m ownerID
      return .changed r l
  | .forceRotate l => do
      let (r, l) ← l.forceRotate
      return .handled r l
  | .maybeRotate l => do
      let (r, l) ← l.maybeRotate m
      return .handled r l
  | .revoke l => do
      let (r, l) ← l.revoke
      return .handled r l
  | .revokeOwner ownerID => return .revoked (← Manager.revokeOwner ownerID)
  | .withLock sessionID fn => m.withLock sessionID .unlocked (fn.prog m)

structure Job where
  manager : Manager
  op : Op

def Job.prog (job : Job) : Act Outcome := job.op.prog job.manager

def jobs (job : Nat → Job) : System (exec anyFaults) Outcome where
  prog t := (job t).prog
  ready _ _ := True

def idle : Machine Outcome := .initial {}

structure Response where
  manager : Manager
  live : Live
  ownerID : Option OwnerID
  labels : Option (List GoString)
  forceRotate : Bool
  cookies : List CookieMutation

def Response.prog (r : Response) : Act (Except Err Unit × Live) :=
  r.live.applyResponse r.manager (r.ownerID.map (·.val)) r.labels r.forceRotate r.cookies

def InPlay (T : Finset Nat) (w : World) (t : Nat) : Prop := t ∈ T ∧ ∀ e ∈ w.log, e.tid ≠ t
  deriving Decidable

def responses (T : Finset Nat) (w : World) (response : Nat → Response) :
    System (exec cleanFaults) (Except Err Unit × Live) where
  prog t := (response t).prog
  ready _ t := InPlay T w t

def Deed.clock : Deed → Option Int
  | ⟨.now, now⟩ => some now
  | _ => none

def Deed.random : Deed → Option (List UInt8)
  | ⟨.randomRead, buf⟩ => buf
  | _ => none

/-- One program alone on the store, with the clock reading and the random bytes of its own history.
-/
def alone (past : History) : (c : Call) → Memory → c.Answer × Memory
  | .store c, m => m.perform c
  | .now, m | .wallClock, m => ((past.findSome? Deed.clock).getD 0, m)
  | .randomRead, m => (past.findSome? Deed.random, m)
  | .reserve _, m | .removeTemp, m => (true, m)
  | .release _, m | .next _, m | .returned _ _, m | .trip _, m | .processed _, m
  | .writeHeader _ _, m => ((), m)
  | .createTemp, m | .fileSeek, m | .fileClose, m | .flush, m | .hijack, m => (none, m)
  | .fileWrite p, m | .write p, m => ((p.length, none), m)
  | .fileCopy remaining, m => ((remaining, none), m)

/-- The responses of `order` one at a time; each of them has to succeed. -/
def serial (response : Nat → Response) (past : Nat → History) :
    List Nat → Memory → Option Memory
  | [], m => some m
  | t :: order, m =>
      match (response t).prog.eval (alone (past t)) m with
      | ((.ok (), _), m') => serial response past order m'
      | _ => none

end Gosestor.Session
