import Gosestor.Runtime

/-!
# internal/session: the session manager

`Manager` and the in-request handle `Live`. A method that changes the handle returns the handle
beside its error or value. Clock readings are Unix seconds.
-/

namespace Gosestor.Session

open Gosestor.Go Gosestor.Lib Gosestor.Store

structure Config where
  inactive : Duration
  final : Duration
  synchronize : Bool
  rotateOnLogin : Bool
  rotateInterval : Duration

structure CookieMutation where
  name : GoString
  value : GoString := []
  delete : Bool := false
  deriving DecidableEq

structure Manager where
  cfg : Config
  sum256 : GoString → List UInt8

structure Live where
  keyID : GoString
  sessionID : GoString
  ownerID : Int := 0
  cookies : GoMap GoString GoString := ∅
  labels : List GoString := []
  shas : GoMap GoString GoString := ∅
  newKey : GoString := []
  rewrite : Bool := false
  rotateDue : Bool := false
  deriving DecidableEq

def newID : Act (Except Err GoString) := do
  match ← act .randomRead with
  | none => return .error .random
  | some buf => return .ok (encodeToString buf)

namespace Manager

def expired (s : Session) (now : Int) : Bool :=
  int64 (now - s.lastAccess) ≥ s.inactiveTimeout || now ≥ int64 (s.creation + s.finalTimeout)

def ttl (s : Session) (now : Int) : Duration :=
  let inactive := int64 (s.inactiveTimeout * second)
  let remainingFinal := int64 (int64 (int64 (s.creation + s.finalTimeout) - now) * second)
  if remainingFinal < inactive then remainingFinal else inactive

def rotationDue (m : Manager) (s : Session) (now : Int) : Bool :=
  m.cfg.rotateInterval > 0 &&
    int64 (now - s.lastRotation) ≥ Duration.truncSeconds m.cfg.rotateInterval

def newSession (m : Manager) (sid : GoString) (now : Int) : Session where
  id := sid
  creation := now
  lastAccess := now
  inactiveTimeout := Duration.truncSeconds m.cfg.inactive
  finalTimeout := Duration.truncSeconds m.cfg.final
  lastRotation := now

def begin (m : Manager) : Act (Except Err Live) := do
  let now ← act .now
  match ← newID with
  | .error e => return .error e
  | .ok sid =>
    match ← newID with
    | .error e => return .error e
    | .ok key =>
      let sess := m.newSession sid now
      match ← callStore (.putSession sess (ttl sess now)) with
      | .error e => return .error (.store e)
      | .ok () =>
        match ← callStore (.putKey key sid (ttl sess now)) with
        | .error e => return .error (.store e)
        | .ok () => return .ok { keyID := key, sessionID := sid, newKey := key, rewrite := true }

/-- The row that `Resolve` goes on with: a session from before `rotate_interval` starts its rotation
clock now. -/
def slide (m : Manager) (sess : Session) (now : Int) : Session :=
  { sess with
    lastAccess := now
    lastRotation := if m.cfg.rotateInterval > 0 ∧ sess.lastRotation = 0 then now
      else sess.lastRotation }

def resolve (m : Manager) (keyID : GoString) : Act (Except Err (Option Live)) := do
  match ← callStore (.getKey keyID) with
  | .error .notFound => return .ok none
  | .error e => return .error (.store e)
  | .ok sid =>
    match ← callStore (.getSession sid) with
    | .error .notFound => return .ok none
    | .error e => return .error (.store e)
    | .ok row =>
      let now ← act .now
      if expired row now then
        let _ ← callStore (.deleteSession sid)
        return .ok none
      else
        let rotateDue := row.lastRotation ≠ 0 && m.rotationDue row now
        let sess := m.slide row now
        match ← callStore (.touchSession sid keyID sess.lastAccess sess.lastRotation
            (ttl sess now)) with
        | .error e => return .error (.store e)
        | .ok () =>
          match ← callStore (.getCookies sid) with
          | .error e => return .error (.store e)
          | .ok cookies =>
            match ← callStore (.cookieSHAs sid) with
            | .error e => return .error (.store e)
            | .ok shas =>
              let live : Live :=
                { keyID, cookies, shas, rotateDue
                  sessionID := sid
                  ownerID := sess.ownerID
                  labels := fields sess.labels }
              return .ok (some live)

def revokeEach (ownerID : Int) : List GoString → Option Err → Act (Option Err)
  | [], firstErr => return firstErr
  | sid :: sids, firstErr => do
      match ← callStore (.deleteSessionByOwner ownerID sid) with
      | .ok _ => revokeEach ownerID sids firstErr
      | .error e => revokeEach ownerID sids (firstErr.or (some (.store e)))

def revokeOwner (ownerID : Int) : Act (Option Err) := do
  match ← callStore (.ownerSessions ownerID) with
  | .error e => return some (.store e)
  | .ok sids => revokeEach ownerID sids none

/-- An error of the lock is turned into the result of `fn` by `fail`. -/
def withLock {α : Type} (m : Manager) (sessionID : GoString) (fail : Err → α) (fn : Act α) :
    Act α := do
  if !m.cfg.synchronize then fn
  else
    match ← callStore (.lock sessionID (5 * second)) with
    | .error e => return fail (.store e)
    | .ok false => return fail .lockContended
    | .ok true =>
      let result ← fn
      let _ ← callStore (.unlock sessionID)
      return result

end Manager

def dedupe : List GoString → List GoString → List GoString
  | [], _ => []
  | label :: rest, seen =>
      let label := trimSpace label
      if label = [] ∨ label ∈ seen then dedupe rest seen
      else label :: dedupe rest (label :: seen)

def normalizeLabels (labels : List GoString) : GoString :=
  join (sortStrings (dedupe labels [])) (lit " ")

namespace Live

def hasLabel (l : Live) (label : GoString) : Bool := l.labels.contains label

def newProxyCookie (l : Live) : Option GoString := if l.rewrite then some l.newKey else none

def mutation (m : Manager) (c : CookieMutation) : Store.CookieMutation where
  name := c.name
  value := c.value
  delete := c.delete
  sha := if c.delete then [] else encodeToString (m.sum256 c.value)

/-- The part of `applyControls` between its read of the session and its commit. `newKeyID` is filled
in when the key is rotated. -/
def controls (m : Manager) (l : Live) (sess : Session) (now : Int) (ownerID : Option Int)
    (labels : Option (List GoString)) (forceRotate checkPeriodic : Bool)
    (cookies : List CookieMutation) : SessionControls :=
  let ownerChanged := ownerID.any (· ≠ sess.ownerID)
  let labelsChanged := labels.any (normalizeLabels · ≠ sess.labels)
  let due := checkPeriodic && m.rotationDue sess now
  let rotate := !l.rewrite &&
    (forceRotate || due || labelsChanged || (ownerChanged && m.cfg.rotateOnLogin))
  { oldKeyID := l.keyID
    newKeyID := l.keyID
    setOwner := ownerChanged
    ownerID := ownerID.getD 0
    setLabels := labelsChanged
    labels := (labels.map normalizeLabels).getD []
    rotate
    cookies := cookies.map (mutation m)
    lastAccess := if ownerChanged || labelsChanged || !cookies.isEmpty then now else 0
    lastRotation := if rotate then now else 0 }

def nothingToDo (c : SessionControls) : Bool :=
  !c.setOwner && !c.setLabels && !c.rotate && c.cookies.isEmpty

def applied (l : Live) (ownerID : Option Int) (labels : Option (List GoString)) : Live :=
  { l with
    ownerID := ownerID.getD l.ownerID
    labels := (labels.map fun given => fields (normalizeLabels given)).getD l.labels }

def cacheCookie (l : Live) (c : Store.CookieMutation) : Live :=
  if c.delete then { l with cookies := l.cookies.delete c.name, shas := l.shas.delete c.name }
  else { l with cookies := l.cookies.set c.name c.value, shas := l.shas.set c.name c.sha }

def rotated (l : Live) (newKey : GoString) : Live :=
  { l with keyID := newKey, newKey, rewrite := true }

def committed (l : Live) (c : SessionControls) (ownerID : Option Int)
    (labels : Option (List GoString)) : Live :=
  let l := c.cookies.foldl cacheCookie (l.applied ownerID labels)
  if c.rotate then l.rotated c.newKeyID else l

def commitControls (l : Live) (sess : Session) (now : Int) (c : SessionControls)
    (ownerID : Option Int) (labels : Option (List GoString)) : Act (Except Err Unit × Live) := do
  let sess := { sess with lastAccess := max sess.lastAccess c.lastAccess }
  match ← callStore (.applySessionControls l.sessionID c (Manager.ttl sess now)
      (int64 (sess.finalTimeout * second))) with
  | .error e => return (.error (.store e), l)
  | .ok () => return (.ok (), l.committed c ownerID labels)

def carryOut (l : Live) (sess : Session) (now : Int) (c : SessionControls)
    (ownerID : Option Int) (labels : Option (List GoString)) : Act (Except Err Unit × Live) := do
  if nothingToDo c then return (.ok (), l.applied ownerID labels)
  else if c.rotate then
    match ← newID with
    | .error e => return (.error e, l)
    | .ok newKeyID => commitControls l sess now { c with newKeyID } ownerID labels
  else commitControls l sess now c ownerID labels

def applyControls (m : Manager) (l : Live) (ownerID : Option Int)
    (labels : Option (List GoString)) (forceRotate checkPeriodic : Bool)
    (cookies : List CookieMutation) : Act (Except Err Unit × Live) := do
  let now ← act .now
  match ← callStore (.getSession l.sessionID) with
  | .error e => return (.error (.store e), l)
  | .ok sess =>
    carryOut l sess now (controls m l sess now ownerID labels forceRotate checkPeriodic cookies)
      ownerID labels

def applyResponse (m : Manager) (l : Live) (ownerID : Option Int)
    (labels : Option (List GoString)) (forceRotate : Bool) (cookies : List CookieMutation) :
    Act (Except Err Unit × Live) :=
  applyControls m l ownerID labels forceRotate true cookies

def applyResponseControls (m : Manager) (l : Live) (ownerID : Option Int)
    (labels : Option (List GoString)) (forceRotate : Bool) : Act (Except Err Unit × Live) :=
  applyControls m l ownerID labels forceRotate true []

def setLabels (m : Manager) (l : Live) (labels : List GoString) : Act (Except Err Bool × Live) := do
  match ← callStore (.getSession l.sessionID) with
  | .error e => return (.error (.store e), l)
  | .ok sess =>
    let (result, l) ← applyControls m l none (some labels) false false []
    return (result.map fun _ => decide (normalizeLabels labels ≠ sess.labels), l)

def storeCookie (m : Manager) (l : Live) (name value : GoString) : Act (Except Err Unit × Live) :=
  applyControls m l none none false false [{ name, value }]

def deleteCookie (m : Manager) (l : Live) (name : GoString) : Act (Except Err Unit × Live) :=
  applyControls m l none none false false [{ name, delete := true }]

/-- An owner transition rotates even when `Begin` has a key pending, so the pending key is cleared
around the commit and put back when the commit fails. -/
def bindOwner (m : Manager) (l : Live) (ownerID : Int) : Act (Except Err Bool × Live) := do
  if ownerID ≤ 0 then return (.ok false, l)
  else
    match ← callStore (.getSession l.sessionID) with
    | .error e => return (.error (.store e), l)
    | .ok sess =>
      let changed := decide (ownerID ≠ sess.ownerID)
      let cleared := if changed && m.cfg.rotateOnLogin && l.rewrite
        then { l with rewrite := false, newKey := [] } else l
      let (result, after) ← applyControls m cleared (some ownerID) none false false []
      match result with
      | .error e => return (.error e, { after with rewrite := l.rewrite, newKey := l.newKey })
      | .ok () => return (.ok (changed && m.cfg.rotateOnLogin), after)

def rotateKey (l : Live) (ttl : Duration) (lastRotation : Int) : Act (Except Err Unit × Live) := do
  match ← newID with
  | .error e => return (.error e, l)
  | .ok newKey =>
    match ← callStore (.rotateSessionKey l.sessionID l.keyID newKey lastRotation ttl) with
    | .error e => return (.error (.store e), l)
    | .ok () => return (.ok (), l.rotated newKey)

def maybeRotate (m : Manager) (l : Live) : Act (Except Err Unit × Live) := do
  if !l.rotateDue || l.rewrite then return (.ok (), l)
  else
    let now ← act .now
    match ← callStore (.getSession l.sessionID) with
    | .error e => return (.error (.store e), l)
    | .ok sess =>
      if int64 (now - sess.lastRotation) < Duration.truncSeconds m.cfg.rotateInterval then
        return (.ok (), l)
      else rotateKey l (Manager.ttl sess now) now

def forceRotate (l : Live) : Act (Except Err Unit × Live) := do
  if l.rewrite then return (.ok (), l)
  else
    let now ← act .now
    match ← callStore (.getSession l.sessionID) with
    | .error e => return (.error (.store e), l)
    | .ok sess => rotateKey l (Manager.ttl sess now) now

def revoke (l : Live) : Act (Except Err Unit × Live) := do
  match ← callStore (.deleteSession l.sessionID) with
  | .error e => return (.error (.store e), l)
  | .ok () =>
    return (.ok (), { l with keyID := [], newKey := [], rewrite := false, cookies := ∅, shas := ∅ })

end Live

end Gosestor.Session
