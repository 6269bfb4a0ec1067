import Gosestor.Store.Basic

/-!
# internal/store: the Memory store

Every method runs under the store's mutex, so it is one atomic step on the five maps. TTL
arguments are ignored, as the source does.
-/

namespace Gosestor.Store

open Gosestor.Go Gosestor.Lib

abbrev CookieTable := GoMap GoString (GoMap GoString GoString)

structure Memory where
  sessions : GoMap GoString Session := ∅
  keys : GoMap GoString GoString := ∅
  cookies : CookieTable := ∅
  shas : CookieTable := ∅
  owners : GoMap Int (GoMap GoString Unit) := ∅
  locks : GoMap GoString Unit := ∅
  deriving DecidableEq

def newMemory : Memory := {}

namespace CookieTable

def put (table : CookieTable) (id name value : GoString) : CookieTable :=
  table.set id (((table.get id).getD ∅).set name value)

def drop (table : CookieTable) (id name : GoString) : CookieTable :=
  match table.get id with
  | none => table
  | some cookies => table.set id (cookies.delete name)

/-- An assignment into the map of a session; into a nil map it panics. -/
def assign (table : CookieTable) (id name value : GoString) : Option CookieTable :=
  (table.get id).map fun cookies => table.set id (cookies.set name value)

end CookieTable

namespace Memory

def putSession (m : Memory) (s : Session) : Except StoreErr Unit × Memory :=
  (.ok (), { m with sessions := m.sessions.set s.id s })

def touched (s : Session) (lastAccess legacyRotation : Int) : Session :=
  { s with
    lastAccess := if lastAccess > s.lastAccess then lastAccess else s.lastAccess
    lastRotation := if s.lastRotation = 0 then legacyRotation else s.lastRotation }

def touchSession (m : Memory) (id keyID : GoString) (lastAccess legacyRotation : Int) :
    Except StoreErr Unit × Memory :=
  match m.sessions.get id with
  | none => (.error .notFound, m)
  | some s =>
      if m.keys.get keyID ≠ some id then (.error .conflict, m)
      else (.ok (), { m with sessions := m.sessions.set id (touched s lastAccess legacyRotation) })

def unindex (owners : GoMap Int (GoMap GoString Unit)) (owner : Int) (id : GoString) :
    GoMap Int (GoMap GoString Unit) :=
  match owners.get owner with
  | none => owners
  | some set =>
      if (set.delete id).len = 0 then owners.delete owner else owners.set owner (set.delete id)

def index (owners : GoMap Int (GoMap GoString Unit)) (owner : Int) (id : GoString) :
    GoMap Int (GoMap GoString Unit) :=
  owners.set owner (((owners.get owner).getD ∅).set id ())

def moveOwner (owners : GoMap Int (GoMap GoString Unit)) (id : GoString) (previous next : Int) :
    GoMap Int (GoMap GoString Unit) :=
  index (if previous ≠ 0 then unindex owners previous id else owners) next id

def controlled (s : Session) (c : SessionControls) : Session :=
  { s with
    ownerID := if c.setOwner ∧ c.ownerID ≠ s.ownerID then c.ownerID else s.ownerID
    labels := if c.setLabels then c.labels else s.labels
    lastAccess := if c.lastAccess > s.lastAccess then c.lastAccess else s.lastAccess
    lastRotation := if c.lastRotation > s.lastRotation then c.lastRotation else s.lastRotation }

def applyCookie (id : GoString) (m : Memory) (cookie : CookieMutation) : Memory :=
  if cookie.delete then
    { m with
      cookies := CookieTable.drop m.cookies id cookie.name
      shas := CookieTable.drop m.shas id cookie.name }
  else
    { m with
      cookies := CookieTable.put m.cookies id cookie.name cookie.value
      shas := CookieTable.put m.shas id cookie.name cookie.sha }

def commit (m : Memory) (id : GoString) (s : Session) (c : SessionControls) : Memory :=
  let owners := if c.setOwner ∧ c.ownerID ≠ s.ownerID
    then moveOwner m.owners id s.ownerID c.ownerID else m.owners
  let keys := if c.rotate then (m.keys.set c.newKeyID id).delete c.oldKeyID else m.keys
  let m := c.cookies.foldl (applyCookie id) { m with owners, keys }
  { m with sessions := m.sessions.set id (controlled s c) }

def applySessionControls (m : Memory) (id : GoString) (c : SessionControls) :
    Except StoreErr Unit × Memory :=
  match m.sessions.get id with
  | none => (.error .notFound, m)
  | some s =>
      if m.keys.get c.oldKeyID ≠ some id then (.error .conflict, m)
      else if c.rotate ∧ m.keys.get c.newKeyID ≠ none then (.error .conflict, m)
      else (.ok (), m.commit id s c)

def rotateSessionKey (m : Memory) (id oldKeyID newKeyID : GoString) (lastRotation : Int) :
    Except StoreErr Unit × Memory :=
  m.applySessionControls id { lastRotation, oldKeyID, newKeyID, rotate := true }

def getSession (m : Memory) (id : GoString) : Except StoreErr Session :=
  match m.sessions.get id with
  | none => .error .notFound
  | some s => .ok s

/-- Both `DeleteSession` and `DeleteSessionByOwner` leave an owner set behind even when it is empty.
-/
def prune (owners : GoMap Int (GoMap GoString Unit)) (owner : Int) (id : GoString) :
    GoMap Int (GoMap GoString Unit) :=
  match owners.get owner with
  | none => owners
  | some set => owners.set owner (set.delete id)

def cascade (m : Memory) (id : GoString) : Memory :=
  { m with
    sessions := m.sessions.delete id
    cookies := m.cookies.delete id
    shas := m.shas.delete id
    keys := m.keys.deleteIf fun _ sid => sid == id }

def deleteSession (m : Memory) (id : GoString) : Except StoreErr Unit × Memory :=
  let owners := match m.sessions.get id with
    | some s => if s.ownerID ≠ 0 then prune m.owners s.ownerID id else m.owners
    | none => m.owners
  (.ok (), { m with owners }.cascade id)

def putKey (m : Memory) (keyID sessionID : GoString) : Except StoreErr Unit × Memory :=
  if m.sessions.get sessionID = none then (.error .notFound, m)
  else (.ok (), { m with keys := m.keys.set keyID sessionID })

def getKey (m : Memory) (keyID : GoString) : Except StoreErr GoString :=
  match m.keys.get keyID with
  | none => .error .notFound
  | some sid => .ok sid

def getCookies (m : Memory) (sessionID : GoString) : GoMap GoString GoString :=
  (m.cookies.get sessionID).getD ∅

def cookieSHAs (m : Memory) (sessionID : GoString) : GoMap GoString GoString :=
  (m.shas.get sessionID).getD ∅

def ownerSessions (m : Memory) (ownerID : Int) : List GoString :=
  ((m.owners.get ownerID).getD ∅).keys

def deleteSessionByOwner (m : Memory) (ownerID : Int) (sessionID : GoString) :
    Except StoreErr Bool × Memory :=
  let m := { m with owners := prune m.owners ownerID sessionID }
  match m.sessions.get sessionID with
  | none => (.ok false, m)
  | some s => if s.ownerID ≠ ownerID then (.ok false, m) else (.ok true, m.cascade sessionID)

def lock (m : Memory) (sessionID : GoString) : Except StoreErr Bool × Memory :=
  if m.locks.get sessionID ≠ none then (.ok false, m)
  else (.ok true, { m with locks := m.locks.set sessionID () })

def unlock (m : Memory) (sessionID : GoString) : Except StoreErr Unit × Memory :=
  (.ok (), { m with locks := m.locks.delete sessionID })

def perform (m : Memory) : (c : StoreCall) → c.Answer × Memory
  | .putSession s _ => m.putSession s
  | .touchSession id keyID lastAccess legacyRotation _ =>
      m.touchSession id keyID lastAccess legacyRotation
  | .applySessionControls id c _ _ => m.applySessionControls id c
  | .rotateSessionKey id oldKeyID newKeyID lastRotation _ =>
      m.rotateSessionKey id oldKeyID newKeyID lastRotation
  | .getSession id => (m.getSession id, m)
  | .deleteSession id => m.deleteSession id
  | .putKey keyID id _ => m.putKey keyID id
  | .getKey keyID => (m.getKey keyID, m)
  | .getCookies id => (.ok (m.getCookies id), m)
  | .cookieSHAs id => (.ok (m.cookieSHAs id), m)
  | .ownerSessions owner => (.ok (m.ownerSessions owner), m)
  | .deleteSessionByOwner owner id => m.deleteSessionByOwner owner id
  | .lock id _ => m.lock id
  | .unlock id => m.unlock id

def replaceKey (m : Memory) (oldKeyID newKeyID sessionID : GoString) :
    Except StoreErr Unit × Memory :=
  if m.sessions.get sessionID = none then (.error .notFound, m)
  else if m.keys.get oldKeyID ≠ some sessionID then (.error .conflict, m)
  else if m.keys.get newKeyID ≠ none then (.error .conflict, m)
  else (.ok (), { m with keys := (m.keys.set newKeyID sessionID).delete oldKeyID })

def deleteKey (m : Memory) (keyID : GoString) : Except StoreErr Unit × Memory :=
  (.ok (), { m with keys := m.keys.delete keyID })

/-- Both maps are made when the cookie map is nil; the hash map is not looked at. -/
def openCookies (m : Memory) (sessionID : GoString) : Memory :=
  if m.cookies.get sessionID = none then
    { m with cookies := m.cookies.set sessionID ∅, shas := m.shas.set sessionID ∅ }
  else m

def putCookie (m : Memory) (sessionID name value sha : GoString) :
    Option (Except StoreErr Unit × Memory) :=
  if m.sessions.get sessionID = none then some (.error .notFound, m)
  else do
    let m := m.openCookies sessionID
    let cookies ← CookieTable.assign m.cookies sessionID name value
    let shas ← CookieTable.assign m.shas sessionID name sha
    return (.ok (), { m with cookies, shas })

def deleteCookie (m : Memory) (sessionID name : GoString) : Except StoreErr Unit × Memory :=
  (.ok (), { m with
    cookies := CookieTable.drop m.cookies sessionID name
    shas := CookieTable.drop m.shas sessionID name })

def addOwnerIndex (m : Memory) (ownerID : Int) (sessionID : GoString) :
    Except StoreErr Unit × Memory :=
  (.ok (), { m with owners := index m.owners ownerID sessionID })

def removeOwnerIndex (m : Memory) (ownerID : Int) (sessionID : GoString) :
    Except StoreErr Unit × Memory :=
  (.ok (), { m with owners := prune m.owners ownerID sessionID })

def reassigned (previous s : Session) : Session :=
  { previous with
    ownerID := s.ownerID
    lastAccess := if s.lastAccess > previous.lastAccess then s.lastAccess else previous.lastAccess
    lastRotation :=
      if s.lastRotation > previous.lastRotation then s.lastRotation else previous.lastRotation }

def reassignOwner (m : Memory) (s : Session) : Except StoreErr Unit × Memory :=
  match m.sessions.get s.id with
  | none => (.error .notFound, m)
  | some previous =>
      let owners := if previous.ownerID > 0 ∧ previous.ownerID ≠ s.ownerID
        then prune m.owners previous.ownerID s.id else m.owners
      (.ok (), { m with
        sessions := m.sessions.set s.id (reassigned previous s)
        owners := index owners s.ownerID s.id })

/-- A panic is `none`. -/
def invoke (m : Memory) : (c : StoreMethod) → Option (c.Answer × Memory)
  | .call c => some (m.perform c)
  | .replaceKey oldKeyID newKeyID sessionID _ => some (m.replaceKey oldKeyID newKeyID sessionID)
  | .deleteKey keyID => some (m.deleteKey keyID)
  | .putCookie sessionID name value sha => m.putCookie sessionID name value sha
  | .deleteCookie sessionID name => some (m.deleteCookie sessionID name)
  | .addOwnerIndex ownerID sessionID _ => some (m.addOwnerIndex ownerID sessionID)
  | .removeOwnerIndex ownerID sessionID => some (m.removeOwnerIndex ownerID sessionID)
  | .reassignOwner s _ _ => some (m.reassignOwner s)

def invokeAll (m : Memory) (calls : List StoreMethod) : Option Memory :=
  calls.foldlM (fun m c => (m.invoke c).map (·.2)) m

end Memory

end Gosestor.Store
