import Gosestor.Lib.Redis
import Gosestor.Store.Basic

/-!
# internal/store: the Redis store

The Lua scripts, with their `KEYS` and `ARGV` as parameters, and the methods that run them. A script
is one atomic step.

Lua numbers are doubles. All that occur here are integers, rounded to 53 bits. Integer arguments are
given as numbers; a script sees their decimal text, or through `tonumber` the nearest double.
`tonumber` is modelled on decimal `int64` texts, which are all the store writes into numeric fields.
-/

namespace Gosestor.Store

open Gosestor.Go Gosestor.Lib Gosestor.Lib.Redis

def roundNat (n : Nat) : Nat :=
  let unit := 2 ^ (n.log2 - 52)
  let (whole, part) := (n / unit, n % unit)
  if unit < 2 * part ∨ (2 * part = unit ∧ whole % 2 = 1) then (whole + 1) * unit else whole * unit

def double (n : Int) : Int := n.sign * roundNat n.natAbs

def tonumber (s : GoString) : Option Int := (parseInt s).map double

inductive ScriptResult
  | int (n : Int)
  | error (text : GoString)
  deriving DecidableEq

abbrev LuaScript := Script GoString ScriptResult

def kindName : Kind → GoString
  | .string => lit "string"
  | .hash => lit "hash"
  | .set => lit "set"
  | .other => lit "other"

def wrongType (key : GoString) (expected : Kind) : GoString :=
  lit "WRONGTYPE " ++ key ++ lit " must be " ++ kindName expected

def requireType (key : GoString) (expected : Kind) : Script GoString (Option GoString) := do
  let actual ← call (.typeOf key)
  return if actual ≠ none ∧ actual ≠ some expected then some (wrongType key expected) else none

def requireTypes : List (GoString × Kind) → Script GoString (Option GoString)
  | [] => return none
  | (key, expected) :: rest => do
      match ← requireType key expected with
      | some err => return some err
      | none => requireTypes rest

/-- A script that goes on only when every key is absent or of the expected type. -/
def checked (keys : List (GoString × Kind)) (rest : LuaScript) : LuaScript := do
  match ← requireTypes keys with
  | some err => return .error err
  | none => rest

def onlyIf (condition : Bool) (s : Script GoString Unit) : Script GoString Unit :=
  if condition then s else return ()

def numberField (key field : GoString) : Script GoString Int := do
  let text ← call (.hget key field)
  return (tonumber (text.getD (lit "0"))).getD 0

/-- The TTL that a refresh may set, bounded by the deadlines of the session, with the current and
the proposed access time. -/
def boundedTTL (sess : GoString) (lastAccess ttl : Int) : Script GoString (Int × Int × Int) := do
  let currentAccess ← numberField sess (lit "last_access")
  let proposedAccess := double lastAccess
  let effectiveAccess := max currentAccess proposedAccess
  let inactive ← numberField sess (lit "inactive_timeout")
  let inactiveMs := double (inactive * 1000)
  let creation ← numberField sess (lit "creation")
  let finalTimeout ← numberField sess (lit "final_timeout")
  let (seconds, micros) ← call .time
  let nowMs := double (double (double seconds * 1000) + micros / 1000)
  let finalMs := double (double (double (creation + finalTimeout) * 1000) - nowMs)
  let inactiveDeadlineMs := double (double (double (effectiveAccess * 1000) + inactiveMs) - nowMs)
  let ttlMs := double ttl
  let ttlMs := if 0 < inactiveMs ∧ inactiveDeadlineMs < ttlMs then inactiveDeadlineMs else ttlMs
  let ttlMs := if 0 < finalTimeout ∧ finalMs < ttlMs then finalMs else ttlMs
  return (currentAccess, proposedAccess, ttlMs)

def refreshTTL (ttl : Int) : List GoString → Script GoString Unit
  | [] => return ()
  | key :: keys => do
      let found ← call (.existsKey key)
      onlyIf found (call (.pexpire key ttl))
      refreshTTL ttl keys

def delEach : List GoString → Script GoString Unit
  | [] => return ()
  | key :: keys => do
      call (.del key)
      delEach keys

def putSessionScript (sess : GoString) (s : Session) (ttl : Int) : LuaScript :=
  checked [(sess, .hash)] do
    call (.hset sess
      [(lit "creation", formatInt s.creation), (lit "last_access", formatInt s.lastAccess),
       (lit "inactive_timeout", formatInt s.inactiveTimeout),
       (lit "final_timeout", formatInt s.finalTimeout), (lit "owner_id", formatInt s.ownerID),
       (lit "last_rotation", formatInt s.lastRotation), (lit "labels", s.labels)])
    onlyIf (0 < double ttl) (call (.pexpire sess ttl))
    return .int 1

def touchCommit (sess key attr sha keys : GoString)
    (lastAccess legacyRotation currentAccess proposedAccess ttlMs : Int) : LuaScript := do
  onlyIf (currentAccess < proposedAccess) do
    call (.hset sess [(lit "last_access", formatInt lastAccess)])
    refreshTTL ttlMs [sess, key, attr, sha, keys]
  let rotation ← call (.hget sess (lit "last_rotation"))
  onlyIf (rotation.all fun text => tonumber text = some 0)
    (call (.hset sess [(lit "last_rotation", formatInt legacyRotation)]))
  return .int 1

def touchSessionScript (sess key attr sha keys : GoString) (lastAccess legacyRotation ttl : Int)
    (id : GoString) : LuaScript :=
  checked [(sess, .hash), (key, .string), (attr, .hash), (sha, .hash), (keys, .set)] do
    if !(← call (.existsKey sess)) then return .int 0
    else if (← call (.get key)) ≠ some id then return .int (-1)
    else
      let (currentAccess, proposedAccess, ttlMs) ← boundedTTL sess lastAccess ttl
      if ttlMs ≤ 0 then return .int 0
      else
        touchCommit sess key attr sha keys lastAccess legacyRotation currentAccess proposedAccess
          ttlMs

def applyCookie (attr sha : GoString) (cookie : CookieMutation) : Script GoString Unit := do
  if cookie.delete then
    call (.hdel attr cookie.name)
    call (.hdel sha cookie.name)
  else
    call (.hset attr [(cookie.name, cookie.value)])
    call (.hset sha [(cookie.name, cookie.sha)])

def applyCookies (attr sha : GoString) : List CookieMutation → Script GoString Unit
  | [] => return ()
  | cookie :: rest => do
      applyCookie attr sha cookie
      applyCookies attr sha rest

def moveOwnerSet (sess ownerPrefix previous owner id : GoString) (ownerTTL : Int) :
    Script GoString Unit := do
  call (.hset sess [(lit "owner_id", owner)])
  call (.sadd (ownerPrefix ++ owner) id)
  onlyIf (0 < double ownerTTL) (call (.pexpire (ownerPrefix ++ owner) ownerTTL))
  onlyIf (previous ≠ lit "0") (call (.srem (ownerPrefix ++ previous) id))

def swapKey (oldKey newKey keys id oldKeyID newKeyID : GoString) (ttlMs : Int) :
    Script GoString Unit := do
  call (.set newKey id (some ttlMs))
  call (.del oldKey)
  call (.srem keys oldKeyID)
  call (.sadd keys newKeyID)

/-- What `applySessionControlsScript` does when all its checks have passed. The key in use
afterwards is refreshed with the rest of the session. -/
def applyCommit (sess oldKey newKey attr sha keys ownerPrefix id : GoString) (c : SessionControls)
    (newKeyID previous : GoString) (currentAccess proposedAccess ttlMs ownerTTL : Int) :
    LuaScript := do
  onlyIf (c.setOwner && previous ≠ formatInt c.ownerID)
    (moveOwnerSet sess ownerPrefix previous (formatInt c.ownerID) id ownerTTL)
  onlyIf c.setLabels (call (.hset sess [(lit "labels", c.labels)]))
  onlyIf (currentAccess < proposedAccess)
    (call (.hset sess [(lit "last_access", formatInt c.lastAccess)]))
  let currentRotation ← numberField sess (lit "last_rotation")
  onlyIf (currentRotation < double c.lastRotation)
    (call (.hset sess [(lit "last_rotation", formatInt c.lastRotation)]))
  onlyIf c.rotate (swapKey oldKey newKey keys id c.oldKeyID newKeyID ttlMs)
  applyCookies attr sha c.cookies
  onlyIf (c.rotate || !c.cookies.isEmpty || currentAccess < proposedAccess ||
      currentRotation < double c.lastRotation)
    (refreshTTL ttlMs [sess, if c.rotate then newKey else oldKey, attr, sha, keys])
  return .int 1

def ownerSets (ownerPrefix previous : GoString) (c : SessionControls) : List (GoString × Kind) :=
  if !c.setOwner then []
  else (ownerPrefix ++ formatInt c.ownerID, .set) ::
    if previous ≠ lit "0" ∧ previous ≠ formatInt c.ownerID then [(ownerPrefix ++ previous, .set)]
    else []

def keyTaken (oldKey newKey : GoString) (rotate : Bool) : Script GoString Bool :=
  if rotate && newKey ≠ oldKey then call (.existsKey newKey) else return false

def applySessionControlsScript (sess oldKey newKey attr sha keys ownerPrefix id : GoString)
    (c : SessionControls) (newKeyID : GoString) (ttl ownerTTL : Int) : LuaScript :=
  checked [(sess, .hash), (oldKey, .string), (newKey, .string), (attr, .hash), (sha, .hash),
      (keys, .set)] do
    if !(← call (.existsKey sess)) then return .int 0
    else if double ttl ≤ 0 then return .int 0
    else if (← call (.get oldKey)) ≠ some id then return .int (-1)
    else if c.rotate && c.oldKeyID = newKeyID then return .int (-1)
    else if ← keyTaken oldKey newKey c.rotate then return .int (-1)
    else
      let (currentAccess, proposedAccess, ttlMs) ← boundedTTL sess c.lastAccess ttl
      if ttlMs ≤ 0 then return .int 0
      else
        let owner ← call (.hget sess (lit "owner_id"))
        let previous := owner.getD (lit "0")
        checked (ownerSets ownerPrefix previous c)
          (applyCommit sess oldKey newKey attr sha keys ownerPrefix id c newKeyID previous
            currentAccess proposedAccess ttlMs ownerTTL)

def removeSession (sess attr sha keys keyPrefix : GoString) : Script GoString Unit := do
  let keyIDs ← call (.smembers keys)
  delEach (keyIDs.map (keyPrefix ++ ·))
  delEach [sess, attr, sha, keys]

def deleteSessionScript (sess attr sha keys keyPrefix ownerPrefix id : GoString) : LuaScript :=
  checked [(sess, .hash), (attr, .hash), (sha, .hash), (keys, .set)] do
    let field ← call (.hget sess (lit "owner_id"))
    let owner := field.getD (lit "0")
    checked (if owner ≠ lit "0" then [(ownerPrefix ++ owner, Kind.set)] else []) do
      removeSession sess attr sha keys keyPrefix
      onlyIf (owner ≠ lit "0") (call (.srem (ownerPrefix ++ owner) id))
      return .int 1

/-- A TTL of a key that does not expire is negative. -/
def setKey (key id : GoString) (ttl : Int) : Script GoString Unit :=
  if 0 < ttl then call (.set key id (some ttl)) else call (.set key id none)

def putKeyScript (sess key keys id keyID : GoString) : LuaScript :=
  checked [(sess, .hash), (key, .string), (keys, .set)] do
    if !(← call (.existsKey sess)) then return .int 0
    else
      let ttl ← call (.pttl sess)
      if ttl = 0 then return .int 0
      else
        setKey key id ttl
        call (.sadd keys keyID)
        onlyIf (0 < ttl) (call (.pexpire keys ttl))
        return .int 1

def replaceKeyScript (sess oldKey newKey keys id oldKeyID newKeyID : GoString) : LuaScript :=
  checked [(sess, .hash), (oldKey, .string), (newKey, .string), (keys, .set)] do
    if !(← call (.existsKey sess)) then return .int 0
    else if (← call (.get oldKey)) ≠ some id then return .int (-1)
    else if ← call (.existsKey newKey) then return .int (-1)
    else
      let ttl ← call (.pttl sess)
      if ttl = 0 then return .int 0
      else
        setKey newKey id ttl
        call (.del oldKey)
        call (.srem keys oldKeyID)
        call (.sadd keys newKeyID)
        onlyIf (0 < ttl) (call (.pexpire keys ttl))
        return .int 1

def deleteKeyScript (key sessPrefix keyID : GoString) : LuaScript := do
  let actual ← call (.typeOf key)
  if actual ≠ none ∧ actual ≠ some .string then return .error (wrongType key .string)
  else if actual = none then return .int 1
  else
    let sid ← call (.get key)
    let reverse := sessPrefix ++ sid.getD [] ++ lit ":keys"
    checked [(reverse, .set)] do
      call (.del key)
      call (.srem reverse keyID)
      return .int 1

def putCookieScript (sess attr sha name value hash : GoString) : LuaScript :=
  checked [(sess, .hash), (attr, .hash), (sha, .hash)] do
    if !(← call (.existsKey sess)) then return .int 0
    else
      let ttl ← call (.pttl sess)
      if ttl = 0 then return .int 0
      else
        call (.hset attr [(name, value)])
        call (.hset sha [(name, hash)])
        onlyIf (0 < ttl) do
          call (.pexpire attr ttl)
          call (.pexpire sha ttl)
        return .int 1

def deleteCookieScript (attr sha name : GoString) : LuaScript :=
  checked [(attr, .hash), (sha, .hash)] do
    call (.hdel attr name)
    call (.hdel sha name)
    return .int 1

def addOwnerIndexScript (owner id : GoString) (ttl : Int) : LuaScript :=
  checked [(owner, .set)] do
    call (.sadd owner id)
    onlyIf (0 < double ttl) (call (.pexpire owner ttl))
    return .int 1

def reassignCommit (sess owner ownerPrefix previous : GoString) (s : Session) (moved : Bool)
    (currentAccess proposedAccess ttlMs ownerTTL : Int) : LuaScript := do
  call (.hset sess [(lit "owner_id", formatInt s.ownerID)])
  call (.pexpire sess ttlMs)
  onlyIf (currentAccess < proposedAccess)
    (call (.hset sess [(lit "last_access", formatInt s.lastAccess)]))
  let currentRotation ← numberField sess (lit "last_rotation")
  onlyIf (currentRotation < double s.lastRotation)
    (call (.hset sess [(lit "last_rotation", formatInt s.lastRotation)]))
  call (.sadd owner s.id)
  onlyIf (0 < double ownerTTL) (call (.pexpire owner ownerTTL))
  onlyIf moved (call (.srem (ownerPrefix ++ previous) s.id))
  return .int 1

def reassignOwnerScript (sess owner ownerPrefix : GoString) (s : Session) (ttl ownerTTL : Int) :
    LuaScript :=
  checked [(sess, .hash), (owner, .set)] do
    if !(← call (.existsKey sess)) then return .int 0
    else
      let field ← call (.hget sess (lit "owner_id"))
      let previous := field.getD (lit "0")
      let moved : Bool := previous ≠ lit "0" ∧ previous ≠ formatInt s.ownerID
      let (currentAccess, proposedAccess, ttlMs) ← boundedTTL sess s.lastAccess ttl
      if ttlMs ≤ 0 then return .int 0
      else
        checked (if moved then [(ownerPrefix ++ previous, Kind.set)] else [])
          (reassignCommit sess owner ownerPrefix previous s moved currentAccess proposedAccess ttlMs
            ownerTTL)

def deleteSessionByOwnerScript (sess owner attr sha keys keyPrefix id : GoString)
    (ownerID : Int) : LuaScript :=
  checked [(sess, .hash), (owner, .set), (attr, .hash), (sha, .hash), (keys, .set)] do
    let current ← call (.hget sess (lit "owner_id"))
    if current.getD (lit "0") ≠ formatInt ownerID then
      call (.srem owner id)
      return .int 0
    else
      removeSession sess attr sha keys keyPrefix
      call (.srem owner id)
      return .int 1

structure Redis where
  namePrefix : GoString

namespace Redis

variable (r : Redis)

def sessKey (id : GoString) : GoString := r.namePrefix ++ lit "sess:" ++ id

def attrKey (id : GoString) : GoString := r.namePrefix ++ lit "sess:" ++ id ++ lit ":attr"

def shaKey (id : GoString) : GoString := r.namePrefix ++ lit "sess:" ++ id ++ lit ":sha"

def keyKey (k : GoString) : GoString := r.namePrefix ++ lit "key:" ++ k

def ownerKey (o : Int) : GoString := r.namePrefix ++ lit "owner:" ++ formatInt o

def reverseKey (id : GoString) : GoString := r.sessKey id ++ lit ":keys"

def keyPrefix : GoString := r.namePrefix ++ lit "key:"

def ownerPrefix : GoString := r.namePrefix ++ lit "owner:"

def sessPrefix : GoString := r.namePrefix ++ lit "sess:"

def evalPutSession (s : Session) (ttl : Duration) : LuaScript :=
  putSessionScript (r.sessKey s.id) s ttl.milliseconds

def evalTouchSession (id keyID : GoString) (lastAccess legacyRotation : Int) (ttl : Duration) :
    LuaScript :=
  touchSessionScript (r.sessKey id) (r.keyKey keyID) (r.attrKey id) (r.shaKey id) (r.reverseKey id)
    lastAccess legacyRotation ttl.milliseconds id

def evalApplySessionControls (id : GoString) (c : SessionControls) (ttl ownerTTL : Duration) :
    LuaScript :=
  let newKeyID := if c.rotate then c.newKeyID else c.oldKeyID
  applySessionControlsScript (r.sessKey id) (r.keyKey c.oldKeyID) (r.keyKey newKeyID)
    (r.attrKey id) (r.shaKey id) (r.reverseKey id) r.ownerPrefix id c newKeyID
    ttl.milliseconds ownerTTL.milliseconds

def evalRotateSessionKey (id oldKeyID newKeyID : GoString) (lastRotation : Int) (ttl : Duration) :
    LuaScript :=
  r.evalApplySessionControls id { lastRotation, oldKeyID, newKeyID, rotate := true } ttl 0

def evalDeleteSession (id : GoString) : LuaScript :=
  deleteSessionScript (r.sessKey id) (r.attrKey id) (r.shaKey id) (r.reverseKey id) r.keyPrefix
    r.ownerPrefix id

def evalPutKey (keyID id : GoString) : LuaScript :=
  putKeyScript (r.sessKey id) (r.keyKey keyID) (r.reverseKey id) id keyID

def evalDeleteSessionByOwner (ownerID : Int) (id : GoString) : LuaScript :=
  deleteSessionByOwnerScript (r.sessKey id) (r.ownerKey ownerID) (r.attrKey id) (r.shaKey id)
    (r.reverseKey id) r.keyPrefix id ownerID

def eval : StoreMethod → Option LuaScript
  | .call (.putSession s ttl) => some (r.evalPutSession s ttl)
  | .call (.touchSession id keyID lastAccess legacyRotation ttl) =>
      some (r.evalTouchSession id keyID lastAccess legacyRotation ttl)
  | .call (.applySessionControls id c ttl ownerTTL) =>
      some (r.evalApplySessionControls id c ttl ownerTTL)
  | .call (.rotateSessionKey id oldKeyID newKeyID lastRotation ttl) =>
      some (r.evalRotateSessionKey id oldKeyID newKeyID lastRotation ttl)
  | .call (.deleteSession id) => some (r.evalDeleteSession id)
  | .call (.putKey keyID id _) => some (r.evalPutKey keyID id)
  | .call (.deleteSessionByOwner ownerID id) => some (r.evalDeleteSessionByOwner ownerID id)
  | .replaceKey oldKeyID newKeyID id _ =>
      some (replaceKeyScript (r.sessKey id) (r.keyKey oldKeyID) (r.keyKey newKeyID)
        (r.reverseKey id) id oldKeyID newKeyID)
  | .deleteKey keyID => some (deleteKeyScript (r.keyKey keyID) r.sessPrefix keyID)
  | .putCookie id name value sha =>
      some (putCookieScript (r.sessKey id) (r.attrKey id) (r.shaKey id) name value sha)
  | .deleteCookie id name => some (deleteCookieScript (r.attrKey id) (r.shaKey id) name)
  | .addOwnerIndex ownerID id ttl =>
      some (addOwnerIndexScript (r.ownerKey ownerID) id ttl.milliseconds)
  | .reassignOwner s ttl ownerTTL =>
      some (reassignOwnerScript (r.sessKey s.id) (r.ownerKey s.ownerID) r.ownerPrefix s
        ttl.milliseconds ownerTTL.milliseconds)
  | _ => none

def errOf : ScriptResult → Except StoreErr Unit
  | .int _ => .ok ()
  | .error _ => .error .fault

def foundOf : ScriptResult → Except StoreErr Unit
  | .int n => if n = 0 then .error .notFound else .ok ()
  | .error _ => .error .fault

def casOf : ScriptResult → Except StoreErr Unit
  | .int n => if n = 0 then .error .notFound else if n = -1 then .error .conflict else .ok ()
  | .error _ => .error .fault

def deletedOf : ScriptResult → Except StoreErr Bool
  | .int n => .ok (n = 1)
  | .error _ => .error .fault

/-- What `strconv.ParseInt` reads, with its error ignored. -/
def atoi (vals : GoMap GoString GoString) (k : GoString) : Int :=
  ((vals.get k).bind parseInt).getD 0

def decode (id : GoString) (vals : GoMap GoString GoString) : Session where
  id := id
  creation := atoi vals (lit "creation")
  lastAccess := atoi vals (lit "last_access")
  inactiveTimeout := atoi vals (lit "inactive_timeout")
  finalTimeout := atoi vals (lit "final_timeout")
  ownerID := atoi vals (lit "owner_id")
  lastRotation := atoi vals (lit "last_rotation")
  labels := (vals.get (lit "labels")).getD []

def getSession (id : GoString) : Script GoString (Except StoreErr Session) := do
  let vals ← call (.hgetall (r.sessKey id))
  return if vals.len = 0 then .error .notFound else .ok (decode id vals)

def getKey (keyID : GoString) : Script GoString (Except StoreErr GoString) := do
  let sid ← call (.get (r.keyKey keyID))
  return sid.elim (.error .notFound) .ok

/-- What a call of the manager runs. `Lock` and its unlock have keys of their own, which nothing
else reads, and are left out. -/
def request : (c : StoreCall) → Option (Script GoString c.Answer)
  | .putSession s ttl => some (errOf <$> r.evalPutSession s ttl)
  | .touchSession id keyID lastAccess legacyRotation ttl =>
      some (casOf <$> r.evalTouchSession id keyID lastAccess legacyRotation ttl)
  | .applySessionControls id c ttl ownerTTL =>
      some (casOf <$> r.evalApplySessionControls id c ttl ownerTTL)
  | .rotateSessionKey id oldKeyID newKeyID lastRotation ttl =>
      some (casOf <$> r.evalRotateSessionKey id oldKeyID newKeyID lastRotation ttl)
  | .getSession id => some (r.getSession id)
  | .deleteSession id => some (errOf <$> r.evalDeleteSession id)
  | .putKey keyID id _ => some (foundOf <$> r.evalPutKey keyID id)
  | .getKey keyID => some (r.getKey keyID)
  | .getCookies id => some (.ok <$> call (.hgetall (r.attrKey id)))
  | .cookieSHAs id => some (.ok <$> call (.hgetall (r.shaKey id)))
  | .ownerSessions ownerID => some (.ok <$> call (.smembers (r.ownerKey ownerID)))
  | .deleteSessionByOwner ownerID id => some (deletedOf <$> r.evalDeleteSessionByOwner ownerID id)
  | .lock _ _ | .unlock _ => none

end Redis

end Gosestor.Store
