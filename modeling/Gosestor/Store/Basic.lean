import Gosestor.Go.Strings
import Gosestor.Lib.GoMap

/-!
# internal/store: the persistence contract

Sessions, controls and the calls the session manager makes on a store. The answer of a call is a
value or one of the errors; `fault` stands for any infrastructure error of the backing service.
-/

namespace Gosestor.Store

open Gosestor.Go Gosestor.Lib

inductive StoreErr
  | notFound | conflict | fault
  deriving DecidableEq, Repr

structure Session where
  id : GoString
  creation : Int
  lastAccess : Int
  inactiveTimeout : Int
  finalTimeout : Int
  ownerID : Int := 0
  lastRotation : Int
  labels : GoString := []
  deriving DecidableEq, Repr

structure CookieMutation where
  name : GoString
  value : GoString := []
  sha : GoString := []
  delete : Bool := false
  deriving DecidableEq, Repr

structure SessionControls where
  setOwner : Bool := false
  ownerID : Int := 0
  setLabels : Bool := false
  labels : GoString := []
  lastAccess : Int := 0
  lastRotation : Int := 0
  oldKeyID : GoString
  newKeyID : GoString := []
  rotate : Bool := false
  cookies : List CookieMutation := []
  deriving DecidableEq, Repr

inductive StoreCall
  | putSession (session : Session) (ttl : Duration)
  | touchSession (sessionID keyID : GoString) (lastAccess legacyRotation : Int) (ttl : Duration)
  | applySessionControls (sessionID : GoString) (controls : SessionControls)
      (sessionTTL ownerIndexTTL : Duration)
  | rotateSessionKey (sessionID oldKeyID newKeyID : GoString) (lastRotation : Int) (ttl : Duration)
  | getSession (sessionID : GoString)
  | deleteSession (sessionID : GoString)
  | putKey (keyID sessionID : GoString) (ttl : Duration)
  | getKey (keyID : GoString)
  | getCookies (sessionID : GoString)
  | cookieSHAs (sessionID : GoString)
  | ownerSessions (ownerID : Int)
  | deleteSessionByOwner (ownerID : Int) (sessionID : GoString)
  | lock (sessionID : GoString) (ttl : Duration)
  | unlock (sessionID : GoString)
  deriving DecidableEq

abbrev StoreCall.Value : StoreCall → Type
  | .getSession _ => Session
  | .getKey _ => GoString
  | .getCookies _ | .cookieSHAs _ => GoMap GoString GoString
  | .ownerSessions _ => List GoString
  | .deleteSessionByOwner _ _ | .lock _ _ => Bool
  | _ => Unit

abbrev StoreCall.Answer (c : StoreCall) : Type := Except StoreErr c.Value

inductive StoreMethod
  | call (c : StoreCall)
  | replaceKey (oldKeyID newKeyID sessionID : GoString) (ttl : Duration)
  | deleteKey (keyID : GoString)
  | putCookie (sessionID name value sha : GoString)
  | deleteCookie (sessionID name : GoString)
  | addOwnerIndex (ownerID : Int) (sessionID : GoString) (ttl : Duration)
  | removeOwnerIndex (ownerID : Int) (sessionID : GoString)
  | reassignOwner (session : Session) (sessionTTL ownerIndexTTL : Duration)

abbrev StoreMethod.Answer : StoreMethod → Type
  | .call c => c.Answer
  | _ => Except StoreErr Unit

end Gosestor.Store
