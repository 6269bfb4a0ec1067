import Gosestor.Authz
import Gosestor.Session.Manager

/-!
# The session_store handler: configuration

The user's configuration, its validation, and the handler that `Provision` makes of it. The store,
the logger and the admin registry are not part of the handler here.
-/

namespace Gosestor

open Gosestor.Go Gosestor.Lib

namespace Filter

inductive Decision
  | drop | forward | store
  deriving DecidableEq

end Filter

structure Filter where
  forward : List GoString
  store : List GoString

/-- Store wins over forward, so that an overlap never leaks a stored cookie. -/
def Filter.decide (f : Filter) (name : GoString) : Filter.Decision :=
  if name ∈ f.store then .store else if name ∈ f.forward then .forward else .drop

structure RedisConfig where
  address : GoString := []

structure CookieConfig where
  name : GoString := []
  path : GoString := []
  sameSite : GoString := []
  insecure : Bool := false

structure AuthzConfig where
  rules : List Authz.Rule := []
  defaultLabel : GoString := []
  authEndpoints : GoMap GoString GoString := ∅
  redirectParam : GoString := []

structure HandlerConfig where
  redis : RedisConfig := {}
  cookie : CookieConfig := {}
  forward : List GoString := []
  store : List GoString := []
  inactiveTimeout : Duration := 0
  finalTimeout : Duration := 0
  identityHeader : GoString := []
  rotateOnLogin : Option Bool := none
  rotateInterval : Duration := 0
  rotateHeader : GoString := []
  revokeHeader : GoString := []
  labelsHeader : GoString := []
  authz : Option AuthzConfig := none
  synchronize : Bool := false
  onStoreError : GoString := []

def defaultRotateHeader : GoString := lit "X-Session-Rotate"

def defaultRevokeHeader : GoString := lit "X-Session-Revoke"

def defaultLabelsHeader : GoString := lit "X-Session-Labels"

def failClosed : GoString := lit "fail_closed"

def failOpen : GoString := lit "fail_open"

inductive ConfigErr
  | redisAddress
  | onStoreError
  | sameSiteNone
  | negativeDuration
  | collides (kind name kind' : GoString)
  | authz (e : Authz.Error)

def ConfigErr.text : ConfigErr → Option GoString
  | .redisAddress => some (lit "session_store: redis address is required")
  | .onStoreError => some (lit "session_store: on_store_error must be fail_closed or fail_open")
  | .sameSiteNone =>
      some (lit "session_store: cookie same_site none requires a secure cookie (remove insecure)")
  | .negativeDuration => some (lit
      "session_store: inactive_timeout, final_timeout, and rotate_interval must not be negative")
  | _ => none

structure Handler where
  cookie : CookieConfig
  identityHeader : GoString
  rotateHeaderName : GoString
  rotateEnabled : Bool
  revokeHeaderName : GoString
  revokeEnabled : Bool
  labelsHeaderName : GoString
  authz : Option Authz
  onStoreError : GoString
  filter : Filter
  manager : Session.Manager
  parseTime : GoString → Option Int

namespace HandlerConfig

def off (header : GoString) : Bool := equalFold header (lit "off")

def effective (header default : GoString) : GoString :=
  if header = [] ∨ off header then default else header

def effRotate (cfg : HandlerConfig) : GoString := effective cfg.rotateHeader defaultRotateHeader

def effRevoke (cfg : HandlerConfig) : GoString := effective cfg.revokeHeader defaultRevokeHeader

/-- The labels header cannot be switched off. -/
def effLabels (cfg : HandlerConfig) : GoString :=
  if cfg.labelsHeader = [] then defaultLabelsHeader else cfg.labelsHeader

def buildAuthz (cfg : AuthzConfig) : Except Authz.Error Authz :=
  Authz.new
    { rules := cfg.rules
      defaultLabel := cfg.defaultLabel
      authEndpoints := cfg.authEndpoints
      redirectParam := cfg.redirectParam }

def managedHeaders (cfg : HandlerConfig) : List (GoString × GoString) :=
  [(lit "identity_header", cfg.identityHeader), (lit "rotate_header", cfg.effRotate),
   (lit "revoke_header", cfg.effRevoke), (lit "labels_header", cfg.effLabels)]

def checkCollisions : List (GoString × GoString) → Except ConfigErr Unit
  | [] => .ok ()
  | (kind, name) :: rest =>
      match rest.find? fun other => equalFold name other.2 with
      | some (kind', _) => .error (.collides kind name kind')
      | none => checkCollisions rest

def validate (cfg : HandlerConfig) : Except ConfigErr Unit :=
  if cfg.redis.address = [] then .error .redisAddress
  else if cfg.onStoreError ≠ failClosed ∧ cfg.onStoreError ≠ failOpen then .error .onStoreError
  else if equalFold cfg.cookie.sameSite (lit "none") ∧ cfg.cookie.insecure then
    .error .sameSiteNone
  else if cfg.inactiveTimeout < 0 ∨ cfg.finalTimeout < 0 ∨ cfg.rotateInterval < 0 then
    .error .negativeDuration
  else do
    checkCollisions cfg.managedHeaders
    match cfg.authz with
    | none => return ()
    | some authz =>
        match buildAuthz authz with
        | .error e => throw (.authz e)
        | .ok _ => return ()

/-- The functions `sum256` and `parseTime` are those of the library that the handler calls. -/
def provision (sum256 : GoString → List UInt8) (parseTime : GoString → Option Int)
    (cfg : HandlerConfig) : Except ConfigErr Handler := do
  let authz ← match cfg.authz with
    | none => pure none
    | some authz =>
        match buildAuthz authz with
        | .error e => throw (.authz e)
        | .ok a => pure (some a)
  return {
    cookie := { cfg.cookie with path := if cfg.cookie.path = [] then lit "/" else cfg.cookie.path }
    identityHeader := cfg.identityHeader
    rotateHeaderName := cfg.effRotate
    rotateEnabled := !off cfg.rotateHeader
    revokeHeaderName := cfg.effRevoke
    revokeEnabled := !off cfg.revokeHeader
    labelsHeaderName := cfg.effLabels
    authz
    onStoreError := cfg.onStoreError
    filter := ⟨cfg.forward, cfg.store⟩
    manager :=
      { cfg :=
          { inactive := if cfg.inactiveTimeout = 0 then 1800 * second else cfg.inactiveTimeout
            final := if cfg.finalTimeout = 0 then 28800 * second else cfg.finalTimeout
            synchronize := cfg.synchronize
            rotateOnLogin := cfg.rotateOnLogin.getD true
            rotateInterval := cfg.rotateInterval }
        sum256 }
    parseTime }

end HandlerConfig

end Gosestor
