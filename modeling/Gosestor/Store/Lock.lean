import Gosestor.Lib.Interleaving
import Gosestor.Store.Redis

/-!
# internal/store: the session lock of the Redis store

`Lock` sets a key to a random token if the key does not exist, and the unlock function it returns
deletes the key if it still holds that token. The clients share one server. Each call takes effect
at one time, and time does not go back; a call may not reach the server, and its answer may be
lost. Tokens are fresh: none was drawn before.
-/

namespace Gosestor.Store

open Gosestor.Go Gosestor.Lib

def hexLower (n : Nat) : UInt8 := (lit "0123456789abcdef").getD n 0

def hexEncode (buf : List UInt8) : GoString :=
  buf.flatMap fun b => [hexLower (b.toNat / 16), hexLower (b.toNat % 16)]

/-- The expiration, in milliseconds, that `SetNX` of the client library asks for. A TTL of 0 and
`KeepTTL` are none, and one below a millisecond is made one. -/
def setNXExpiry (ttl : Duration) : Option Int :=
  if ttl = 0 ∨ ttl = -1 then none
  else some (if 0 < ttl ∧ ttl < 1000000 then 1 else ttl.milliseconds)

def setNXCommand (key text : GoString) (px : Option Int) :
    Redis.Script GoString (Except StoreErr Bool) := do
  if px.any (· ≤ 0) then return .error .fault
  else if ← Redis.call (.existsKey key) then return .ok false
  else
    Redis.call (.set key text px)
    return .ok true

def unlockScript (key token : GoString) : LuaScript := do
  if (← Redis.call (.get key)) = some token then
    Redis.call (.del key)
    return .int 1
  else return .int 0

inductive LockCall
  | randomRead
  | setNX (key token : GoString) (ttl : Duration)
  | evalUnlock (key token : GoString)
  | store (c : StoreCall)

namespace LockCall

abbrev Answer : LockCall → Type
  | .randomRead => Option (List UInt8)
  | .setNX _ _ _ => Except StoreErr Bool
  | .evalUnlock _ _ => Except StoreErr Unit
  | .store c => c.Answer

abbrev Client (α : Type) := Prog LockCall Answer α

end LockCall

def ask (c : LockCall) : LockCall.Client c.Answer := .perform c

namespace Redis

variable (r : Redis)

def lockKey (id : GoString) : GoString := r.namePrefix ++ lit "lock:" ++ id

def unlock (id token : GoString) : LockCall.Client (Except StoreErr Unit) :=
  ask (.evalUnlock (r.lockKey id) token)

/-- The token stands for the unlock function, which keeps it. -/
def lock (id : GoString) (ttl : Duration) :
    LockCall.Client (Except StoreErr (Option GoString)) := do
  match ← ask .randomRead with
  | none => return .error .fault
  | some buf =>
    let token := hexEncode buf
    match ← ask (.setNX (r.lockKey id) token ttl) with
    | .error e => return .error e
    | .ok false => return .ok none
    | .ok true => return .ok (some token)

end Redis

/-- An acquisition whose unlock function is called so many times, if at all, or one other call. -/
inductive LockClient
  | locker (id : GoString) (ttl : Duration) (unlocks : Nat)
  | other (c : StoreCall)

namespace LockClient

def unlockTimes (r : Redis) (id token : GoString) : Nat → LockCall.Client Unit
  | 0 => return ()
  | n + 1 => do
      let _ ← r.unlock id token
      unlockTimes r id token n

def prog (r : Redis) : LockClient → LockCall.Client Unit
  | .locker id ttl unlocks => do
      match ← r.lock id ttl with
      | .ok (some token) => unlockTimes r id token unlocks
      | _ => return ()
  | .other c => do
      let _ ← ask (.store c)
      return ()

end LockClient

abbrev LockDeed := Σ c : LockCall, c.Answer

structure LockStamp where
  tid : Nat
  deed : LockDeed
  time : Int
  ran : Bool
  before : Redis.Keyspace GoString
  after : Redis.Keyspace GoString

abbrev LockStamp.call (e : LockStamp) : LockCall := e.deed.1

structure LockServer where
  db : Redis.Keyspace GoString := .empty
  time : Int := 0
  log : List LockStamp := []

def LockDeed.drawn : LockDeed → Option GoString
  | ⟨.randomRead, some buf⟩ => some (hexEncode buf)
  | _ => none

def LockServer.tokens (s : LockServer) : List GoString := s.log.filterMap (·.deed.drawn)

def LockServer.own (t : Nat) (s : LockServer) : List LockDeed :=
  (s.log.filter (·.tid == t)).map LockStamp.deed

inductive Reached {α : Type} (time : Int) (db : Redis.Keyspace GoString)
    (script : Redis.Script GoString (Except StoreErr α)) :
    Except StoreErr α → Bool → Redis.Keyspace GoString → Prop
  | never : Reached time db script (.error .fault) false db
  | ran {answer : Except StoreErr α} (answered : answer = .error .fault ∨
      answer = (Redis.exec time script db).1.getD (.error .fault)) :
      Reached time db script answer true (Redis.exec time script db).2

def LockAnswered (r : Redis) (s : LockServer) (time : Int) :
    (c : LockCall) → c.Answer → Bool → Redis.Keyspace GoString → Prop
  | .randomRead, buf, ran, db =>
      (∀ b, buf = some b → b.length = 16 ∧ hexEncode b ∉ s.tokens) ∧ ran = false ∧ db = s.db
  | .setNX key token ttl, answer, ran, db =>
      Reached time s.db (setNXCommand key token (setNXExpiry ttl)) answer ran db
  | .evalUnlock key token, answer, ran, db =>
      Reached time s.db (Redis.errOf <$> unlockScript key token) answer ran db
  | .store c, _, ran, db => (ran = false ∧ db = s.db) ∨
      ∃ script, r.request c = some script ∧ ran = true ∧ db = (Redis.exec time script s.db).2

def lockServe (r : Redis) : Exec LockCall LockCall.Answer LockServer :=
  fun t s c answer s' => s.time ≤ s'.time ∧ ∃ ran, LockAnswered r s s'.time c answer ran s'.db ∧
    s'.log = ⟨t, ⟨c, answer⟩, s'.time, ran, s.db, s'.db⟩ :: s.log

def lockers (r : Redis) (client : Nat → LockClient) : System (lockServe r) Unit where
  prog t := (client t).prog r
  ready _ _ := True

end Gosestor.Store
