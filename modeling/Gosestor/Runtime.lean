import Gosestor.Go.Http
import Gosestor.Lib.Program
import Gosestor.Store.Basic

/-!
# The actions of a request

What the code does besides computing: store calls, clocks, random bytes, the staging budget, the
spool file of a staged body and the client's connection. Each is one atomic call of a program.
`next`, `returned`, `trip` and `processed` are marks that change nothing: the downstream handler is
called, it has returned, a staging bound or a spool operation has failed, and the response has been
processed.
-/

namespace Gosestor

open Gosestor.Go Gosestor.Lib Gosestor.Store

inductive Err
  | store (e : StoreErr)
  | random
  | lockContended
  | revokeUnresolved (cause : Err)
  | stagedResponseTooLarge
  | stagedResponseBudgetExhausted
  | hijackWithStagedBody
  | hijackUnsupported
  | tooManyInformationalResponses
  | stagedMetadataTooLarge
  | bodyNotAllowed
  | notSupported
  | unexpectedEOF
  | shortWrite
  | io
  | hijacked
  | badGateway (cause : Err)
  | downstream
  deriving DecidableEq

def Err.text : Err → Option GoString
  | .store .notFound => some (lit "store: not found")
  | .store .conflict => some (lit "store: conflict")
  | .lockContended => some (lit "session: lock contended")
  | .revokeUnresolved cause =>
      cause.text.map (lit "cannot revoke unresolved presented session: " ++ ·)
  | .stagedResponseTooLarge =>
      some (lit "session_store: downstream response exceeds 64 MiB staging limit")
  | .stagedResponseBudgetExhausted =>
      some (lit "session_store: aggregate response staging budget exhausted")
  | .hijackWithStagedBody => some (lit "session_store: cannot hijack with a staged response body")
  | .hijackUnsupported =>
      some (lit "session_store: underlying ResponseWriter does not support hijacking")
  | .tooManyInformationalResponses =>
      some (lit "session_store: too many informational responses")
  | .stagedMetadataTooLarge =>
      some (lit "session_store: downstream response metadata exceeds 1 MiB staging limit")
  | _ => none

inductive Call
  | store (c : StoreCall)
  | now
  | wallClock
  | randomRead
  | reserve (n : Int)
  | release (n : Int)
  | createTemp
  | removeTemp
  | fileWrite (p : List UInt8)
  | fileSeek
  | fileCopy (remaining : Nat)
  | fileClose
  | next (r : Request)
  | returned (err : Option Err) (header : Header)
  | trip (e : Err)
  | processed (err : Option Err)
  | writeHeader (status : Int) (header : Header)
  | write (p : List UInt8)
  | flush
  | hijack

abbrev Call.Answer : Call → Type
  | .store c => c.Answer
  | .now | .wallClock => Int
  | .randomRead => Option (List UInt8)
  | .reserve _ | .removeTemp => Bool
  | .release _ | .next _ | .returned _ _ | .trip _ | .processed _ | .writeHeader _ _ => Unit
  | .createTemp | .fileSeek | .fileClose | .flush | .hijack => Option Err
  | .fileWrite _ | .fileCopy _ | .write _ => Nat × Option Err

abbrev Act := Prog Call Call.Answer

def act (c : Call) : Act c.Answer := .perform c

def callStore (c : StoreCall) : Act c.Answer := act (.store c)

end Gosestor
