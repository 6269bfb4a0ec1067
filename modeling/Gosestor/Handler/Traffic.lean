import Gosestor.Handler.Serve
import Gosestor.World

/-!
# Concurrent requests

Any number of requests, each with a handler, a connection and a downstream handler of its own, and
of owner revocations through the admin API, over one store.
-/

namespace Gosestor

open Gosestor.Go Gosestor.Lib Gosestor.Session

/-- The field `outer` is what the response header holds before the handler is called. -/
structure Exchange where
  handler : Handler
  conn : Conn
  outer : Header
  request : Request
  next : Request → Down

namespace Exchange

def prog (x : Exchange) : Act (Ended × Writer) :=
  x.handler.respondTo x.conn { header := x.outer } x.request x.next

def stripped (x : Exchange) : Request := x.handler.stripSpoofed x.request

def presented (x : Exchange) : Option GoString := x.handler.presentedKey x.stripped

end Exchange

inductive Visit
  | request (x : Exchange)
  | revokeOwner (ownerID : Int)

def Visit.prog : Visit → Act (Option (Ended × Writer))
  | .request x => return some (← x.prog)
  | .revokeOwner ownerID => do
      let _ ← Manager.revokeOwner ownerID
      return none

def traffic (visit : Nat → Visit) : System (exec anyFaults) (Option (Ended × Writer)) where
  prog t := (visit t).prog
  ready _ _ := True

def quietStart : Machine (Option (Ended × Writer)) := .initial {}

end Gosestor
