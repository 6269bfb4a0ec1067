import Gosestor.Handler.Interceptor
import Gosestor.World

/-!
# Responses that share the staging budget

Any number of responses, each of which does one staging operation after the other, in any order.
The calls of an operation interleave with those of the other responses, and every spool operation
may fail or fall short.
-/

namespace Gosestor

open Gosestor.Go Gosestor.Lib Relation

inductive StagingOp
  | write (p : List UInt8)
  | reserveMetadataBytes (n : Nat)
  | reset
  | close
  | releaseTerminalStaging
  deriving DecidableEq

def StagingOp.run (ic : Interceptor) : StagingOp → Act Interceptor
  | .write p => return { ic with body := (← ic.body.write p).2 }
  | .reserveMetadataBytes n => return (← ic.reserveMetadataBytes n).2
  | .reset => return { ic with body := ← ic.body.reset }
  | .close => return { ic with body := (← ic.body.close).2 }
  | .releaseTerminalStaging => ic.releaseTerminalStaging

structure BetweenOps where
  last : Option StagingOp
  ic : Interceptor

def StagingOp.prog (op : StagingOp) (ic : Interceptor) : Act BetweenOps :=
  return ⟨some op, ← op.run ic⟩

inductive StagingStep : Machine BetweenOps → Machine BetweenOps → Prop
  | start {c : Machine BetweenOps} (t : Nat) (idle : c.thread t = none) (ic : Interceptor)
      (fresh : ic.body = {}) :
      StagingStep c { c with thread := Function.update c.thread t (some (.ret ⟨none, ic⟩)) }
  | operate {c : Machine BetweenOps} (t : Nat) {done : BetweenOps}
      (between : c.thread t = some (.ret done)) (op : StagingOp) :
      StagingStep c { c with thread := Function.update c.thread t (some (op.prog done.ic)) }
  | act {c : Machine BetweenOps} (t : Nat) {request : Call} {next : request.Answer → Act BetweenOps}
      (running : c.thread t = some (.call request next)) {answer : request.Answer} {w : World}
      (step : exec anyFaults t c.state request answer w) :
      StagingStep c ⟨w, Function.update c.thread t (some (next answer))⟩

abbrev StagingReaches : Machine BetweenOps → Machine BetweenOps → Prop := ReflTransGen StagingStep

def Deed.charge : Deed → Int
  | ⟨.reserve n, true⟩ => n
  | ⟨.release n, _⟩ => -n
  | _ => 0

def held (past : History) : Int := (past.map Deed.charge).sum

/-- The `reserved` field of a response. Inside an operation it changes together with the budget. -/
def reservedOf (c : Machine BetweenOps) (t : Nat) : Int :=
  match c.thread t with
  | some (.ret done) => done.ic.body.reserved
  | _ => held (own t c.state)

end Gosestor
