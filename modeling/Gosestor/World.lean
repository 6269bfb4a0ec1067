import Gosestor.Lib.Interleaving
import Gosestor.Runtime
import Gosestor.Store.Memory

/-!
# The shared world

The store, the staging budget, and the log of every call made, newest first, with the store
before and after it. `respond` resolves what is not determined by the world: clock readings,
random bytes, faults and the order of a `range` loop. Random ids are fresh: none encodes to an id
that was handed out before. Clocks read Unix seconds, at or after the epoch.
-/

namespace Gosestor

open Gosestor.Go Gosestor.Lib Gosestor.Store

abbrev Deed := Σ c : Call, c.Answer

structure Event where
  tid : Nat
  deed : Deed
  before : Memory
  after : Memory

abbrev Event.call (e : Event) : Call := e.deed.1

structure World where
  mem : Memory := newMemory
  stagedBytes : Int := 0
  log : List Event := []

def Deed.minted : Deed → Option GoString
  | ⟨.randomRead, some buf⟩ => some (encodeToString buf)
  | _ => none

abbrev History := List Deed

def ownDeeds (t : Nat) (log : List Event) : History := (log.filter (·.tid == t)).map Event.deed

def own (t : Nat) (w : World) : History := ownDeeds t w.log

def World.minted (w : World) : List GoString := w.log.filterMap (·.deed.minted)

/-- A store call can fail before it took effect (`clean`) or after it (`lost`). -/
inductive Fault
  | none | clean | lost
  deriving DecidableEq

structure Choice where
  clock : Int := 0
  random : Option (List UInt8) := none
  fault : Fault := .none
  order : List GoString := []
  moved : Nat := 0
  ioErr : Option Err := none
  removed : Bool := true

def stagedResponseAggregateBytes : Int := 256 * 2 ^ 20

/-- The answer of `OwnerSessions` ranges over a map, so it may come in any order. -/
def reorder (order : List GoString) : (c : StoreCall) → c.Answer → Option c.Answer
  | .ownerSessions _, .ok sids => if order.isPerm sids then some (.ok order) else none
  | _, r => some r

def respondStore (faults : Fault → Bool) (m : Memory) (c : StoreCall) (o : Choice) :
    Option (c.Answer × Memory) :=
  if !faults o.fault then none
  else match o.fault with
    | .none => (reorder o.order c (m.perform c).1).map fun r => (r, (m.perform c).2)
    | .clean => some (.error .fault, m)
    | .lost => some (.error .fault, (m.perform c).2)

def respond (faults : Fault → Bool) (w : World) : (c : Call) → Choice → Option (c.Answer × World)
  | .store c, o => (respondStore faults w.mem c o).map fun (r, mem) => (r, { w with mem })
  | .now, o => if 0 ≤ o.clock then some (o.clock, w) else none
  | .wallClock, o => if 0 ≤ o.clock then some (o.clock, w) else none
  | .randomRead, o => match o.random with
      | none => some (none, w)
      | some buf =>
          if buf.length = 32 ∧ encodeToString buf ∉ w.minted then some (some buf, w) else none
  | .reserve n, _ =>
      if n > stagedResponseAggregateBytes - w.stagedBytes then some (false, w)
      else some (true, { w with stagedBytes := w.stagedBytes + n })
  | .release n, _ => some ((), { w with stagedBytes := w.stagedBytes - n })
  | .createTemp, o => some (o.ioErr, w)
  | .removeTemp, o => some (o.removed, w)
  | .fileWrite p, o =>
      if o.moved ≤ p.length ∧ (o.moved < p.length → o.ioErr ≠ none)
      then some ((o.moved, o.ioErr), w) else none
  | .fileSeek, o => some (o.ioErr, w)
  | .fileCopy remaining, o =>
      if o.moved ≤ remaining then some ((o.moved, o.ioErr), w) else none
  | .fileClose, o => some (o.ioErr, w)
  | .next _, _ | .returned _ _, _ | .trip _, _ | .processed _, _ => some ((), w)
  | .writeHeader _ _, _ => some ((), w)
  | .write p, o =>
      if o.moved ≤ p.length ∧ (o.moved < p.length → o.ioErr ≠ none)
      then some ((o.moved, o.ioErr), w) else none
  | .flush, o => some (o.ioErr, w)
  | .hijack, o => some (o.ioErr, w)

def record (t : Nat) (w : World) (c : Call) (r : c.Answer) (w' : World) : World :=
  { w' with log := ⟨t, ⟨c, r⟩, w.mem, w'.mem⟩ :: w.log }

def exec (faults : Fault → Bool) : Exec Call Call.Answer World := fun t w c r w' =>
  ∃ o w₁, respond faults w c o = some (r, w₁) ∧ w' = record t w c r w₁

/-- Faults have no effect. -/
def cleanFaults (f : Fault) : Bool := f ≠ .lost

def anyFaults (_ : Fault) : Bool := true

abbrev Machine (α : Type) := Config Call Call.Answer World α

inductive Move
  | start (t : Nat)
  | act (t : Nat) (o : Choice)

def Move.tid : Move → Nat
  | .start t => t
  | .act t _ => t

def move {α : Type} (faults : Fault → Bool) (ready : World → Nat → Bool) (prog : Nat → Act α)
    (c : Machine α) : Move → Option (Machine α)
  | .start t => match c.thread t with
      | none =>
          if ready c.state t
          then some { c with thread := Function.update c.thread t (some (prog t)) } else none
      | some _ => none
  | .act t o => match c.thread t with
      | some (.call request next) =>
          (respond faults c.state request o).map fun (r, w) =>
            ⟨record t c.state request r w, Function.update c.thread t (some (next r))⟩
      | _ => none

def play {α : Type} (faults : Fault → Bool) (ready : World → Nat → Bool) (prog : Nat → Act α) :
    Machine α → List Move → Option (Machine α)
  | c, [] => some c
  | c, m :: ms => (move faults ready prog c m).bind fun c' => play faults ready prog c' ms

def playAlone {α : Type} (faults : Fault → Bool) (t : Nat) : Act α → World → List Choice → Option (α × World)
  | .ret value, w, _ => some (value, w)
  | .call _ _, _, [] => none
  | .call c next, w, o :: os =>
      (respond faults w c o).bind fun (r, w') => playAlone faults t (next r) (record t w c r w') os

theorem run_of_playAlone {α : Type} {faults : Fault → Bool} {t : Nat} {p : Act α} {w w' : World}
    {choices : List Choice} {value : α}
    (played : playAlone faults t p w choices = some (value, w')) : p.Run (exec faults t) w value w' := by
  induction p generalizing w choices with
  | ret value =>
      cases played
      exact .ret _ _
  | call c next ih =>
      cases choices with
      | nil => cases played
      | cons o os =>
          simp only [playAlone, Option.bind_eq_some_iff] at played
          obtain ⟨⟨r, w₁⟩, answered, rest⟩ := played
          exact .call ⟨o, w₁, answered, rfl⟩ (ih r rest)

theorem playAlone_bind {α β : Type} {faults : Fault → Bool} {t : Nat} {p : Act α} {f : α → Act β}
    {w w' : World} {choices : List Choice} {value : β}
    (played : playAlone faults t (p >>= f) w choices = some (value, w')) :
    ∃ a w₁, playAlone faults t p w choices = some (a, w₁) ∧ (f a).Run (exec faults t) w₁ value w' := by
  induction p generalizing w choices with
  | ret a => exact ⟨a, w, rfl, run_of_playAlone played⟩
  | call c next ih =>
      cases choices with
      | nil => cases played
      | cons o os =>
          simp only [Prog.call_bind, playAlone, Option.bind_eq_some_iff] at played
          obtain ⟨⟨r, w₁⟩, answered, rest⟩ := played
          obtain ⟨a, w₂, first, second⟩ := ih r rest
          exact ⟨a, w₂, by simp [playAlone, answered, first], second⟩

section Play

variable {α : Type} {faults : Fault → Bool} {S : System (exec faults) α}
  {ready : World → Nat → Bool} (sound : ∀ {w t}, ready w t → S.ready w t)

include sound

theorem move_step {c c' : Machine α} {m : Move}
    (moved : move faults ready S.prog c m = some c') :
    S.Step c c' ∧ ∀ t ≠ m.tid, c'.thread t = c.thread t := by
  cases m with
  | start t =>
      cases idle : c.thread t with
      | none =>
          simp only [move, idle, Option.ite_none_right_eq_some, Option.some.injEq] at moved
          obtain ⟨isReady, rfl⟩ := moved
          exact ⟨.start t idle (sound isReady), fun u other => Function.update_of_ne other _ _⟩
      | some p => simp [move, idle] at moved
  | act t o =>
      cases running : c.thread t with
      | none => simp [move, running] at moved
      | some p =>
          cases p with
          | ret value => simp [move, running] at moved
          | call request next =>
              simp only [move, running, Option.map_eq_some_iff] at moved
              obtain ⟨⟨r, w⟩, answered, rfl⟩ := moved
              exact ⟨.act t running ⟨o, w, answered, rfl⟩,
                fun u other => Function.update_of_ne other _ _⟩

theorem play_reaches {c c' : Machine α} {moves : List Move}
    (played : play faults ready S.prog c moves = some c') :
    S.Reaches c c' ∧ ∀ t, (∀ m ∈ moves, t ≠ m.tid) → c'.thread t = c.thread t := by
  induction moves generalizing c with
  | nil =>
      cases played
      exact ⟨.refl, fun _ _ => rfl⟩
  | cons m ms ih =>
      simp only [play, Option.bind_eq_some_iff] at played
      obtain ⟨mid, moved, rest⟩ := played
      obtain ⟨step, frame⟩ := move_step sound moved
      obtain ⟨reaches, frames⟩ := ih rest
      refine ⟨.head step reaches, fun t others => ?_⟩
      rw [frames t fun m' member => others m' (List.mem_cons_of_mem m member)]
      exact frame t (others m List.mem_cons_self)

theorem reaches_of_played {c : Machine α} {moves : List Move} {P : Machine α → Bool}
    (played : (play faults ready S.prog c moves).any P) :
    ∃ c', S.Reaches c c' ∧ (∀ t, (∀ m ∈ moves, t ≠ m.tid) → c'.thread t = c.thread t) ∧ P c' := by
  obtain ⟨c', ended, holds⟩ := (Option.any_eq_true _ _).mp played
  exact ⟨c', (play_reaches sound ended).1, (play_reaches sound ended).2, holds⟩

end Play

end Gosestor
