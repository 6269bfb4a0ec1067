import Gosestor.Lib.Program

/-!
# Interleaved programs

`System` runs numbered programs over one shared state, one atomic call at a time, in any order.
A `View` is the part of the state that only one program's own calls change, such as the history
of its calls and answers. Each program is verified alone over its own view; `Good.reaches` puts
the programs together with an invariant of the shared state.
-/

namespace Gosestor.Lib

open Relation

variable {C : Type} {R : C → Type} {σ τ α : Type}

abbrev Exec (C : Type) (R : C → Type) (σ : Type) :=
  Nat → σ → (c : C) → R c → σ → Prop

/-- Program `t` of the system is `prog t`; it may start in the states where it is `ready`. -/
structure System (exec : Exec C R σ) (α : Type) where
  prog : Nat → Prog C R α
  ready : σ → Nat → Prop

structure Config (C : Type) (R : C → Type) (σ α : Type) where
  state : σ
  thread : Nat → Option (Prog C R α)

def Config.initial (s : σ) : Config C R σ α := ⟨s, fun _ => none⟩

namespace System

variable {exec : Exec C R σ} (S : System exec α)

inductive Step : Config C R σ α → Config C R σ α → Prop
  | start {c : Config C R σ α} (t : Nat) (idle : c.thread t = none)
      (isReady : S.ready c.state t) :
      Step c { c with thread := Function.update c.thread t (some (S.prog t)) }
  | act {c : Config C R σ α} (t : Nat) {request : C} {next : R request → Prog C R α}
      (running : c.thread t = some (.call request next)) {answer : R request} {s' : σ}
      (step : exec t c.state request answer s') :
      Step c ⟨s', Function.update c.thread t (some (next answer))⟩

abbrev Reaches : Config C R σ α → Config C R σ α → Prop := ReflTransGen S.Step

end System

/-- The steps of a view may rely on an invariant `I` of the shared state. -/
structure View (exec : Exec C R σ) (I : σ → Prop) (τ : Type) where
  own : Nat → σ → τ
  start : Nat → τ
  step : τ → (c : C) → R c → τ → Prop
  mine : ∀ {t s c r s'}, I s → exec t s c r s' → step (own t s) c r (own t s')
  others : ∀ {t u s c r s'}, exec u s c r s' → u ≠ t → own t s' = own t s

/-- What is shown of programs and state together: `I` holds of the state, and every program that
runs is still verified from its own view. -/
structure Good {exec : Exec C R σ} (S : System exec α) {I : σ → Prop} (V : View exec I τ)
    (may : Nat → τ → C → Prop) (post : Nat → α → τ → Prop) (c : Config C R σ α) : Prop where
  inv : I c.state
  idle : ∀ {t}, c.thread t = none → V.own t c.state = V.start t
  ready : ∀ {t p}, c.thread t = some p → S.ready c.state t
  running : ∀ {t p}, c.thread t = some p → p.Wp V.step (may t) (post t) (V.own t c.state)

namespace Good

variable {exec : Exec C R σ} {S : System exec α} {I : σ → Prop} {V : View exec I τ}
  {may : Nat → τ → C → Prop} {post : Nat → α → τ → Prop}

theorem initial {s : σ} (inv : I s) (fresh : ∀ t, V.own t s = V.start t) :
    Good S V may post (Config.initial s) where
  inv := inv
  idle := fun _ => fresh _
  ready := fun running => by simp [Config.initial] at running
  running := fun running => by simp [Config.initial] at running

variable (starts : ∀ {t s}, S.ready s t → (S.prog t).Wp V.step (may t) (post t) (V.start t))
  (persists : ∀ {t u s c r s'}, exec u s c r s' → S.ready s t → S.ready s' t)
  (keeps : ∀ {t s c r s'}, I s → S.ready s t → may t (V.own t s) c → exec t s c r s' → I s')

include starts persists keeps

theorem step {c c' : Config C R σ α} (good : Good S V may post c) (step : S.Step c c') :
    Good S V may post c' := by
  cases step with
  | start t idle isReady =>
      refine ⟨good.inv, fun {u} idle' => ?_, fun {u p} running => ?_, fun {u p} running => ?_⟩
      all_goals by_cases same : u = t
      · subst same
        simp at idle'
      · exact good.idle (by simpa [Function.update_of_ne same] using idle')
      · subst same
        exact isReady
      · exact good.ready (by simpa [Function.update_of_ne same] using running)
      · subst same
        simp only [Function.update_self, Option.some.injEq] at running
        subst running
        rw [good.idle idle]
        exact starts isReady
      · exact good.running (by simpa [Function.update_of_ne same] using running)
  | @act t request next running answer s' step =>
      have wp := good.running running
      refine ⟨keeps good.inv (good.ready running) wp.1 step, fun {u} idle' => ?_,
        fun {u p} running' => ?_, fun {u p} running' => ?_⟩
      all_goals by_cases same : u = t
      · subst same
        simp at idle'
      · simp only [Function.update_of_ne same] at idle'
        exact (V.others step (Ne.symm same)).trans (good.idle idle')
      · subst same
        exact persists step (good.ready running)
      · simp only [Function.update_of_ne same] at running'
        exact persists step (good.ready running')
      · subst same
        simp only [Function.update_self, Option.some.injEq] at running'
        subst running'
        exact wp.2 answer _ (V.mine good.inv step)
      · simp only [Function.update_of_ne same] at running'
        have frame : V.own u s' = V.own u c.state := V.others step (Ne.symm same)
        rw [frame]
        exact good.running running'

theorem reaches {c c' : Config C R σ α} (good : Good S V may post c) (run : S.Reaches c c') :
    Good S V may post c' := by
  induction run with
  | refl => exact good
  | tail _ last ih => exact ih.step starts persists keeps last

end Good

end Gosestor.Lib
