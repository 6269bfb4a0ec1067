import Mathlib.Logic.Relation
import Mathlib.Logic.Function.Basic

/-!
# Programs over atomic calls

A program is a tree: it returns, or it makes one atomic call and continues with the answer.
The same tree is run alone against a state (`Prog.eval`, `Prog.Run`) or interleaved with other
programs, one call at a time (`Lib/Interleaving.lean`), so a translated function is written down
once. `Prog.Wp` is the weakest precondition of a program: every call it makes is allowed where it
is made, and what it returns meets the postcondition.
-/

namespace Gosestor.Lib

variable {C : Type} {R : C → Type} {α β γ : Type}

inductive Prog (C : Type) (R : C → Type) (α : Type) : Type
  | ret (value : α)
  | call (request : C) (next : R request → Prog C R α)

namespace Prog

def bind : Prog C R α → (α → Prog C R β) → Prog C R β
  | .ret value, f => f value
  | .call request next, f => .call request fun answer => (next answer).bind f

def perform (request : C) : Prog C R (R request) := .call request .ret

instance : Monad (Prog C R) where
  pure := .ret
  bind := bind

@[simp] theorem pure_eq (value : α) : (pure value : Prog C R α) = .ret value := rfl

@[simp] theorem ret_bind (value : α) (f : α → Prog C R β) : (ret value >>= f) = f value := rfl

@[simp] theorem call_bind (request : C) (next : R request → Prog C R α) (f : α → Prog C R β) :
    (call request next >>= f) = call request fun answer => next answer >>= f := rfl

@[simp] theorem perform_bind (request : C) (f : R request → Prog C R β) :
    (perform request >>= f) = call request f := rfl

theorem bind_ret (p : Prog C R α) : (p >>= ret) = p := by
  induction p with
  | ret value => rfl
  | call request next ih => exact congrArg (call request) (funext ih)

@[simp] theorem bind_bind (p : Prog C R α) (f : α → Prog C R β) (g : β → Prog C R γ) :
    ((p >>= f) >>= g) = p >>= fun a => f a >>= g := by
  induction p with
  | ret value => rfl
  | call request next ih => exact congrArg (call request) (funext ih)

instance : LawfulMonad (Prog C R) :=
  LawfulMonad.mk' (Prog C R) bind_ret (fun _ _ => rfl) bind_bind

def eval {σ : Type} (answer : (c : C) → σ → R c × σ) : Prog C R α → σ → α × σ
  | .ret value, s => (value, s)
  | .call request next, s =>
      let (r, s') := answer request s
      (next r).eval answer s'

theorem eval_bind {σ : Type} (answer : (c : C) → σ → R c × σ) (p : Prog C R α)
    (f : α → Prog C R β) (s : σ) :
    (p >>= f).eval answer s = (f (p.eval answer s).1).eval answer (p.eval answer s).2 := by
  induction p generalizing s with
  | ret value => rfl
  | call request next ih => exact ih _ _

section Wp

variable {σ τ : Type} {step : σ → (c : C) → R c → σ → Prop}
  {may may' : σ → C → Prop} {post post' : α → σ → Prop}

def Wp (step : σ → (c : C) → R c → σ → Prop) (may : σ → C → Prop) (post : α → σ → Prop) :
    Prog C R α → σ → Prop
  | .ret value, s => post value s
  | .call request next, s =>
      may s request ∧ ∀ r s', step s request r s' → Wp step may post (next r) s'

theorem Wp.bind {p : Prog C R α} {f : α → Prog C R β} {post : β → σ → Prop} {s : σ}
    (wp : Wp step may (fun a s => Wp step may post (f a) s) p s) :
    Wp step may post (p >>= f) s := by
  induction p generalizing s with
  | ret value => exact wp
  | call request next ih => exact ⟨wp.1, fun r s' taken => ih r (wp.2 r s' taken)⟩

theorem Wp.mono {p : Prog C R α} {s : σ} (wp : Wp step may post p s)
    (allowed : ∀ s c, may s c → may' s c) (imp : ∀ a s, post a s → post' a s) :
    Wp step may' post' p s := by
  induction p generalizing s with
  | ret value => exact imp value s wp
  | call request next ih =>
      exact ⟨allowed s request wp.1, fun r s' taken => ih r (wp.2 r s' taken)⟩

theorem Wp.weaken {p : Prog C R α} {s : σ} (wp : Wp step may post p s)
    (imp : ∀ a s, post a s → post' a s) : Wp step may post' p s :=
  wp.mono (fun _ _ allowed => allowed) imp

theorem Wp.and {p : Prog C R α} {s : σ} (wp : Wp step may post p s)
    (wp' : Wp step may' post' p s) :
    Wp step (fun s c => may s c ∧ may' s c) (fun a s => post a s ∧ post' a s) p s := by
  induction p generalizing s with
  | ret value => exact ⟨wp, wp'⟩
  | call request next ih =>
      exact ⟨⟨wp.1, wp'.1⟩, fun r s' taken => ih r (wp.2 r s' taken) (wp'.2 r s' taken)⟩

theorem Wp.trivial (p : Prog C R α) (s : σ) :
    Wp step (fun _ _ => True) (fun _ _ => True) p s := by
  induction p generalizing s with
  | ret value => exact True.intro
  | call request next ih => exact ⟨True.intro, fun r s' _ => ih r s'⟩

/-- What every step keeps can be carried through a program. -/
theorem Wp.frame {p : Prog C R α} {s : σ} (P : σ → Prop)
    (keeps : ∀ {s c r s'}, may s c → step s c r s' → P s → P s') (wp : Wp step may post p s)
    (holds : P s) : Wp step (fun s c => may s c ∧ P s) (fun a s => post a s ∧ P s) p s := by
  induction p generalizing s with
  | ret value => exact ⟨wp, holds⟩
  | call request next ih =>
      exact ⟨⟨wp.1, holds⟩, fun r s' taken => ih r (wp.2 r s' taken) (keeps wp.1 taken holds)⟩

theorem Wp.lift {step' : τ → (c : C) → R c → τ → Prop} {may : τ → C → Prop}
    {post : α → τ → Prop} (view : σ → τ) (I : σ → Prop)
    (sim : ∀ {s c r s'}, I s → may (view s) c → step s c r s' →
      step' (view s) c r (view s') ∧ I s')
    {p : Prog C R α} {s : σ} (inv : I s) (wp : Wp step' may post p (view s)) :
    Wp step (fun s c => I s ∧ may (view s) c) (fun a s => I s ∧ post a (view s)) p s := by
  induction p generalizing s with
  | ret value => exact ⟨inv, wp⟩
  | call request next ih =>
      refine ⟨⟨inv, wp.1⟩, fun r s' taken => ?_⟩
      obtain ⟨coarse, inv'⟩ := sim inv wp.1 taken
      exact ih r inv' (wp.2 r _ coarse)

inductive Run (step : σ → (c : C) → R c → σ → Prop) : Prog C R α → σ → α → σ → Prop
  | ret (value : α) (s : σ) : Run step (.ret value) s value s
  | call {request : C} {next : R request → Prog C R α} {s s' s'' : σ} {r : R request} {value : α}
      (taken : step s request r s') (rest : Run step (next r) s' value s'') :
      Run step (.call request next) s value s''

theorem Wp.traced {p : Prog C R α} {s : σ} (wp : Wp step may post p s) :
    Wp step may (fun a s' => post a s' ∧ Run step p s a s') p s := by
  induction p generalizing s with
  | ret value => exact ⟨wp, .ret value s⟩
  | call request next ih =>
      refine ⟨wp.1, fun r s' taken => ?_⟩
      exact (ih r (wp.2 r s' taken)).weaken fun a s'' done => ⟨done.1, .call taken done.2⟩

theorem Wp.run {p : Prog C R α} {s s' : σ} {value : α} (wp : Wp step may post p s)
    (run : Run step p s value s') : post value s' := by
  induction run with
  | ret value s => exact wp
  | call taken rest ih => exact ih (wp.2 _ _ taken)

theorem Run.bind {p : Prog C R α} {f : α → Prog C R β} {s s' s'' : σ} {a : α} {b : β}
    (first : Run step p s a s') (rest : Run step (f a) s' b s'') : Run step (p >>= f) s b s'' := by
  induction first with
  | ret value s => exact rest
  | call taken _ ih => exact .call taken (ih rest)

/-- The run of a sequence passes through the result of its first part. -/
theorem Run.split {p : Prog C R α} {f : α → Prog C R β} {s s'' : σ} {b : β}
    (run : Run step (p >>= f) s b s'') :
    ∃ a s', Run step p s a s' ∧ Run step (f a) s' b s'' := by
  induction p generalizing s with
  | ret value => exact ⟨value, s, .ret value s, run⟩
  | call request next ih =>
      cases run with
      | call taken rest =>
          obtain ⟨a, s', first, second⟩ := ih _ rest
          exact ⟨a, s', .call taken first, second⟩

theorem Run.of_eval {answer : (c : C) → σ → R c × σ}
    (allowed : ∀ s c, step s c (answer c s).1 (answer c s).2) (p : Prog C R α) (s : σ) :
    Run step p s (p.eval answer s).1 (p.eval answer s).2 := by
  induction p generalizing s with
  | ret value => exact .ret value s
  | call request next ih => exact .call (allowed s request) (ih _ _)

end Wp

end Prog

end Gosestor.Lib
