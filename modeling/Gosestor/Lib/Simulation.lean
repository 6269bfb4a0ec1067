import Gosestor.Lib.Interleaving
import Mathlib.Data.Option.Basic

/-!
# Programs that go on alike

Two programs simulate one another when they make matching calls, go on alike after matching
answers, and return alike values. What one of them does among others, the other can do as well,
also over another state.
-/

namespace Gosestor.Lib

variable {C : Type} {R : C → Type} {σ τ α β γ δ : Type}

/-- The calls that stand for one another, with the answers that do. -/
abbrev Matching (C : Type) (R : C → Type) := (c c' : C) → (R c → R c' → Prop) → Prop

variable {near : Matching C R} {V : α → β → Prop} {W : γ → δ → Prop}

namespace Prog

inductive Sim (near : Matching C R) (V : α → β → Prop) : Prog C R α → Prog C R β → Prop
  | ret {a : α} {b : β} (alike : V a b) : Sim near V (.ret a) (.ret b)
  | call {c c' : C} {answers : R c → R c' → Prop} {next : R c → Prog C R α}
      {next' : R c' → Prog C R β} (paired : near c c' answers)
      (rest : ∀ r r', answers r r' → Sim near V (next r) (next' r')) :
      Sim near V (.call c next) (.call c' next')

namespace Sim

theorem refl (same : ∀ c, near c c Eq) (p : Prog C R α) : Sim near Eq p p := by
  induction p with
  | ret value => exact .ret rfl
  | call request next ih =>
      refine .call (same request) fun r r' equal => ?_
      subst equal
      exact ih r

theorem bind {p : Prog C R α} {q : Prog C R β} {f : α → Prog C R γ} {g : β → Prog C R δ}
    (first : Sim near V p q) (rest : ∀ a b, V a b → Sim near W (f a) (g b)) :
    Sim near W (p >>= f) (q >>= g) := by
  induction first with
  | ret alike => exact rest _ _ alike
  | call paired _ ih => exact .call paired ih

theorem bind_left (same : ∀ c, near c c Eq) (p : Prog C R α) {f : α → Prog C R γ}
    {g : α → Prog C R δ} (rest : ∀ a, Sim near W (f a) (g a)) : Sim near W (p >>= f) (p >>= g) := by
  refine (refl same p).bind fun a b equal => ?_
  subst equal
  exact rest a

end Sim

end Prog

def Matched (near : Matching C R) (step : σ → (c : C) → R c → σ → Prop)
    (step' : τ → (c : C) → R c → τ → Prop) (S : σ → τ → Prop) : Prop :=
  ∀ {c c' : C} {answers : R c → R c' → Prop} {s : σ} {s' : τ} {s₁ : σ} {r : R c},
    near c c' answers → S s s' → step s c r s₁ → ∃ r' s₁', answers r r' ∧ step' s' c' r' s₁' ∧ S s₁ s₁'

structure Config.Sim (near : Matching C R) (V : α → β → Prop) (S : σ → τ → Prop)
    (c : Config C R σ α) (c' : Config C R τ β) : Prop where
  state : S c.state c'.state
  thread : ∀ t, Option.Rel (Prog.Sim near V) (c.thread t) (c'.thread t)

namespace Config.Sim

variable {S : σ → τ → Prop}

theorem initial {s : σ} {s' : τ} (start : S s s') :
    Config.Sim near V S (.initial s : Config C R σ α) (.initial s' : Config C R τ β) :=
  ⟨start, fun _ => .none⟩

theorem idle {c : Config C R σ α} {c' : Config C R τ β} (sim : Config.Sim near V S c c') {t : Nat}
    (idle : c.thread t = none) : c'.thread t = none := by
  have both := sim.thread t
  rw [idle] at both
  cases other : c'.thread t with
  | none => rfl
  | some q => simp [other] at both

theorem running {c : Config C R σ α} {c' : Config C R τ β} (sim : Config.Sim near V S c c') {t : Nat}
    {p : Prog C R α} (running : c.thread t = some p) :
    ∃ q, c'.thread t = some q ∧ Prog.Sim near V p q := by
  have both := sim.thread t
  rw [running] at both
  cases other : c'.thread t with
  | none => simp [other] at both
  | some q =>
      rw [other] at both
      cases both with
      | some alike => exact ⟨q, rfl, alike⟩

theorem returned {c : Config C R σ α} {c' : Config C R τ β} (sim : Config.Sim near V S c c') {t : Nat}
    {a : α} (ended : c.thread t = some (.ret a)) : ∃ b, V a b ∧ c'.thread t = some (.ret b) := by
  obtain ⟨q, running, alike⟩ := sim.running ended
  cases alike with
  | ret alike => exact ⟨_, alike, running⟩

theorem returned_iff {c : Config C R σ α} {c' : Config C R τ α} (sim : Config.Sim near Eq S c c')
    (t : Nat) (a : α) : c.thread t = some (.ret a) ↔ c'.thread t = some (.ret a) := by
  have both := sim.thread t
  generalize c.thread t = p at both ⊢
  generalize c'.thread t = q at both ⊢
  cases both with
  | none => rfl
  | some alike =>
      cases alike with
      | ret equal =>
          subst equal
          rfl
      | call paired rest => simp

theorem update {c : Config C R σ α} {c' : Config C R τ β} (sim : Config.Sim near V S c c') {s : σ}
    {s' : τ} (after : S s s') (t : Nat) {p : Prog C R α} {q : Prog C R β}
    (goOn : Prog.Sim near V p q) :
    Config.Sim near V S ⟨s, Function.update c.thread t (some p)⟩
      ⟨s', Function.update c'.thread t (some q)⟩ := by
  refine ⟨after, fun u => ?_⟩
  by_cases same : u = t
  · subst same
    simpa using goOn
  · simpa [Function.update_of_ne same] using sim.thread u

variable {exec : Exec C R σ} {exec' : Exec C R τ} {A : System exec α} {B : System exec' β}
  (matched : ∀ t, Matched near (exec t) (exec' t) S)
  (progs : ∀ t, Prog.Sim near V (A.prog t) (B.prog t))
  (ready : ∀ {s s' t}, S s s' → A.ready s t → B.ready s' t)

include matched progs ready

theorem step {c₁ c₁' : Config C R σ α} {c₂ : Config C R τ β} (sim : Config.Sim near V S c₁ c₂)
    (step : A.Step c₁ c₁') : ∃ c₂', B.Step c₂ c₂' ∧ Config.Sim near V S c₁' c₂' := by
  cases step with
  | start t idle isReady =>
      exact ⟨_, .start t (sim.idle idle) (ready sim.state isReady), sim.update sim.state t (progs t)⟩
  | @act t request next running answer s₁ taken =>
      obtain ⟨q, running', alike⟩ := sim.running running
      cases alike with
      | call paired rest =>
          obtain ⟨r', s₂, answers, taken', after⟩ := matched t paired sim.state taken
          exact ⟨_, .act t running' taken', sim.update after t (rest _ r' answers)⟩

theorem reaches {c₁ c₁' : Config C R σ α} {c₂ : Config C R τ β} (sim : Config.Sim near V S c₁ c₂)
    (run : A.Reaches c₁ c₁') : ∃ c₂', B.Reaches c₂ c₂' ∧ Config.Sim near V S c₁' c₂' := by
  induction run with
  | refl => exact ⟨c₂, .refl, sim⟩
  | tail _ last ih =>
      obtain ⟨mid, reached, alike⟩ := ih
      obtain ⟨c₂', taken, after⟩ := alike.step matched progs ready last
      exact ⟨c₂', reached.tail taken, after⟩

end Config.Sim

end Gosestor.Lib
