import Gosestor.Handler.Interceptor

/-!
# What an accepted configuration says
-/

namespace Gosestor.HandlerConfig

open Gosestor.Go Gosestor.Lib

variable {cfg : HandlerConfig}

theorem validate_nonneg (accepted : cfg.validate = .ok ()) :
    0 ≤ cfg.inactiveTimeout ∧ 0 ≤ cfg.finalTimeout := by
  unfold validate at accepted
  split_ifs at accepted with _ _ _ negative
  simp only [not_or, not_lt] at negative
  exact ⟨negative.1, negative.2.1⟩

theorem provision_ok {h : Handler} {sum256 : GoString → List UInt8}
    {parseTime : GoString → Option Int} (made : cfg.provision sum256 parseTime = .ok h) :
    h.cookie.name = cfg.cookie.name ∧
      h.managedHeaders = cfg.managedHeaders.map (·.2) ∧
      h.manager.cfg.inactive =
        (if cfg.inactiveTimeout = 0 then 1800 * second else cfg.inactiveTimeout) ∧
      h.manager.cfg.final =
        (if cfg.finalTimeout = 0 then 28800 * second else cfg.finalTimeout) := by
  unfold provision at made
  cases authz : cfg.authz with
  | none =>
      rw [authz] at made
      cases made
      exact ⟨rfl, rfl, rfl, rfl⟩
  | some policy =>
      cases built : buildAuthz policy with
      | error e =>
          simp only [authz, built] at made
          cases made
      | ok a =>
          simp only [authz, built] at made
          cases made
          exact ⟨rfl, rfl, rfl, rfl⟩

end Gosestor.HandlerConfig
