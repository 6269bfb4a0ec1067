import Gosestor.Proof.Session.Proper

/-!
# The invariant of the shared store

What holds of the store in every run of proper programs, over all interleavings and faults: ids
are minted once and stored only by the program that minted them, every row and key was stored
under such an id, and what a step has removed stays removed.
-/

namespace Gosestor

open Gosestor.Go Gosestor.Lib Gosestor.Store

structure Inv (faults : Fault → Bool) (w : World) : Prop where
  wf : w.mem.WF
  chained : Chained faults w.mem w.log
  mintedOnce : ∀ {t u x}, Minted (own t w) x → Minted (own u w) x → t = u
  settled : ∀ t, Settled (own t w)
  keyUsed : ∀ {k}, w.mem.keys.get k ≠ none → ∃ t, Used (own t w) k
  sessionUsed : ∀ {s}, w.mem.sessions.get s ≠ none → ∃ t, Used (own t w) s
  sessionKeyed : ∀ {k s}, w.mem.keys.get k = some s → ∃ t, Keyed (own t w) s
  seenKey : ∀ {e k}, e ∈ w.log → e.before.keys.get k ≠ none → ∃ t, Used (own t w) k
  seenSession : ∀ {e s}, e ∈ w.log → e.before.sessions.get s ≠ none → ∃ t, Used (own t w) s
  goneKey : ∀ {e k}, e ∈ w.log → e.before.keys.get k ≠ none → e.after.keys.get k = none →
    w.mem.keys.get k = none
  goneSession : ∀ {e s}, e ∈ w.log → e.before.sessions.get s ≠ none →
    e.after.sessions.get s = none → w.mem.sessions.get s = none

variable {faults : Fault → Bool} {t u : Nat} {w w' : World} {c : Call} {r : c.Answer}

theorem inv_initial : Inv faults {} where
  wf := Memory.newMemory_wf
  chained := trivial
  mintedOnce := by
    rintro t u x ⟨d, member, -⟩
    cases member
  settled := fun _ => settled_nil
  keyUsed := fun h => absurd rfl h
  sessionUsed := fun h => absurd rfl h
  sessionKeyed := fun h => by cases h
  seenKey := fun h => by cases h
  seenSession := fun h => by cases h
  goneKey := fun h => by cases h
  goneSession := fun h => by cases h

theorem used_mono (step : exec faults u w c r w') {x : GoString} (used : Used (own t w) x) :
    Used (own t w') x := by
  obtain ⟨d, member, named⟩ := used
  exact ⟨d, own_mono step member, named⟩

theorem used_step (step : exec faults t w c r w') {sc : StoreCall} (calls : c = .store sc)
    {x : GoString} (named : sc.newName = some x) : Used (own t w') x := by
  subst calls
  rw [exec_own step]
  exact ⟨_, List.mem_cons_self, named⟩

namespace Inv

theorem unused (inv : Inv faults w) {x : GoString} (fresh : Fresh (own t w) x) :
    ¬ ∃ u, Used (own u w) x := by
  rintro ⟨u, used⟩
  have same : t = u := inv.mintedOnce fresh.1 (inv.settled u x (.inl used))
  exact fresh.2 (same ▸ used)

theorem freeKey (inv : Inv faults w) {x : GoString} (fresh : Fresh (own t w) x) :
    w.mem.keys.get x = none := by
  by_contra held
  exact inv.unused fresh (inv.keyUsed held)

theorem freeSession (inv : Inv faults w) {x : GoString} (fresh : Fresh (own t w) x) :
    w.mem.sessions.get x = none := by
  by_contra live
  exact inv.unused fresh (inv.sessionUsed live)

theorem safe (inv : Inv faults w) {sc : StoreCall} (proper : Proper (own t w) (.store sc)) :
    sc.Safe w.mem := by
  cases sc with
  | putSession session ttl => exact ⟨inv.freeSession proper.1, proper.2⟩
  | touchSession id keyID lastAccess legacy ttl => exact proper
  | putKey keyID sessionID ttl =>
      intro k held
      obtain ⟨u, keyed⟩ := inv.sessionKeyed held
      have same : t = u := inv.mintedOnce proper.2.1 (inv.settled u _ (.inr keyed))
      exact proper.2.2 (same ▸ keyed)
  | applySessionControls id controls sessionTTL ownerTTL => exact proper.2
  | _ => trivial

theorem mintedOnce_step (inv : Inv faults w) (step : exec faults t w c r w') {a b : Nat}
    {x : GoString} (first : Minted (own a w') x) (second : Minted (own b w') x) : a = b := by
  -- An id minted by this very step was not in the log before it.
  have old : ∀ {a}, Minted (own a w') x → Minted (own a w) x ∨
      (a = t ∧ Deed.minted ⟨c, r⟩ = some x) := by
    intro a minted
    by_cases same : t = a
    · subst same
      rw [exec_own step] at minted
      obtain ⟨d, member, named⟩ := minted
      obtain rfl | earlier := List.mem_cons.mp member
      · exact .inr ⟨rfl, named⟩
      · exact .inl ⟨d, earlier, named⟩
    · rw [exec_own_other step same] at minted
      exact .inl minted
  have new : ∀ {a}, Deed.minted ⟨c, r⟩ = some x → ¬ Minted (own a w) x := by
    intro a named minted
    cases c with
    | randomRead =>
        cases r with
        | none => cases named
        | some buf =>
            cases named
            exact minted_fresh step (mem_minted.mpr ⟨a, minted⟩)
    | _ => cases named
  obtain first | ⟨rfl, named⟩ := old first
  · obtain second | ⟨rfl, named⟩ := old second
    · exact inv.mintedOnce first second
    · exact absurd first (new named)
  · obtain second | ⟨rfl, -⟩ := old second
    · exact absurd second (new named)
    · rfl

theorem settled_step (inv : Inv faults w) (proper : Proper (own t w) c)
    (step : exec faults t w c r w') (a : Nat) : Settled (own a w') := by
  by_cases same : t = a
  · subst same
    rw [exec_own step]
    exact (inv.settled t).cons proper r
  · rw [exec_own_other step same]
    exact inv.settled a

theorem keyed_mono (step : exec faults u w c r w') {s : GoString} (keyed : Keyed (own t w) s) :
    Keyed (own t w') s := by
  obtain ⟨k, ttl, r, member⟩ := keyed
  exact ⟨k, ttl, r, own_mono step member⟩

theorem step (inv : Inv faults w) (proper : Proper (own t w) c) (step : exec faults t w c r w') :
    Inv faults w' := by
  have effect := served_mem (exec_served step)
  have key : ∀ {k s}, w'.mem.keys.get k = some s → w.mem.keys.get k = some s ∨
      ∃ sc, c = .store sc ∧ sc.newName = some k ∧
        ((∃ k', w.mem.keys.get k' = some s) ∨ ∃ ttl, sc = .putKey k s ttl) := by
    intro k s held
    obtain same | ⟨sc, calls, done⟩ := effect
    · exact .inl (same ▸ held)
    · rw [done] at held
      obtain earlier | new := Memory.perform_keys held
      · exact .inl earlier
      · exact .inr ⟨sc, calls, new⟩
  have session : ∀ {s}, w'.mem.sessions.get s ≠ none → w.mem.sessions.get s ≠ none ∨
      ∃ sc, c = .store sc ∧ sc.newName = some s := by
    intro s live
    obtain same | ⟨sc, calls, done⟩ := effect
    · exact .inl (same ▸ live)
    · rw [done] at live
      obtain earlier | new := Memory.perform_sessions live
      · exact .inl earlier
      · exact .inr ⟨sc, calls, new⟩
  -- A used id is not free for this step to store again.
  have taken : ∀ {sc x}, c = .store sc → sc.newName = some x → ¬ ∃ u, Used (own u w) x := by
    rintro sc x rfl named
    exact inv.unused (proper_newName proper named)
  have deadKey : ∀ {k}, w.mem.keys.get k = none → (∃ u, Used (own u w) k) →
      w'.mem.keys.get k = none := by
    intro k gone used
    by_contra held
    obtain ⟨s, held⟩ := Option.ne_none_iff_exists'.mp held
    obtain earlier | ⟨sc, calls, named, -⟩ := key held
    · simp [gone] at earlier
    · exact taken calls named used
  have deadSession : ∀ {s}, w.mem.sessions.get s = none → (∃ u, Used (own u w) s) →
      w'.mem.sessions.get s = none := by
    intro s gone used
    by_contra live
    obtain earlier | ⟨sc, calls, named⟩ := session live
    · exact earlier gone
    · exact taken calls named used
  have keep : ∀ {x}, (∃ u, Used (own u w) x) → ∃ u, Used (own u w') x := by
    intro x earlier
    obtain ⟨u, used⟩ := earlier
    exact ⟨u, used_mono step used⟩
  refine
    { wf := ?_
      chained := exec_chained inv.chained step
      mintedOnce := inv.mintedOnce_step step
      settled := inv.settled_step proper step
      keyUsed := ?_
      sessionUsed := ?_
      sessionKeyed := ?_
      seenKey := ?_
      seenSession := ?_
      goneKey := ?_
      goneSession := ?_ }
  · obtain same | ⟨sc, rfl, done⟩ := effect
    · rw [same]
      exact inv.wf
    · rw [done]
      exact inv.wf.perform (inv.safe proper)
  · intro k held
    obtain ⟨s, held⟩ := Option.ne_none_iff_exists'.mp held
    obtain earlier | ⟨sc, calls, named, -⟩ := key held
    · exact keep (inv.keyUsed (by simp [earlier]))
    · exact ⟨t, used_step step calls named⟩
  · intro s live
    obtain earlier | ⟨sc, calls, named⟩ := session live
    · exact keep (inv.sessionUsed earlier)
    · exact ⟨t, used_step step calls named⟩
  · intro k s held
    obtain earlier | ⟨sc, rfl, -, ⟨k', earlier⟩ | ⟨ttl, rfl⟩⟩ := key held
    · obtain ⟨u, keyed⟩ := inv.sessionKeyed earlier
      exact ⟨u, keyed_mono step keyed⟩
    · obtain ⟨u, keyed⟩ := inv.sessionKeyed earlier
      exact ⟨u, keyed_mono step keyed⟩
    · refine ⟨t, k, ttl, r, ?_⟩
      rw [exec_own step]
      exact List.mem_cons_self
  · intro e k logged before
    rw [exec_log step] at logged
    obtain rfl | earlier := List.mem_cons.mp logged
    · exact keep (inv.keyUsed before)
    · exact keep (inv.seenKey earlier before)
  · intro e s logged before
    rw [exec_log step] at logged
    obtain rfl | earlier := List.mem_cons.mp logged
    · exact keep (inv.sessionUsed before)
    · exact keep (inv.seenSession earlier before)
  · intro e k logged before after
    rw [exec_log step] at logged
    obtain rfl | earlier := List.mem_cons.mp logged
    · exact after
    · exact deadKey (inv.goneKey earlier before after) (inv.seenKey earlier before)
  · intro e s logged before after
    rw [exec_log step] at logged
    obtain rfl | earlier := List.mem_cons.mp logged
    · exact after
    · exact deadSession (inv.goneSession earlier before after) (inv.seenSession earlier before)

end Inv

end Gosestor
