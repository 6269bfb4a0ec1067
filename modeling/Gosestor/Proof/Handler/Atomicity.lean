import Gosestor.Proof.Handler.Traffic
import Gosestor.Proof.Session.Integrity
import Gosestor.Proof.Session.Serial

/-!
# A response fails without a trace

When the processing of a response returns an error, its calls that took effect have begun at most
one new session, and every session that was there before is as it was. A handle operation that
returns an error leaves its handle as it was.
-/

namespace Gosestor

open Gosestor.Go Gosestor.Lib Gosestor.Store Gosestor.Session

theorem subject_of_reads {sc : StoreCall} (reads : sc.changes = false) : sc.subject = none := by
  cases sc <;> first | rfl | cases reads

theorem effect_ok {sc : StoreCall} {value : sc.Value} (changes : sc.changes = true) :
    Deed.effect ⟨.store sc, .ok value⟩ = some sc := if_pos changes

/-- Without lost faults a call changes at most the session of its effect. -/
theorem clean_leaves_others {t : Nat} {w w' : World} {c : Call} {r : c.Answer}
    (inv : Inv anyFaults w) (proper : Proper (own t w) c) (step : exec cleanFaults t w c r w')
    {s : GoString} (other : ∀ sc, Deed.effect ⟨c, r⟩ = some sc → sc.subject ≠ some s) :
    Memory.SameEntries w.mem w'.mem s := by
  cases c with
  | store sc =>
      cases r with
      | error e =>
          rw [refused (exec_served step)]
          exact .refl _ s
      | ok value =>
          apply leaves_others inv proper (exec_any step)
          cases changes : sc.changes with
          | true => exact other sc (effect_ok changes)
          | false => simp [subject, subject_of_reads changes]
  | _ => exact leaves_others inv proper (exec_any step) (by simp [subject])

section Program

variable {α : Type} {t : Nat} {w w' : World} {p : Act α} {post : α → History → Prop}

/-- From `w₀` on, program `t` has changed no session but those of its effects. -/
structure Untouched (t : Nat) (w₀ w : World) : Prop where
  grows : ∀ u, own u w₀ ⊆ own u w
  same : ∀ s, (∀ sc ∈ effects (own t w), sc.subject ≠ some s) →
    Memory.SameEntries w₀.mem w.mem s

theorem Untouched.refl (t : Nat) (w : World) : Untouched t w w where
  grows _ := List.Subset.refl _
  same s _ := .refl _ s

theorem Untouched.step {w₀ : World} {c : Call} {r : c.Answer} (untouched : Untouched t w₀ w)
    (inv : Inv anyFaults w) (proper : Proper (own t w) c) (step : exec cleanFaults t w c r w') :
    Untouched t w₀ w' where
  grows u d member := own_mono step (untouched.grows u member)
  same s other := by
    rw [exec_own step] at other
    have earlier : ∀ sc ∈ effects (own t w), sc.subject ≠ some s := by
      intro sc member
      apply other
      simp only [effects, List.mem_filterMap, List.mem_cons] at member ⊢
      obtain ⟨d, made, effect⟩ := member
      exact ⟨d, .inr made, effect⟩
    apply (untouched.same s earlier).trans
    apply clean_leaves_others inv proper step
    intro sc effect
    apply other
    simp only [effects, List.mem_filterMap, List.mem_cons]
    exact ⟨_, .inl rfl, effect⟩

/-- A program that is verified over its history runs alone on the store, keeps the invariant, and
changes no session but those of its effects. -/
theorem runs_alone {may : History → Call → Prop} (proper : ∀ {past c}, may past c → Proper past c)
    (inv : Inv anyFaults w) (obeys : Obeys may post p (own t w)) {a : α}
    (run : p.Run (exec cleanFaults t) w a w') :
    Inv anyFaults w' ∧ post a (own t w') ∧ Untouched t w w' := by
  have sim : ∀ {w₁ c r w₂}, Inv anyFaults w₁ → may (own t w₁) c →
      exec cleanFaults t w₁ c r w₂ → History.step (own t w₁) c r (own t w₂) ∧ Inv anyFaults w₂ := by
    intro w₁ c r w₂ inv allowed step
    exact ⟨⟨exec_legal inv.wf.timely step, exec_own step⟩, inv.step (proper allowed) (exec_any step)⟩
  have framed := (obeys.lift (own t) (Inv anyFaults) sim inv).frame (Untouched t w) ?_ (.refl t w)
  · obtain ⟨⟨inv', done⟩, untouched⟩ := framed.run run
    exact ⟨inv', done, untouched⟩
  · intro w₁ c r w₂ allowed step untouched
    exact untouched.step allowed.1 (proper allowed.2) step

end Program

theorem birth_elsewhere {t : Nat} {w w' : World} (inv : Inv anyFaults w) (inv' : Inv anyFaults w')
    (new : own t w = []) (grows : ∀ u, own u w ⊆ own u w') {calls : List StoreCall}
    (birth : Birth (own t w') calls) {s : GoString} (live : w.mem.sessions.get s ≠ none) :
    ∀ sc ∈ calls, sc.subject ≠ some s := by
  obtain ⟨u, used⟩ := inv.sessionUsed live
  have minted : Minted (own u w) s := inv.settled u s (.inl used)
  have elsewhere : ∀ x, Minted (own t w') x → x ≠ s := by
    rintro x fresh rfl
    have same : t = u := inv'.mintedOnce fresh (minted.mono (grows u))
    subst same
    rw [new] at minted
    obtain ⟨d, member, -⟩ := minted
    cases member
  intro sc member names
  obtain rfl | ⟨row, ttl, fresh, rfl | ⟨k, ttl', -, rfl⟩⟩ := birth
  · cases member
  · simp only [List.mem_singleton] at member
    subst member
    exact elsewhere _ fresh (Option.some.inj names)
  · simp only [List.mem_cons, List.not_mem_nil, or_false] at member
    obtain rfl | rfl := member
    · exact elsewhere _ fresh (Option.some.inj names)
    · exact elsewhere _ fresh (Option.some.inj names)

theorem Interceptor.SessionEffect.birth {h : Handler} {asked had : Bool} {live : Option Live}
    {past : History} {e : Err} {extra : Option GoString} {calls : List StoreCall}
    (does : SessionEffect h asked had live past (.error e) extra calls) : Birth past calls := by
  cases does with
  | failed birth alive => exact birth

theorem failed_process_untouched {t : Nat} {w w' : World} {h : Handler} {ic ic' : Interceptor}
    {e : Err} (inv : Inv anyFaults w) (new : own t w = [])
    (resolved : ∀ l, ic.live = some l → l.rewrite = false)
    (run : (ic.process h).Run (exec cleanFaults t) w (.error e, ic') w') {s : GoString}
    (live : w.mem.sessions.get s ≠ none) : Memory.SameEntries w.mem w'.mem s := by
  have held : Interceptor.Held [] ic.live := by
    intro l same pending
    simp [resolved l same] at pending
  have obeys := ic.process_obeys (h := h) settled_nil held
  rw [← new] at obeys
  obtain ⟨inv', tidied, untouched⟩ := runs_alone (fun guarded => guarded.1.2) inv obeys run
  obtain ⟨extra, calls, does, made, -⟩ := tidied.does
  apply untouched.same
  rw [made, new, effects, List.filterMap_nil, List.append_nil]
  exact birth_elsewhere inv inv' new untouched.grows does.birth live

theorem failure_is_atomic :
    (∀ (visit : Nat → Visit) (c : Machine (Option (Ended × Writer))),
      (traffic visit).Reaches quietStart c →
      ∀ (t : Nat) (h : Handler) (ic ic' : Interceptor) (e : Err) (w : World),
      own t c.state = [] → (∀ l, ic.live = some l → l.rewrite = false) →
      (ic.process h).Run (exec cleanFaults t) c.state (.error e, ic') w →
      ∀ s, c.state.mem.sessions.get s ≠ none → Memory.SameEntries c.state.mem w.mem s) ∧
    ∀ (m : Manager) (l l' : Live) (e : Err) (past past' : History),
      (∀ ownerID labels force cookies,
        (l.applyResponse m ownerID labels force cookies).Run History.step past (.error e, l') past' →
          l' = l) ∧
      (∀ labels, (l.setLabels m labels).Run History.step past (.error e, l') past' → l' = l) ∧
      (∀ ownerID, (l.bindOwner m ownerID).Run History.step past (.error e, l') past' → l' = l) ∧
      (∀ name value,
        (l.storeCookie m name value).Run History.step past (.error e, l') past' → l' = l) ∧
      (∀ name, (l.deleteCookie m name).Run History.step past (.error e, l') past' → l' = l) ∧
      (l.forceRotate.Run History.step past (.error e, l') past' → l' = l) ∧
      ((l.maybeRotate m).Run History.step past (.error e, l') past' → l' = l) ∧
      (l.revoke.Run History.step past (.error e, l') past' → l' = l) := by
  constructor
  · intro visit c reached t h ic ic' e w new resolved run s live
    exact failed_process_untouched (traffic_good reached).inv.inv new resolved run live
  · intro m l l' e past past'
    refine ⟨?_, ?_, ?_, ?_, ?_, ?_, ?_, ?_⟩
    · intro ownerID labels force cookies run
      exact (applyControls_confined rfl id ownerID labels force true cookies).run run e rfl
    · intro labels run
      exact (setLabels_confined labels).run run e rfl
    · intro ownerID run
      exact (bindOwner_confined ownerID).run run e rfl
    · intro name value run
      exact (applyControls_confined rfl id none none false false _).run run e rfl
    · intro name run
      exact (applyControls_confined rfl id none none false false _).run run e rfl
    · intro run
      exact (forceRotate_confined (m := m)).run run e rfl
    · intro run
      exact maybeRotate_confined.run run e rfl
    · intro run
      exact (revoke_confined (m := m)).run run e rfl

def binding : Interceptor where
  w := { header := ∅ }
  responseHeader := Header.set ∅ (lit "X-Identity") (lit "7")
  live := some sampleLive
  hadProxyCookie := true
  resolveErr := none

theorem binding_fails (w : World) : ∃ ic w',
    (binding.process sampleHandler).Run (exec cleanFaults 1) w (.error (.store .fault), ic) w' :=
  ⟨_, _, .call (r := (100 : Int)) ⟨{ clock := 100 }, _, rfl, rfl⟩
    (.call (r := .error .fault) ⟨{ fault := .clean }, _, rfl, rfl⟩ (.ret _ _))⟩

theorem sample_failure_is_atomic : ∃ (c : Machine (Option (Ended × Writer))) (ic : Interceptor)
    (w : World), (traffic (sampleVisits (.ret none))).Reaches quietStart c ∧
    c.state.mem.sessions.get sampleSession ≠ none ∧
    (binding.process sampleHandler).Run (exec cleanFaults 1) c.state
      (.error (.store .fault), ic) w ∧
    Memory.SameEntries c.state.mem w.mem sampleSession := by
  have played : (play anyFaults (fun _ _ => true) (traffic (sampleVisits (.ret none))).prog quietStart
      loginMoves).any fun c => decide (c.state.mem.sessions.get sampleSession ≠ none) &&
        (own 1 c.state).isEmpty := by
    decide +kernel
  obtain ⟨c, reached, -, checked⟩ := reaches_of_played (fun _ => trivial) played
  obtain ⟨live, new⟩ := (Bool.and_eq_true _ _).mp checked
  have live : c.state.mem.sessions.get sampleSession ≠ none := of_decide_eq_true live
  obtain ⟨ic, w, run⟩ := binding_fails c.state
  refine ⟨c, ic, w, reached, live, run, ?_⟩
  apply failure_is_atomic.1 _ c reached 1 sampleHandler binding ic _ w
  · exact List.isEmpty_iff.mp new
  · rintro l ⟨⟩
    rfl
  · exact run
  · exact live

end Gosestor
