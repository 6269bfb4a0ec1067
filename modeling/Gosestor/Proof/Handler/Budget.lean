import Gosestor.Proof.Handler.Frugal
import Mathlib.Algebra.BigOperators.Group.Finset.Piecewise
import Mathlib.Algebra.Order.BigOperators.Group.Finset

/-!
# The staging budget

What is used of the budget is the sum over the responses, and a response that was closed holds
nothing.
-/

namespace Gosestor

open Gosestor.Go Gosestor.Lib Gosestor.Session Relation
open scoped BigOperators

variable {past : History}

variable {t : Nat} {w w' : World} {c : Call} {r : c.Answer} {log : List Event}

def spent (log : List Event) : Int := (log.map fun e => Deed.charge e.deed).sum

/-- What is used of the budget was reserved and not yet released. -/
structure Accounted (w : World) : Prop where
  used : w.stagedBytes = spent w.log
  within : w.stagedBytes ≤ stagedResponseAggregateBytes
  nonneg : ∀ t, 0 ≤ held (own t w)

theorem accounted_initial : Accounted {} := ⟨rfl, by decide, fun _ => le_rfl⟩

theorem exec_stagedBytes (step : exec anyFaults t w c r w') (frugal : Frugal (own t w) c)
    (within : w.stagedBytes ≤ stagedResponseAggregateBytes) :
    w'.stagedBytes = w.stagedBytes + Deed.charge ⟨c, r⟩ ∧
      w'.stagedBytes ≤ stagedResponseAggregateBytes := by
  obtain ⟨o, w₁, answered, rfl⟩ := step
  have kept : w₁.stagedBytes = w.stagedBytes → Deed.charge ⟨c, r⟩ = 0 →
      (record t w c r w₁).stagedBytes = w.stagedBytes + Deed.charge ⟨c, r⟩ ∧
        (record t w c r w₁).stagedBytes ≤ stagedResponseAggregateBytes := by
    intro same free
    simp only [record]
    omega
  cases c with
  | reserve n =>
      simp only [respond] at answered
      split_ifs at answered with full
      · cases answered
        exact kept rfl rfl
      · cases answered
        dsimp only [record, Deed.charge]
        omega
  | release n =>
      cases answered
      have nonneg : 0 ≤ n := frugal.1
      dsimp only [record, Deed.charge]
      omega
  | store sc =>
      simp only [respond, Option.map_eq_some_iff] at answered
      obtain ⟨⟨r', mem⟩, -, same⟩ := answered
      cases same
      exact kept rfl rfl
  | randomRead =>
      simp only [respond] at answered
      split at answered
      · cases answered
        exact kept rfl rfl
      · split_ifs at answered
        cases answered
        exact kept rfl rfl
  | now | wallClock | fileWrite p | fileCopy p | write p =>
      simp only [respond] at answered
      split_ifs at answered
      cases answered
      exact kept rfl rfl
  | _ =>
      cases answered
      exact kept rfl rfl

theorem Accounted.step (accounted : Accounted w) (frugal : Frugal (own t w) c)
    (step : exec anyFaults t w c r w') : Accounted w' := by
  obtain ⟨used, within⟩ := exec_stagedBytes step frugal accounted.within
  refine ⟨?_, within, fun u => ?_⟩
  · rw [used, accounted.used, exec_log step]
    exact Int.add_comm _ _
  · have before := accounted.nonneg u
    by_cases same : t = u
    · subst same
      rw [exec_own step, held_cons]
      cases c with
      | reserve n =>
          have nonneg : 0 ≤ n := frugal
          cases r <;> simp only [Deed.charge] <;> omega
      | release n =>
          have covered : n ≤ held (own t w) := frugal.2
          simp only [Deed.charge]
          omega
      | _ => simpa [Deed.charge] using before
    · rwa [exec_own_other step same]

theorem spent_eq_sum {T : Finset Nat} (covered : ∀ e ∈ log, e.tid ∈ T) :
    spent log = ∑ t ∈ T, held (ownDeeds t log) := by
  induction log with
  | nil => simp [spent, ownDeeds]
  | cons e log ih =>
      have share : ∀ t, held (ownDeeds t (e :: log)) =
          (if e.tid = t then Deed.charge e.deed else 0) + held (ownDeeds t log) := by
        intro t
        by_cases mine : e.tid = t
        · simp [ownDeeds, mine]
        · simp [ownDeeds, mine]
      have rest := ih fun e' member => covered e' (List.mem_cons_of_mem _ member)
      simp only [share, Finset.sum_add_distrib, Finset.sum_ite_eq, if_pos (covered e List.mem_cons_self),
        ← rest]
      rfl

theorem Accounted.sum (accounted : Accounted w) {T : Finset Nat}
    (silent : ∀ t ∉ T, own t w = []) : w.stagedBytes = ∑ t ∈ T, held (own t w) := by
  rw [accounted.used]
  apply spent_eq_sum
  intro e logged
  by_contra outside
  have mine : e.deed ∈ own e.tid w := mem_own.mpr ⟨e, logged, rfl, rfl⟩
  simp [silent e.tid outside] at mine

theorem Accounted.stagedBytes_nonneg (accounted : Accounted w) {T : Finset Nat}
    (silent : ∀ t ∉ T, own t w = []) : 0 ≤ w.stagedBytes := by
  rw [accounted.sum silent]
  exact Finset.sum_nonneg fun t _ => accounted.nonneg t

def Rested (done : BetweenOps) (past : History) : Prop :=
  Balanced done.ic.body past ∧ (done.last = some .close → done.ic.body.reserved = 0)

theorem StagingOp.prog_frugal (op : StagingOp) {ic : Interceptor}
    (balanced : Balanced ic.body past) : Obeys Frugal Rested (op.prog ic) past := by
  unfold StagingOp.prog
  apply Prog.Wp.bind
  cases op with
  | write p =>
      exact Prog.Wp.bind ((StagedBody.write_frugal balanced).weaken fun _ _ done =>
        ⟨done, fun last => by cases last⟩)
  | reserveMetadataBytes n =>
      refine Prog.Wp.bind ((Interceptor.reserveMetadataBytes_frugal balanced
        (Int.natCast_nonneg n)).weaken fun _ _ done => ?_)
      exact ⟨done, fun last => by cases last⟩
  | reset =>
      exact Prog.Wp.bind ((StagedBody.reset_frugal balanced).weaken fun _ _ done =>
        ⟨done.1, fun _ => done.2.1⟩)
  | close =>
      have nonneg := balanced.nonneg.trans balanced.size
      exact Prog.Wp.bind ((StagedBody.close_frugal balanced.reserved nonneg).weaken fun _ _ done =>
        ⟨done.1, fun _ => done.2.1⟩)
  | releaseTerminalStaging =>
      exact (Interceptor.releaseTerminalStaging_frugal balanced).weaken fun _ _ done =>
        ⟨done, fun last => by cases last⟩

theorem StagingOp.prog_staging (op : StagingOp) (ic : Interceptor) :
    Obeys (fun _ => Staging) (fun _ _ => True) (op.prog ic) past := by
  unfold StagingOp.prog
  apply Prog.Wp.bind
  cases op with
  | write p => exact Prog.Wp.bind ((ic.body.write_obeys p).weaken fun _ _ _ => trivial)
  | reserveMetadataBytes n =>
      exact Prog.Wp.bind ((ic.reserveMetadataBytes_obeys n).weaken fun _ _ _ => trivial)
  | reset => exact Prog.Wp.bind (ic.body.reset_obeys.weaken fun _ _ _ => trivial)
  | close => exact Prog.Wp.bind (ic.body.close_obeys.weaken fun _ _ _ => trivial)
  | releaseTerminalStaging => exact Prog.Wp.bind (ic.body.reset_obeys.weaken fun _ _ _ => trivial)

/-- The budget is accounted for, and every response is verified from its own history on. -/
structure Sharing (c : Machine BetweenOps) : Prop where
  accounted : Accounted c.state
  still : c.state.mem = Store.newMemory
  idle : ∀ {t}, c.thread t = none → own t c.state = []
  running : ∀ {t p}, c.thread t = some p →
    Obeys (fun past call => Frugal past call ∧ Staging call) Rested p (own t c.state)
  finite : ∃ T : Finset Nat, ∀ t ∉ T, c.thread t = none

theorem sharing_initial : Sharing (.initial {}) where
  accounted := accounted_initial
  still := rfl
  idle _ := rfl
  running := by simp [Config.initial]
  finite := ⟨∅, fun _ _ => rfl⟩

theorem Sharing.finite_update {c : Machine BetweenOps} (sharing : Sharing c) (t : Nat)
    (p : Act BetweenOps) :
    ∃ T : Finset Nat, ∀ u ∉ T, Function.update c.thread t (some p) u = none := by
  obtain ⟨T, outside⟩ := sharing.finite
  refine ⟨insert t T, fun u other => ?_⟩
  rw [Finset.mem_insert, not_or] at other
  rw [Function.update_of_ne other.1]
  exact outside u other.2

theorem Sharing.started {c : Machine BetweenOps} (sharing : Sharing c) {t : Nat}
    {p : Act BetweenOps}
    (obeys : Obeys (fun past call => Frugal past call ∧ Staging call) Rested p (own t c.state)) :
    Sharing { c with thread := Function.update c.thread t (some p) } where
  accounted := sharing.accounted
  still := sharing.still
  idle := by
    intro u idle
    by_cases same : u = t
    · subst same
      simp at idle
    · simp only [Function.update_of_ne same] at idle
      exact sharing.idle idle
  running := by
    intro u p' running
    by_cases same : u = t
    · subst same
      simp only [Function.update_self, Option.some.injEq] at running
      subst running
      exact obeys
    · simp only [Function.update_of_ne same] at running
      exact sharing.running running
  finite := sharing.finite_update t p

theorem Sharing.step {c c' : Machine BetweenOps} (sharing : Sharing c) (step : StagingStep c c') :
    Sharing c' := by
  cases step with
  | start t idle ic fresh =>
      apply sharing.started
      rw [sharing.idle idle]
      refine ⟨?_, fun last => by cases last⟩
      rw [fresh]
      exact Handler.balanced_empty rfl
  | @operate t done between op =>
      have rested : Rested done (own t c.state) := sharing.running between
      apply sharing.started
      exact ((op.prog_frugal rested.1).and (op.prog_staging done.ic)).weaken fun _ _ done => done.1
  | @act t request next running answer w step =>
      obtain ⟨⟨frugal, staging⟩, rest⟩ := sharing.running running
      have timely : c.state.mem.Timely := by
        rw [sharing.still]
        exact Store.Memory.newMemory_wf.timely
      refine ⟨sharing.accounted.step frugal step, ?_, ?_, ?_, sharing.finite_update t _⟩
      · rcases served_mem (exec_served step) with same | ⟨sc, rfl, -⟩
        · exact same.trans sharing.still
        · exact staging.elim
      · intro u idle
        by_cases same : u = t
        · subst same
          simp at idle
        · simp only [Function.update_of_ne same] at idle
          rw [exec_own_other step (Ne.symm same)]
          exact sharing.idle idle
      · intro u p running'
        by_cases same : u = t
        · subst same
          simp only [Function.update_self, Option.some.injEq] at running'
          subst running'
          exact rest answer _ ⟨exec_legal timely step, exec_own step⟩
        · simp only [Function.update_of_ne same] at running'
          rw [exec_own_other step (Ne.symm same)]
          exact sharing.running running'

theorem sharing_run {c : Machine BetweenOps} (run : StagingReaches (.initial {}) c) : Sharing c := by
  induction run with
  | refl => exact sharing_initial
  | tail _ step ih => exact ih.step step

theorem Sharing.reservedOf_eq {c : Machine BetweenOps} (sharing : Sharing c) (t : Nat) :
    reservedOf c t = held (own t c.state) := by
  unfold reservedOf
  split
  · rename_i done between
    have rested : Rested done (own t c.state) := sharing.running between
    exact rested.1.reserved
  · rfl

structure Budgeted (visit : Nat → Visit) (w : World) : Prop where
  sound : Sound visit w
  accounted : Accounted w

theorem traffic_budgeted {visit : Nat → Visit} {c : Machine (Option (Ended × Writer))}
    (run : (traffic visit).Reaches quietStart c) :
    Good (traffic visit)
      (histories anyFaults {} (Budgeted visit) (fun budgeted => budgeted.sound.inv.wf.timely))
      (fun t past call => (visit t).Careful past call ∧ Frugal past call)
      (fun _ _ past => held past = 0) c := by
  refine Good.reaches ?_ (fun _ _ => trivial) ?_
    (.initial ⟨sound_initial, accounted_initial⟩ fun _ => rfl) run
  · intro t w _
    exact ((visit t).prog_obeys.and (visit t).prog_frugal).weaken fun _ _ done => done.2
  · intro t w call r w' budgeted _ allowed step
    exact ⟨budgeted.sound.step allowed.1 step, budgeted.accounted.step allowed.2 step⟩

theorem reaches_finite {α : Type} {S : System (exec anyFaults) α} {c c' : Machine α}
    (run : S.Reaches c c') (before : ∃ T : Finset Nat, ∀ t ∉ T, c.thread t = none) :
    ∃ T : Finset Nat, ∀ t ∉ T, c'.thread t = none := by
  induction run with
  | refl => exact before
  | tail _ step ih =>
      obtain ⟨T, outside⟩ := ih
      cases step with
      | start t idle isReady | act t running step =>
          refine ⟨insert t T, fun u other => ?_⟩
          rw [Finset.mem_insert, not_or] at other
          simp only [Function.update_of_ne other.1]
          exact outside u other.2

/-- What is used of the budget is the sum of the `reserved` fields, under any interleaving and any
failures, and a response that was closed, or whose `ServeHTTP` is over, holds nothing. -/
theorem staging_budget_balanced :
    (∀ c, StagingReaches (.initial {}) c →
      (∃ T : Finset Nat, (∀ t ∉ T, c.thread t = none) ∧
        c.state.stagedBytes = ∑ t ∈ T, reservedOf c t) ∧
      0 ≤ c.state.stagedBytes ∧ c.state.stagedBytes ≤ stagedResponseAggregateBytes ∧
      ∀ t done, c.thread t = some (.ret done) →
        done.ic.body.size ≤ stagedResponseMaxBytes ∧ 0 ≤ done.ic.body.size ∧
        done.ic.body.size ≤ done.ic.body.reserved ∧
        (done.last = some .close → done.ic.body.reserved = 0)) ∧
    ∀ visit c, (traffic visit).Reaches quietStart c →
      (∃ T : Finset Nat, (∀ t ∉ T, c.thread t = none) ∧
        c.state.stagedBytes = ∑ t ∈ T, held (own t c.state)) ∧
      0 ≤ c.state.stagedBytes ∧ c.state.stagedBytes ≤ stagedResponseAggregateBytes ∧
      ∀ t result, c.thread t = some (.ret result) → held (own t c.state) = 0 := by
  constructor
  · intro c run
    have sharing := sharing_run run
    obtain ⟨T, outside⟩ := sharing.finite
    have silent : ∀ t ∉ T, own t c.state = [] := fun t other => sharing.idle (outside t other)
    refine ⟨⟨T, outside, ?_⟩, sharing.accounted.stagedBytes_nonneg silent,
      sharing.accounted.within, ?_⟩
    · simp only [sharing.reservedOf_eq]
      exact sharing.accounted.sum silent
    · intro t done between
      have rested : Rested done (own t c.state) := sharing.running between
      exact ⟨rested.1.bounded, rested.1.nonneg, rested.1.size, rested.2⟩
  · intro visit c run
    have good := traffic_budgeted run
    obtain ⟨T, outside⟩ := reaches_finite run ⟨∅, fun _ _ => rfl⟩
    have silent : ∀ t ∉ T, own t c.state = [] := fun t other => good.idle (outside t other)
    refine ⟨⟨T, outside, good.inv.accounted.sum silent⟩,
      good.inv.accounted.stagedBytes_nonneg silent, good.inv.accounted.within, ?_⟩
    intro t result done
    exact good.running done

def sampleStaging : Interceptor :=
  { w := {}, live := none, responseHeader := ∅, hadProxyCookie := false, resolveErr := none }

def sampleOpened : Machine BetweenOps :=
  ⟨{}, Function.update (fun _ => none) 0 (some (.ret ⟨none, sampleStaging⟩))⟩

def sampleWriting : Machine BetweenOps :=
  ⟨{}, Function.update sampleOpened.thread 0
    (some ((StagingOp.write [1, 2, 3]).prog sampleStaging))⟩

theorem sample_write_is_accounted : ∃ c, StagingReaches (.initial {}) c ∧
    c.state.stagedBytes = 3 ∧ ∃ T : Finset Nat, 3 = ∑ t ∈ T, reservedOf c t := by
  have started : StagingStep (.initial {}) sampleOpened := .start 0 rfl sampleStaging rfl
  have between : sampleOpened.thread 0 = some (.ret ⟨none, sampleStaging⟩) := rfl
  have operated : StagingStep sampleOpened sampleWriting := .operate 0 between (.write [1, 2, 3])
  have reserved : exec anyFaults 0 sampleWriting.state (.reserve 3) true
      (record 0 {} (.reserve 3) true { stagedBytes := 3 }) := ⟨{}, _, rfl, rfl⟩
  have acted := StagingStep.act 0 (show sampleWriting.thread 0 = some (.call (.reserve 3) _) from rfl)
    reserved
  have run := ((ReflTransGen.single started).tail operated).tail acted
  obtain ⟨⟨T, -, sum⟩, -⟩ := staging_budget_balanced.1 _ run
  exact ⟨_, run, rfl, T, sum⟩

end Gosestor
