import Gosestor.Proof.Go.Strings
import Gosestor.Proof.Session.Integrity
import Mathlib.Order.Bounds.Basic

/-!
# Timeouts over whole runs

The last access of a session is the largest clock value of the calls that accessed it, whatever
order they come in, and its creation and its timeouts are those that `Begin` wrote.
-/

namespace Gosestor

open Gosestor.Go Gosestor.Lib Gosestor.Store

/-- `row'` is `row` at a later time. -/
structure Store.Session.Later (row row' : Session) : Prop where
  lastAccess : row.lastAccess ≤ row'.lastAccess
  lastRotation : row.lastRotation ≤ row'.lastRotation
  creation : row'.creation = row.creation
  inactiveTimeout : row'.inactiveTimeout = row.inactiveTimeout
  finalTimeout : row'.finalTimeout = row.finalTimeout

theorem Store.Session.Later.refl (row : Session) : row.Later row := ⟨le_rfl, le_rfl, rfl, rfl, rfl⟩

theorem Store.Session.Later.trans {row row' row'' : Session} (first : row.Later row')
    (next : row'.Later row'') : row.Later row'' where
  lastAccess := first.lastAccess.trans next.lastAccess
  lastRotation := first.lastRotation.trans next.lastRotation
  creation := next.creation.trans first.creation
  inactiveTimeout := next.inactiveTimeout.trans first.inactiveTimeout
  finalTimeout := next.finalTimeout.trans first.finalTimeout

theorem Store.Memory.touched_later {row : Session} {lastAccess legacy : Int}
    (timely : 0 ≤ legacy) : row.Later (touched row lastAccess legacy) where
  lastAccess := by
    simp only [touched]
    split <;> omega
  lastRotation := by
    simp only [touched]
    split <;> omega
  creation := rfl
  inactiveTimeout := rfl
  finalTimeout := rfl

theorem Store.Memory.controlled_later (row : Session) (c : SessionControls) :
    row.Later (controlled row c) where
  lastAccess := by
    simp only [controlled]
    split <;> omega
  lastRotation := by
    simp only [controlled]
    split <;> omega
  creation := rfl
  inactiveTimeout := rfl
  finalTimeout := rfl

def Store.StoreCall.accesses : StoreCall → Option GoString
  | .putSession row _ => some row.id
  | .touchSession id _ _ _ _ => some id
  | .applySessionControls id c _ _ =>
      if c.setOwner || c.setLabels || !c.cookies.isEmpty then some id else none
  | _ => none

/-- The call succeeded, even if its answer was lost on the way. -/
def Landed (m m' : Memory) {c : StoreCall} (r : c.Answer) : Prop :=
  (∀ cause, r ≠ .error cause) ∨ m' ≠ m

/-- `Begin`, a `TouchSession` that succeeded, or a commit that succeeded and set an owner, labels
or cookies. -/
def Accesses (e : Event) (s : GoString) : Prop :=
  match e.deed with
  | ⟨.store c, r⟩ => c.accesses = some s ∧ Landed e.before e.after r
  | _ => False

theorem Landed.performed {faults : Fault → Bool} {m m' : Memory} {c : StoreCall} {r : c.Answer}
    (landed : Landed m m' r) (served : Served faults m m' ⟨.store c, r⟩) :
    m' = (m.perform c).2 ∧ Landed m (m.perform c).2 (m.perform c).1 := by
  rcases served with ⟨order, answered, done⟩ | ⟨failed, same | ⟨-, done⟩⟩
  · refine ⟨done, landed.imp (fun succeeded cause error => ?_) (done ▸ ·)⟩
    rw [error, reorder_error] at answered
    exact succeeded cause (Option.some.inj answered).symm
  · exact absurd same (landed.resolve_left fun succeeded => succeeded _ failed)
  · refine ⟨done, .inr ?_⟩
    exact done ▸ landed.resolve_left fun succeeded => succeeded _ failed

theorem landed_touch {m : Memory} {id keyID : GoString} {lastAccess legacy : Int} {ttl : Duration}
    (landed : Landed m (m.perform (.touchSession id keyID lastAccess legacy ttl)).2
      (m.perform (.touchSession id keyID lastAccess legacy ttl)).1) :
    ∃ row, m.sessions.get id = some row ∧
      (m.perform (.touchSession id keyID lastAccess legacy ttl)).2.sessions.get id =
        some (Memory.touched row lastAccess legacy) := by
  rcases Memory.touchSession_cases m id keyID lastAccess legacy with
    ⟨same, cause, failed⟩ | ⟨row, found, -, done⟩
  · exact absurd same (landed.resolve_left fun succeeded => succeeded cause failed)
  · exact ⟨row, found, by simp [Memory.perform, done]⟩

theorem landed_commit {m : Memory} {id : GoString} {c : SessionControls} {ttl ownerTTL : Duration}
    (landed : Landed m (m.perform (.applySessionControls id c ttl ownerTTL)).2
      (m.perform (.applySessionControls id c ttl ownerTTL)).1) :
    ∃ row, m.sessions.get id = some row ∧
      (m.perform (.applySessionControls id c ttl ownerTTL)).2.sessions.get id =
        some (Memory.controlled row c) := by
  rcases Memory.applySessionControls_cases m id c with
    ⟨same, cause, failed⟩ | ⟨row, found, -, -, done⟩
  · exact absurd same (landed.resolve_left fun succeeded => succeeded cause failed)
  · exact ⟨row, found, by simp [Memory.perform, done, Memory.commit_sessions]⟩

namespace Session

variable {job : Nat → Job} {c c' : Machine Outcome} {s : GoString} {log : List Event}

/-- The clock values of the calls of `log` that accessed `s`. -/
def accessTimes (s : GoString) (log : List Event) : Set Int :=
  { now | ∃ later e earlier, log = later ++ e :: earlier ∧ Accesses e s ∧
    clock (ownDeeds e.tid earlier) = some now }

theorem mem_accessTimes_cons {e : Event} {now : Int} : now ∈ accessTimes s (e :: log) ↔
    (Accesses e s ∧ clock (ownDeeds e.tid log) = some now) ∨ now ∈ accessTimes s log := by
  constructor
  · rintro ⟨later, e', earlier, split, accesses, read⟩
    cases later with
    | nil =>
        obtain ⟨rfl, rfl⟩ := List.cons.inj split
        exact .inl ⟨accesses, read⟩
    | cons newest later =>
        obtain ⟨-, rfl⟩ := List.cons.inj split
        exact .inr ⟨later, e', earlier, rfl, accesses, read⟩
  · rintro (⟨accesses, read⟩ | ⟨later, e', earlier, rfl, accesses, read⟩)
    · exact ⟨[], e, log, rfl, accesses, read⟩
    · exact ⟨e :: later, e', earlier, rfl, accesses, read⟩

/-- `first` is the row of `s` that a `Begin` wrote in `log`. -/
def Created (job : Nat → Job) (s : GoString) (log : List Event) (first : Session) : Prop :=
  ∃ later b earlier ttl now, log = later ++ b :: earlier ∧
    b.call = .store (.putSession first ttl) ∧ clock (ownDeeds b.tid earlier) = some now ∧
    first = (job b.tid).manager.newSession s now

theorem Created.cons {first : Session} (begun : Created job s log first) (e : Event) :
    Created job s (e :: log) first := by
  obtain ⟨later, b, earlier, ttl, now, rfl, rest⟩ := begun
  exact ⟨e :: later, b, earlier, ttl, now, rfl, rest⟩

structure Tracked (job : Nat → Job) (s : GoString) (log : List Event) (row : Session) : Prop where
  latest : IsGreatest (accessTimes s log) row.lastAccess
  begun : ∃ first, Created job s log first ∧ first.Later row
  nonneg : 0 ≤ row.creation ∧ 0 ≤ row.lastAccess

section Step

variable {t : Nat} {w w' : World} {call : Call} {r : call.Answer} {row row' : Session}

theorem accessed_used (inv : Inv anyFaults w) {now : Int} (accessed : now ∈ accessTimes s w.log) :
    ∃ t, Used (own t w) s := by
  obtain ⟨later, e, earlier, split, accesses, -⟩ := accessed
  have logged : e ∈ w.log := by simp [split]
  have served := inv.chained.served logged
  have mine := mem_own.mpr ⟨e, logged, rfl, rfl⟩
  unfold Accesses at accesses
  split at accesses
  · rename_i c r deed
    rw [deed] at served mine
    obtain ⟨named, landed⟩ := accesses
    obtain ⟨-, landed⟩ := landed.performed served
    cases c with
    | putSession row ttl => exact ⟨e.tid, _, mine, named⟩
    | touchSession id keyID lastAccess legacy ttl =>
        obtain ⟨row, found, -⟩ := landed_touch landed
        cases named
        exact inv.seenSession logged (by simp [found])
    | applySessionControls id ctl ttl ownerTTL =>
        obtain ⟨row, found, -⟩ := landed_commit landed
        simp only [StoreCall.accesses, Option.ite_none_right_eq_some, Option.some.injEq] at named
        obtain ⟨-, rfl⟩ := named
        exact inv.seenSession logged (by simp [found])
    | _ => cases named
  · exact accesses.elim

theorem step_advances (recording : Recording job w) (proper : Proper (own t w) call)
    (recorded : Recorded (job t).manager (own t w) call) (step : exec anyFaults t w call r w')
    (found : w.mem.sessions.get s = some row) (found' : w'.mem.sessions.get s = some row')
    (nonneg : 0 ≤ row.lastAccess) :
    row.Later row' ∧ (row'.lastAccess = row.lastAccess ∨
      Accesses ⟨t, ⟨call, r⟩, w.mem, w'.mem⟩ s ∧ clock (own t w) = some row'.lastAccess) := by
  rcases served_mem (exec_served step) with same | ⟨sc, rfl, done⟩
  · rw [same, found] at found'
    cases found'
    exact ⟨.refl row, .inl rfl⟩
  · have moved : row'.lastAccess ≠ row.lastAccess → w'.mem ≠ w.mem := by
      intro differ same
      rw [same, found] at found'
      cases found'
      exact differ rfl
    have change := Memory.perform_change w.mem sc
    rw [← done] at change
    rcases change.rewrites found found' with
      rfl | ⟨ttl, rfl, rfl⟩ | ⟨keyID, lastAccess, legacy, ttl, rfl, rfl⟩ |
        ⟨ctl, asks, -, -, rfl⟩
    · exact ⟨.refl _, .inl rfl⟩
    · simp [recording.inv.freeSession proper.1] at found
    · refine ⟨Memory.touched_later proper, ?_⟩
      by_cases newer : lastAccess > row.lastAccess
      · have now : (Memory.touched row lastAccess legacy).lastAccess = lastAccess := if_pos newer
        refine .inr ⟨⟨rfl, .inr (moved ?_)⟩, ?_⟩
        · omega
        · rw [now]
          exact recorded.2
      · exact .inl (if_neg newer)
    · refine ⟨Memory.controlled_later row ctl, ?_⟩
      by_cases newer : ctl.lastAccess > row.lastAccess
      · have now : (Memory.controlled row ctl).lastAccess = ctl.lastAccess := if_pos newer
        cases sc with
        | applySessionControls id c ttl ownerTTL =>
            cases asks
            obtain ⟨read, -⟩ := recorded.2
            split_ifs at read with sets
            · refine .inr ⟨⟨if_pos sets, .inr (moved ?_)⟩, ?_⟩
              · omega
              · rw [now]
                exact read
            · omega
        | rotateSessionKey id oldKeyID newKeyID lastRotation ttl =>
            cases asks
            simp only at newer
            omega
        | _ => cases asks
      · exact .inl (if_neg newer)

theorem step_bounds (recording : Recording job w) (proper : Proper (own t w) call)
    (recorded : Recorded (job t).manager (own t w) call) (step : exec anyFaults t w call r w')
    (found : w.mem.sessions.get s = some row) (found' : w'.mem.sessions.get s = some row')
    (accesses : Accesses ⟨t, ⟨call, r⟩, w.mem, w'.mem⟩ s) {now : Int}
    (read : clock (own t w) = some now) : now ≤ row'.lastAccess := by
  cases call with
  | store sc =>
      obtain ⟨named, landed⟩ : sc.accesses = some s ∧ Landed w.mem w'.mem r := accesses
      obtain ⟨done, landed⟩ := Landed.performed landed (exec_served step)
      rw [done] at found'
      cases sc with
      | putSession session ttl =>
          cases named
          simp [recording.inv.freeSession proper.1] at found
      | touchSession id keyID lastAccess legacy ttl =>
          cases named
          obtain ⟨row, -, touched⟩ := landed_touch landed
          cases touched.symm.trans found'
          cases recorded.2.symm.trans read
          simp only [Memory.touched]
          split <;> omega
      | applySessionControls id ctl ttl ownerTTL =>
          simp only [StoreCall.accesses, Option.ite_none_right_eq_some, Option.some.injEq] at named
          obtain ⟨sets, rfl⟩ := named
          obtain ⟨row, -, committed⟩ := landed_commit landed
          cases committed.symm.trans found'
          have timed := recorded.2.1
          rw [if_pos sets] at timed
          cases timed.symm.trans read
          simp only [Memory.controlled]
          split <;> omega
      | _ => cases named
  | _ => exact accesses.elim

theorem Tracked.step (recording : Recording job w) (proper : Proper (own t w) call)
    (recorded : Recorded (job t).manager (own t w) call) (step : exec anyFaults t w call r w')
    (tracked : ∀ row, w.mem.sessions.get s = some row → Tracked job s w.log row)
    (found' : w'.mem.sessions.get s = some row') : Tracked job s w'.log row' := by
  rw [exec_log step]
  cases found : w.mem.sessions.get s with
  | some row =>
      have old := tracked row found
      obtain ⟨later, moved⟩ :=
        step_advances recording proper recorded step found found' old.nonneg.2
      refine ⟨⟨?_, ?_⟩, ?_, ?_⟩
      · rw [mem_accessTimes_cons]
        rcases moved with same | ⟨accesses, read⟩
        · exact .inr (same ▸ old.latest.1)
        · exact .inl ⟨accesses, read⟩
      · intro now accessed
        rcases mem_accessTimes_cons.mp accessed with ⟨accesses, read⟩ | earlier
        · exact step_bounds recording proper recorded step found found' accesses read
        · exact (old.latest.2 earlier).trans later.lastAccess
      · obtain ⟨first, begun, since⟩ := old.begun
        exact ⟨first, begun.cons _, since.trans later⟩
      · exact ⟨later.creation ▸ old.nonneg.1, old.nonneg.2.trans later.lastAccess⟩
  | none =>
      rcases served_mem (exec_served step) with same | ⟨sc, rfl, done⟩
      · simp [same, found] at found'
      · have change := Memory.perform_change w.mem sc
        rw [← done] at change
        obtain ⟨ttl, rfl, rfl⟩ := change.creates found found'
        obtain ⟨now, read, written⟩ := recorded.2
        have fresh := recording.inv.unused proper.1
        have never : ∀ x, x ∉ accessTimes row'.id w.log := fun x accessed =>
          fresh (accessed_used recording.inv accessed)
        have times : row'.lastAccess = now ∧ row'.creation = now ∧ row'.lastRotation = now := by
          rw [written]
          exact ⟨rfl, rfl, rfl⟩
        have created : w'.mem ≠ w.mem := by
          intro same
          simp [same, found] at found'
        have nonneg := proper.2.2
        refine ⟨⟨?_, ?_⟩, ?_, by omega⟩
        · rw [mem_accessTimes_cons, times.1]
          exact .inl ⟨⟨rfl, .inr created⟩, read⟩
        · intro x accessed
          rcases mem_accessTimes_cons.mp accessed with ⟨-, same⟩ | earlier
          · cases read.symm.trans same
            exact times.1.ge
          · exact absurd earlier (never x)
        · exact ⟨row', ⟨[], _, _, ttl, now, rfl, rfl, read, written⟩, .refl row'⟩

end Step

theorem tracked_run (run : (jobs job).Reaches idle c) {row : Session}
    (found : c.state.mem.sessions.get s = some row) : Tracked job s c.state.log row := by
  induction run generalizing row with
  | refl => cases found
  | tail before step ih =>
      cases step with
      | start t idle isReady => exact ih found
      | act t running step =>
          have good := recordingJobs before
          obtain ⟨⟨proper, contained⟩, -⟩ := good.running running
          exact Tracked.step good.inv proper contained.recorded step (fun _ => ih) found

theorem later_run (before : (jobs job).Reaches idle c) (run : (jobs job).Reaches c c')
    {row row' : Session} (found : c.state.mem.sessions.get s = some row)
    (found' : c'.state.mem.sessions.get s = some row') : row.Later row' := by
  induction run generalizing row' with
  | refl =>
      cases found.symm.trans found'
      exact .refl row
  | @tail mid last run step ih =>
      cases step with
      | start t idle isReady => exact ih found'
      | @act t call next running r w' step =>
          have sofar := before.trans run
          have good := recordingJobs sofar
          obtain ⟨⟨proper, contained⟩, -⟩ := good.running running
          cases still : mid.state.mem.sessions.get s with
          | some row' =>
              have nonneg := (tracked_run sofar still).nonneg.2
              exact (ih still).trans
                (step_advances good.inv proper contained.recorded step still found' nonneg).1
          | none =>
              rcases served_mem (exec_served step) with same | ⟨sc, rfl, done⟩
              · simp [same, still] at found'
              · have change := Memory.perform_change mid.state.mem sc
                rw [← done] at change
                obtain ⟨ttl, rfl, rfl⟩ := change.creates still found'
                have stored : c.state.mem.sessions.get row'.id ≠ none := by simp [found]
                obtain ⟨u, d, member, named⟩ := (jobs_good before).inv.sessionUsed stored
                obtain ⟨e, logged, rest⟩ := mem_own.mp member
                have used := mem_own.mpr ⟨e, log_grows run logged, rest⟩
                exact absurd ⟨u, d, used, named⟩ (good.inv.inv.unused proper.1)

/-- The clock readings and the configured lifetimes are values of `int64`. -/
structure Representable (job : Nat → Job) (log : List Event) : Prop where
  clocks : ∀ e ∈ log, ∀ now, Deed.clock e.deed = some now → now < 2 ^ 63
  finals : ∀ t, -2 ^ 63 ≤ (job t).manager.cfg.final

theorem Representable.clock (fits : Representable job log) {past : List Event} {t : Nat} {now : Int}
    (part : past ⊆ log) (read : clock (ownDeeds t past) = some now) : now < 2 ^ 63 := by
  obtain ⟨d, member, named⟩ := List.exists_of_findSome?_eq_some read
  obtain ⟨e, logged, -, rfl⟩ : ∃ e ∈ past, e.tid = t ∧ e.deed = d := by
    simpa [ownDeeds, and_assoc] using member
  exact fits.clocks e (part logged) now named

theorem reading_nonneg (run : (jobs job).Reaches idle c) {e : Event} (logged : e ∈ c.state.log)
    {now : Int} (read : e.deed = ⟨.now, now⟩) : 0 ≤ now := by
  obtain ⟨w, w', recording, step, -⟩ := recorded_event run logged
  have legal : Legal (own e.tid w) e.deed.1 e.deed.2 := exec_legal recording.inv.wf.timely step
  rw [read] at legal
  exact legal

theorem live_of_not_expired {row : Session} {now : Int} (live : Manager.expired row now = false)
    (clock : 0 ≤ now ∧ now < 2 ^ 63) (access : 0 ≤ row.lastAccess ∧ row.lastAccess < 2 ^ 63)
    (final : -2 ^ 63 ≤ row.creation + row.finalTimeout) :
    now < row.creation + row.finalTimeout ∧ now - row.lastAccess < row.inactiveTimeout := by
  simp only [Manager.expired, Bool.or_eq_false_iff, decide_eq_false_iff_not, not_le] at live
  obtain ⟨active, young⟩ := live
  rw [int64_of_range (by omega) (by omega)] at active
  exact ⟨young.trans_le (int64_le final), active⟩

/-- A handle is returned only within both timeouts, and no call extends a lifetime or takes a time
back. -/
theorem timeouts_enforced (job : Nat → Job) {c : Machine Outcome}
    (run : (jobs job).Reaches idle c) (fits : Representable job c.state.log) :
    (∀ t keyID live, (job t).op = .resolve keyID →
      c.thread t = some (.ret (.resolved (.ok (some live)))) →
      ∃ later read earlier now first latest, c.state.log = later ++ read :: earlier ∧
        read.tid = t ∧ read.call = .store (.getSession live.sessionID) ∧
        clock (own t c.state) = some now ∧ Created job live.sessionID earlier first ∧
        now < first.creation + first.finalTimeout ∧
        IsGreatest (accessTimes live.sessionID earlier) latest ∧
        now - latest < first.inactiveTimeout) ∧
    ∀ c', (jobs job).Reaches c c' → ∀ s row row', c.state.mem.sessions.get s = some row →
      c'.state.mem.sessions.get s = some row' → row.Later row' := by
  refine ⟨?_, fun c' onward s row row' => later_run run onward⟩
  intro t keyID live op done
  have resolved : Resolved (job t).manager keyID live [] (own t c.state) :=
    (jobs_good run).running done keyID live op rfl
  obtain ⟨row, now, ttl, alive, -, -, -, -, history⟩ := resolved
  obtain ⟨later, read, earlier, split, tid, deed, newer, -⟩ :=
    ownDeeds_split [_, _, _, ⟨.now, now⟩] history
  obtain ⟨mid, next, w', before, running, step, log, same, -⟩ := logged_step run rfl split
  have found : mid.state.mem.sessions.get live.sessionID = some row := by
    have served := (jobs_good run).inv.chained.served (e := read) (by simp [split])
    rw [deed] at served
    exact same ▸ served_getSession served
  have tracked := tracked_run before found
  rw [log] at tracked
  obtain ⟨first, begun, since⟩ := tracked.begun
  have reading : clock (own t c.state) = some now := by
    rw [history]
    rfl
  have legal : 0 ≤ now ∧ now < 2 ^ 63 := by
    have mine : (⟨.now, now⟩ : Deed) ∈ own t c.state := by simp [history]
    obtain ⟨e, logged, -, read⟩ := mem_own.mp mine
    exact ⟨reading_nonneg run logged read, fits.clocks e logged now (by rw [read]; rfl)⟩
  have access : 0 ≤ row.lastAccess ∧ row.lastAccess < 2 ^ 63 := by
    obtain ⟨later', e, older, rest, -, reading⟩ := tracked.latest.1
    refine ⟨tracked.nonneg.2, fits.clock (fun e' member => ?_) reading⟩
    simp [split, rest, member]
  have final : -2 ^ 63 ≤ row.creation + row.finalTimeout := by
    obtain ⟨-, b, -, -, began, -, -, -, written⟩ := begun
    have configured : row.finalTimeout = Duration.truncSeconds (job b.tid).manager.cfg.final := by
      rw [since.finalTimeout, written]
      rfl
    have bounded : (-2 ^ 63 : Int) ≤ row.finalTimeout := by
      rw [configured]
      exact (le_min (fits.finals b.tid) (by decide)).trans (min_le_truncSeconds _)
    have nonneg := tracked.nonneg.1
    omega
  obtain ⟨young, active⟩ := live_of_not_expired alive legal access final
  refine ⟨later, read, earlier, now, first, row.lastAccess, split, tid, ?_, reading, begun, ?_,
    tracked.latest, ?_⟩
  · simp [Event.call, deed]
  · rwa [since.creation, since.finalTimeout] at young
  · rwa [since.inactiveTimeout] at active

theorem sample_resolves_in_time : ∃ c live now earlier first latest,
    (jobs (sampleJobs fun _ => .resolve sampleKey)).Reaches idle c ∧
    c.thread 1 = some (.ret (.resolved (.ok (some live)))) ∧ clock (own 1 c.state) = some now ∧
    Created (sampleJobs fun _ => .resolve sampleKey) live.sessionID earlier first ∧
    IsGreatest (accessTimes live.sessionID earlier) latest ∧
    now - latest < first.inactiveTimeout := by
  have played : (play anyFaults (fun _ _ => true) (jobs (sampleJobs fun _ => .resolve sampleKey)).prog
      idle resolveMoves).any fun c => (resolvedLive c 1).isSome &&
        c.state.log.all fun e => (Deed.clock e.deed).all fun now => decide (now < 2 ^ 63) := by
    decide +kernel
  obtain ⟨c, run, -, checked⟩ := reaches_of_played (fun _ => trivial) played
  obtain ⟨returned, clocks⟩ := (Bool.and_eq_true _ _).mp checked
  obtain ⟨live, found⟩ := Option.isSome_iff_exists.mp returned
  have fits : Representable (sampleJobs fun _ => .resolve sampleKey) c.state.log := by
    constructor
    · intro e logged now read
      have fits := List.all_eq_true.mp clocks e logged
      simpa [read] using fits
    · intro t
      have same : (sampleJobs (fun _ => .resolve sampleKey) t).manager = sampleManager := by
        cases t <;> rfl
      rw [same]
      decide
  obtain ⟨later, read, earlier, now, first, latest, -, -, -, reading, begun, -, greatest, active⟩ :=
    (timeouts_enforced _ run fits).1 1 sampleKey live rfl (resolvedLive_eq found)
  exact ⟨c, live, now, earlier, first, latest, run, resolvedLive_eq found, reading, begun, greatest,
    active⟩

end Session

end Gosestor
