import Gosestor.Proof.Session.Runs
import Gosestor.Proof.Store.Integrity

/-!
# Logout everywhere

`RevokeOwner` among other jobs: it reaches every session that its owner keeps, it deletes no
session of another owner, and it reports an error exactly when one of its calls failed.
-/

namespace Gosestor

open Gosestor.Go Gosestor.Lib Gosestor.Store

variable {faults : Fault → Bool} {m m' : Memory} {owner : Int} {s : GoString}

def Owned (m : Memory) (owner : Int) (s : GoString) : Prop :=
  ∃ row, m.sessions.get s = some row ∧ row.ownerID = owner ∧ 0 < owner

theorem mem_ownerSessions : s ∈ m.ownerSessions owner ↔ InIndex m.owners owner s := by
  unfold Memory.ownerSessions InIndex
  rw [GoMap.mem_keys, Option.ne_none_iff_exists']
  constructor
  · rintro ⟨⟨⟩, found⟩
    exact found
  · intro found
    exact ⟨(), found⟩

theorem served_ownerSessions {sids : List GoString}
    (served : Served faults m m' ⟨.store (.ownerSessions owner), .ok sids⟩) :
    s ∈ sids ↔ InIndex m.owners owner s := by
  rcases served with ⟨order, answered, -⟩ | ⟨failed, -⟩
  · simp only [reorder, Memory.perform, Option.ite_none_right_eq_some, Option.some.injEq,
      Except.ok.injEq] at answered
    obtain ⟨perm, rfl⟩ := answered
    rw [(List.isPerm_iff.mp perm).mem_iff]
    exact mem_ownerSessions
  · cases failed

theorem served_deleteByOwner {deleted : Bool}
    (served : Served faults m m' ⟨.store (.deleteSessionByOwner owner s), .ok deleted⟩) :
    m' = (m.deleteSessionByOwner owner s).2 := by
  rcases served with ⟨order, -, done⟩ | ⟨failed, -⟩
  · exact done
  · cases failed

theorem deleteByOwner_owners :
    (m.deleteSessionByOwner owner s).2.owners = Memory.prune m.owners owner s := by
  simp only [Memory.deleteSessionByOwner]
  split
  · rfl
  · split_ifs <;> rfl

theorem deleteByOwner_unindexed : ¬ InIndex (m.deleteSessionByOwner owner s).2.owners owner s := by
  simp [deleteByOwner_owners, Memory.inIndex_prune]

theorem deleteByOwner_deletes (owned : Owned m owner s) :
    (m.deleteSessionByOwner owner s).2.sessions.get s = none := by
  obtain ⟨row, found, rfl, -⟩ := owned
  simp [Memory.deleteSessionByOwner, found, Memory.cascade]

theorem Change.binds {c : StoreCall} (change : Memory.Change m c m')
    (before : ¬ InIndex m.owners owner s) (after : InIndex m'.owners owner s) :
    ∃ ctl, c.controls = some (s, ctl) ∧ ctl.setOwner = true ∧ ctl.ownerID = owner := by
  cases change with
  | @commit _ id row ctl asks live held free =>
      rw [Memory.commit_owners] at after
      split_ifs at after with changed
      · rw [Memory.inIndex_moveOwner] at after
        rcases after with ⟨rfl, rfl⟩ | ⟨old, -⟩
        · exact ⟨ctl, asks, changed.1, rfl⟩
        · exact absurd old before
      · exact absurd after before
  | @delete id owners pruned =>
      rcases pruned with rfl | ⟨row, -, rfl⟩
      · exact absurd after before
      · exact absurd (Memory.inIndex_prune .. |>.mp after).1 before
  | prune foreign => exact absurd (Memory.inIndex_prune .. |>.mp after).1 before
  | revoke row => exact absurd (Memory.inIndex_prune .. |>.mp after).1 before
  | _ => exact absurd after before

/-- The session was bound to `owner` by the call `e`. -/
def Rebinds (e : Event) (owner : Int) (s : GoString) : Prop :=
  ∃ sc ctl, e.call = .store sc ∧ sc.controls = some (s, ctl) ∧ ctl.setOwner = true ∧
    ctl.ownerID = owner ∧ InIndex e.after.owners owner s

theorem Chained.rebound {log later earlier : List Event} {e : Event}
    (chained : Chained faults m log) (split : log = later ++ e :: earlier)
    (before : ¬ InIndex e.after.owners owner s) (now : InIndex m.owners owner s) :
    ∃ e' ∈ later, Rebinds e' owner s := by
  subst split
  obtain ⟨e', member, unbound, bound⟩ :=
    Chained.turned (P := fun m => InIndex m.owners owner s) chained before now
  refine ⟨e', member, ?_⟩
  rcases served_mem (chained.served (List.mem_append_left _ member)) with same | ⟨sc, called, done⟩
  · rw [same] at bound
    exact absurd bound unbound
  · have change := Memory.perform_change e'.before sc
    rw [← done] at change
    obtain ⟨ctl, asks, sets, named⟩ := Change.binds change unbound bound
    exact ⟨sc, ctl, called, asks, sets, named, bound⟩

theorem Change.removes {c : StoreCall} (change : Memory.Change m c m') {row : Session}
    (byOwner : ∃ id, c = .deleteSessionByOwner owner id)
    (before : m.sessions.get s = some row) (after : m'.sessions.get s = none) :
    row.ownerID = owner := by
  obtain ⟨id, rfl⟩ := byOwner
  cases change with
  | kept locks => simp [before] at after
  | commit asks => cases asks
  | prune foreign => simp [before] at after
  | revoke found =>
      by_cases same : s = id
      · subst same
        cases found.symm.trans before
        rfl
      · simp [Memory.cascade, GoMap.get_delete_of_ne same, before] at after

namespace Session

variable {past : History}

def deletion (owner : Int) (attempt : GoString × Except StoreErr Bool) : Deed :=
  ⟨.store (.deleteSessionByOwner owner attempt.1), attempt.2⟩

def Tried (owner : Int) (sids : List GoString) (before : History) (failed : Bool)
    (after : History) : Prop :=
  ∃ attempts : List (GoString × Except StoreErr Bool), attempts.map Prod.fst = sids ∧
    after = (attempts.map (deletion owner)).reverse ++ before ∧
    (failed = true ↔ ∃ s e, (s, .error e) ∈ attempts)

theorem revokeEach_history (sids : List GoString) (firstErr : Option Err) :
    Obeys (fun _ _ => True)
      (fun err after => ∃ failed, Tried owner sids past failed after ∧
        (err.isSome = true ↔ firstErr.isSome = true ∨ failed = true))
      (Manager.revokeEach owner sids firstErr) past := by
  induction sids generalizing firstErr past with
  | nil => exact ⟨false, ⟨[], rfl, rfl, by simp⟩, by simp⟩
  | cons sid sids ih =>
      refine obeys_act trivial fun answer _ => ?_
      cases answer with
      | error e =>
          refine (ih (firstErr.or (some (.store e)))).weaken fun err after tried => ?_
          obtain ⟨failed, ⟨attempts, named, rfl, -⟩, reported⟩ := tried
          refine ⟨true, ⟨(sid, .error e) :: attempts, by simp [named], by simp [deletion], ?_⟩, ?_⟩
          · simp only [true_iff]
            exact ⟨sid, e, List.mem_cons_self⟩
          · simp [reported]
      | ok gone =>
          refine (ih firstErr).weaken fun err after tried => ?_
          obtain ⟨failed, ⟨attempts, named, rfl, failing⟩, reported⟩ := tried
          refine ⟨failed, ⟨(sid, .ok gone) :: attempts, by simp [named], by simp [deletion], ?_⟩,
            reported⟩
          simp [failing]

def Revoked (owner : Int) (err : Option Err) (past : History) : Prop :=
  (∃ e, past = [⟨.store (.ownerSessions owner), .error e⟩] ∧ err.isSome = true) ∨
  ∃ sids, Tried owner sids [⟨.store (.ownerSessions owner), .ok sids⟩] err.isSome past

theorem revokeOwner_history :
    Obeys (fun _ _ => True) (Revoked owner) (Manager.revokeOwner owner) [] := by
  refine obeys_act trivial fun answer _ => ?_
  cases answer with
  | error e => exact .inl ⟨e, rfl, rfl⟩
  | ok sids =>
      refine (revokeEach_history sids none).weaken fun err after tried => ?_
      obtain ⟨failed, tried, reported⟩ := tried
      right
      have same : err.isSome = failed := Bool.eq_iff_iff.mpr (reported.trans (by simp))
      exact ⟨sids, same ▸ tried⟩

theorem Tried.mem {sids : List GoString} {before after : History} {failed : Bool}
    (tried : Tried owner sids before failed after) {d : Deed} (member : d ∈ after) :
    d ∈ before ∨ ∃ s answer, s ∈ sids ∧ d = deletion owner (s, answer) := by
  obtain ⟨attempts, rfl, rfl, -⟩ := tried
  rcases List.mem_append.mp member with new | old
  · obtain ⟨⟨s, answer⟩, attempted, rfl⟩ := List.mem_map.mp (List.mem_reverse.mp new)
    exact .inr ⟨s, answer, List.mem_map_of_mem attempted, rfl⟩
  · exact .inl old

theorem Tried.attempt {sids : List GoString} {before after : History} {failed : Bool}
    (tried : Tried owner sids before failed after) {s : GoString} (member : s ∈ sids) :
    ∃ answer, deletion owner (s, answer) ∈ after := by
  obtain ⟨attempts, rfl, rfl, -⟩ := tried
  obtain ⟨⟨s, answer⟩, attempted, rfl⟩ := List.mem_map.mp member
  refine ⟨answer, List.mem_append_left _ (List.mem_reverse.mpr ?_)⟩
  exact List.mem_map_of_mem attempted

theorem Tried.failed_iff {sids : List GoString} {failed : Bool}
    (tried : Tried owner sids [⟨.store (.ownerSessions owner), .ok sids⟩] failed past) :
    failed = true ↔ ∃ s e, deletion owner (s, .error e) ∈ past := by
  obtain ⟨attempts, -, rfl, failing⟩ := tried
  rw [failing]
  constructor
  · rintro ⟨s, e, member⟩
    exact ⟨s, e, by simpa using .inl ⟨s, _, member, rfl⟩⟩
  · rintro ⟨s, e, member⟩
    rcases List.mem_append.mp member with new | old
    · obtain ⟨⟨s', answer⟩, attempted, same⟩ := List.mem_map.mp (List.mem_reverse.mp new)
      cases same
      exact ⟨_, e, attempted⟩
    · simp [deletion] at old

theorem Revoked.mem {err : Option Err} (revoked : Revoked owner err past) {d : Deed}
    (member : d ∈ past) : (∃ r, d = ⟨.store (.ownerSessions owner), r⟩) ∨
      ∃ s answer, d = deletion owner (s, answer) := by
  rcases revoked with ⟨e, rfl, -⟩ | ⟨sids, tried⟩
  · exact .inl ⟨_, List.mem_singleton.mp member⟩
  · rcases tried.mem member with old | ⟨s, answer, -, rfl⟩
    · exact .inl ⟨_, List.mem_singleton.mp old⟩
    · exact .inr ⟨s, answer, rfl⟩

variable {job : Nat → Job} {c : Machine Outcome} {t : Nat} {err : Option Err}

theorem revoked_history (run : (jobs job).Reaches idle c) (op : (job t).op = .revokeOwner owner)
    (done : c.thread t = some (.ret (.revoked err))) : Revoked owner err (own t c.state) := by
  have obeys : Obeys (fun _ _ => True)
      (fun result past => ∀ err, result = .revoked err → Revoked owner err past)
      (job t).prog [] := by
    unfold Job.prog
    rw [op]
    refine Prog.Wp.bind (revokeOwner_history.weaken fun err past revoked err' same => ?_)
    cases same
    exact revoked
  exact job_returns obeys run done err rfl

theorem Revoked.asked (revoked : Revoked owner err past) :
    ∃ r, (⟨.store (.ownerSessions owner), r⟩ : Deed) ∈ past := by
  rcases revoked with ⟨e, rfl, -⟩ | ⟨sids, attempts, -, rfl, -⟩
  · exact ⟨.error e, List.mem_singleton_self _⟩
  · exact ⟨.ok sids, List.mem_append_right _ (List.mem_singleton_self _)⟩

theorem Revoked.attempt (revoked : Revoked owner err past) {sids : List GoString}
    (asked : (⟨.store (.ownerSessions owner), .ok sids⟩ : Deed) ∈ past) {s : GoString}
    (member : s ∈ sids) : ∃ answer, deletion owner (s, answer) ∈ past := by
  rcases revoked with ⟨cause, rfl, -⟩ | ⟨sids', tried⟩
  · simp at asked
  · rcases tried.mem asked with same | ⟨s', answer, -, same⟩
    · have same : sids = sids' := by simpa using same
      exact tried.attempt (same ▸ member)
    · simp [deletion] at same

theorem Revoked.reports (revoked : Revoked owner err past) : err.isSome = true ↔
    (∃ cause, (⟨.store (.ownerSessions owner), .error cause⟩ : Deed) ∈ past) ∨
      ∃ s cause, deletion owner (s, .error cause) ∈ past := by
  rcases revoked with ⟨e, rfl, reported⟩ | ⟨sids, tried⟩
  · simp only [reported, true_iff]
    exact .inl ⟨e, List.mem_singleton_self _⟩
  · rw [tried.failed_iff, or_iff_right]
    rintro ⟨cause, member⟩
    rcases tried.mem member with same | ⟨s, answer, -, same⟩
    · simp at same
    · simp [deletion] at same

/-- The snapshot has every session of the owner, and every session of the snapshot is tried. -/
theorem snapshot_complete (run : (jobs job).Reaches idle c)
    (revoked : Revoked owner err (own t c.state)) : ∃ e ∈ c.state.log, e.tid = t ∧
      e.call = .store (.ownerSessions owner) ∧
      ∀ sids, e.deed = ⟨.store (.ownerSessions owner), .ok sids⟩ →
        (∀ s, Owned e.before owner s → s ∈ sids) ∧
        ∀ s ∈ sids, ∃ d ∈ c.state.log, d.tid = t ∧
          d.call = .store (.deleteSessionByOwner owner s) := by
  obtain ⟨r, asked⟩ := revoked.asked
  obtain ⟨e, logged, tid, deed⟩ := mem_own.mp asked
  refine ⟨e, logged, tid, congrArg Sigma.fst deed, fun sids answered => ⟨?_, ?_⟩⟩
  · intro s owned
    have served := (jobs_good run).inv.chained.served logged
    rw [answered] at served
    obtain ⟨w, inv, before⟩ := event_inv run logged
    rw [served_ownerSessions served, before, inv.wf.indexed, ← before]
    exact owned
  · intro s member
    rw [← deed, answered] at asked
    obtain ⟨answer, attempted⟩ := revoked.attempt asked member
    obtain ⟨d, logged', tid', deed'⟩ := mem_own.mp attempted
    exact ⟨d, logged', tid', congrArg Sigma.fst deed'⟩

theorem deletion_settles (run : (jobs job).Reaches idle c) {later earlier : List Event} {d : Event}
    (split : c.state.log = later ++ d :: earlier) {s : GoString} {deleted : Bool}
    (deed : d.deed = ⟨.store (.deleteSessionByOwner owner s), .ok deleted⟩) :
    (Owned d.before owner s → Gone c.state.mem s) ∧
      (InIndex c.state.mem.owners owner s → ∃ e ∈ later, Rebinds e owner s) := by
  have inv := (jobs_good run).inv
  have logged : d ∈ c.state.log := by simp [split]
  have served := inv.chained.served logged
  rw [deed] at served
  have after := served_deleteByOwner served
  constructor
  · intro owned
    have existed : d.before.sessions.get s ≠ none := by
      obtain ⟨row, found, -⟩ := owned
      simp [found]
    have gone : d.after.sessions.get s = none := after ▸ deleteByOwner_deletes owned
    exact gone_of_wf inv.wf (inv.goneSession logged existed gone)
  · intro bound
    exact inv.chained.rebound split (after ▸ deleteByOwner_unindexed) bound

theorem deletes_own_sessions (run : (jobs job).Reaches idle c)
    (revoked : Revoked owner err (own t c.state)) {e : Event} (logged : e ∈ c.state.log)
    (tid : e.tid = t) {s : GoString} {row : Session} (existed : e.before.sessions.get s = some row)
    (gone : e.after.sessions.get s = none) : row.ownerID = owner := by
  have served := (jobs_good run).inv.chained.served logged
  have member : e.deed ∈ own t c.state := mem_own.mpr ⟨e, logged, tid, rfl⟩
  rcases served_mem served with same | ⟨sc, called, after⟩
  · simp [same, existed] at gone
  · have called : e.deed.1 = .store sc := called
    have change := Memory.perform_change e.before sc
    rw [← after] at change
    rcases revoked.mem member with ⟨r, deed⟩ | ⟨id, answer, deed⟩
    all_goals
      rw [deed] at called
      cases called
    · simp [after, Memory.perform, existed] at gone
    · exact Change.removes change ⟨id, rfl⟩ existed gone

theorem revokeOwner_complete_and_selective (job : Nat → Job) {c : Machine Outcome}
    (run : (jobs job).Reaches idle c) {t : Nat} {owner : Int} {err : Option Err}
    (op : (job t).op = .revokeOwner owner) (done : c.thread t = some (.ret (.revoked err))) :
    (∃ e ∈ c.state.log, e.tid = t ∧ e.call = .store (.ownerSessions owner) ∧
      ∀ sids, e.deed = ⟨.store (.ownerSessions owner), .ok sids⟩ →
        (∀ s, Owned e.before owner s → s ∈ sids) ∧
        ∀ s ∈ sids, ∃ d ∈ c.state.log, d.tid = t ∧
          d.call = .store (.deleteSessionByOwner owner s)) ∧
    (∀ later d earlier, c.state.log = later ++ d :: earlier → d.tid = t → ∀ s deleted,
      d.deed = ⟨.store (.deleteSessionByOwner owner s), .ok deleted⟩ →
        (Owned d.before owner s → Gone c.state.mem s) ∧
        (InIndex c.state.mem.owners owner s → ∃ e ∈ later, Rebinds e owner s)) ∧
    (∀ e ∈ c.state.log, e.tid = t → ∀ s row, e.before.sessions.get s = some row →
      e.after.sessions.get s = none → row.ownerID = owner) ∧
    (err.isSome ↔
      (∃ cause, (⟨.store (.ownerSessions owner), .error cause⟩ : Deed) ∈ own t c.state) ∨
      ∃ s cause, (⟨.store (.deleteSessionByOwner owner s), .error cause⟩ : Deed) ∈
        own t c.state) := by
  have revoked := revoked_history run op done
  refine ⟨snapshot_complete run revoked, ?_, ?_, revoked.reports⟩
  · intro later d earlier split _ s deleted deed
    exact deletion_settles run split deed
  · intro e logged tid s row existed gone
    exact deletes_own_sessions run revoked logged tid existed gone

def logoutJobs : Nat → Job := sampleJobs fun
  | 0 => .bindOwner sampleLive sampleOwner
  | _ => .revokeOwner sampleOwner

def logoutMoves : List Move := beginMoves ++
  [.start 1, .act 1 {}, .act 1 { clock := 120 }, .act 1 {},
   .act 1 { random := some (List.replicate 32 2) }, .act 1 {},
   .start 2, .act 2 { order := [sampleSession] }, .act 2 {}]

def revokedErr (c : Machine Outcome) (t : Nat) : Option (Option Err) :=
  match c.thread t with
  | some (.ret (.revoked err)) => some err
  | _ => none

theorem revokedErr_eq (found : revokedErr c t = some err) :
    c.thread t = some (.ret (.revoked err)) := by
  unfold revokedErr at found
  split at found
  · cases found
    assumption
  · cases found

def deletesSample (e : Event) : Bool :=
  match e.deed with
  | ⟨.store (.deleteSessionByOwner owner s), .ok _⟩ =>
      e.tid == 2 && owner == sampleOwner.val && s == sampleSession &&
        (e.before.sessions.get s).any fun row => row.ownerID == owner
  | _ => false

theorem deletesSample_spec {e : Event} (deletes : deletesSample e) : e.tid = 2 ∧
    (∃ deleted, e.deed =
      ⟨.store (.deleteSessionByOwner sampleOwner sampleSession), .ok deleted⟩) ∧
    Owned e.before sampleOwner sampleSession := by
  unfold deletesSample at deletes
  split at deletes
  · rename_i owner s deleted deed
    simp only [Bool.and_eq_true, beq_iff_eq, Option.any_eq_true] at deletes
    obtain ⟨⟨⟨tid, rfl⟩, rfl⟩, row, found, owned⟩ := deletes
    exact ⟨tid, ⟨deleted, deed⟩, row, found, owned, sampleOwner.property⟩
  · cases deletes

theorem sample_owner_is_logged_out : ∃ c, (jobs logoutJobs).Reaches idle c ∧
    c.thread 2 = some (.ret (.revoked none)) ∧ Gone c.state.mem sampleSession := by
  have played : (play anyFaults (fun _ _ => true) (jobs logoutJobs).prog idle logoutMoves).any fun c =>
      decide (revokedErr c 2 = some none) && c.state.log.any deletesSample := by
    decide +kernel
  obtain ⟨c, run, -, checked⟩ := reaches_of_played (fun _ => trivial) played
  simp only [Bool.and_eq_true, decide_eq_true_eq, List.any_eq_true] at checked
  obtain ⟨done, d, logged, deletes⟩ := checked
  obtain ⟨tid, ⟨deleted, deed⟩, owned⟩ := deletesSample_spec deletes
  obtain ⟨later, earlier, split⟩ := List.append_of_mem logged
  have returned := revokedErr_eq done
  refine ⟨c, run, returned, ?_⟩
  have complete := revokeOwner_complete_and_selective logoutJobs run rfl returned
  exact (complete.2.1 later d earlier split tid sampleSession deleted deed).1 owned

end Session

end Gosestor
