import Gosestor.Proof.Session.Integrity
import Gosestor.Proof.Session.RevokeOwner
import Gosestor.Proof.Session.Serial

/-!
# A response that succeeds leaves its identity bound

`ApplyResponse` skips the owner write when the session that it read has the owner already, and its
commit compares the key only. An owner change that leaves the key in place can slip between the
two.
-/

namespace Gosestor

open Gosestor.Go Gosestor.Lib Gosestor.Store

/-- The owner of `s` changed and a key of `s` stayed. -/
def Slips (e : Event) (s : GoString) : Prop :=
  ∃ row row' k, e.before.sessions.get s = some row ∧ e.after.sessions.get s = some row' ∧
    row.ownerID ≠ row'.ownerID ∧ e.before.keys.get k = some s ∧ e.after.keys.get k = some s

namespace Session

variable {job : Nat → Job} {c : Machine Outcome} {t : Nat} {k s : GoString}

theorem Inv.storedKey {w : World} (inv : Inv anyFaults w) {e : Event} (logged : e ∈ w.log)
    (stored : e.after.keys.get k ≠ none) : ∃ t, Used (own t w) k := by
  obtain ⟨s, mapped⟩ := Option.ne_none_iff_exists'.mp stored
  rcases served_mem (inv.chained.served logged) with same | ⟨sc, called, done⟩
  · exact inv.seenKey logged (by simp [← same, mapped])
  · rw [done] at mapped
    rcases Memory.perform_keys mapped with earlier | ⟨named, -⟩
    · exact inv.seenKey logged (by simp [earlier])
    · refine ⟨e.tid, e.deed, mem_own.mpr ⟨e, logged, rfl, rfl⟩, ?_⟩
      have called : e.deed.1 = .store sc := called
      generalize e.deed = d at called
      obtain ⟨call, r⟩ := d
      cases called
      exact named

theorem mapped_before (run : (jobs job).Reaches idle c) {later earlier : List Event} {e : Event}
    (split : c.state.log = later ++ e :: earlier)
    (stored : ∃ e' ∈ earlier, e'.after.keys.get k ≠ none)
    (mapped : e.after.keys.get k = some s) : e.before.keys.get k = some s := by
  obtain ⟨mid, next, w', before, running, step, log, same, same', -⟩ := logged_step run rfl split
  have good := jobs_good before
  have proper : Proper (own e.tid mid.state) e.call := (good.running running).1
  rw [same'] at mapped
  rw [same]
  rcases served_mem (exec_served step) with still | ⟨sc, called, done⟩
  · rwa [still] at mapped
  · rw [done] at mapped
    rcases Memory.perform_keys mapped with earlier | ⟨named, -⟩
    · exact earlier
    · rw [called] at proper
      obtain ⟨e', member, stored⟩ := stored
      have used := Inv.storedKey good.inv (log ▸ member) stored
      exact absurd used (good.inv.unused (proper_newName proper named))

theorem owner_steady {mid earlier : List Event} {read : Event} {owner : Int}
    (run : (jobs job).Reaches idle c) (split : c.state.log = mid ++ read :: earlier)
    (stored : ∃ e ∈ earlier, e.after.keys.get k ≠ none)
    (mapped : c.state.mem.keys.get k = some s) (steady : ∀ e ∈ mid, ¬ Slips e s)
    (atRead : ∃ row, read.after.sessions.get s = some row ∧ row.ownerID = owner) :
    ∃ row, c.state.mem.sessions.get s = some row ∧ row.ownerID = owner := by
  induction mid generalizing c with
  | nil =>
      have chained := (jobs_good run).inv.chained
      rw [split] at chained
      rwa [← chained.1]
  | cons e mid ih =>
      have inv := (jobs_good run).inv
      have chained := inv.chained
      rw [split] at chained
      have now : e.after = c.state.mem := chained.1
      have newest : c.state.log = [] ++ e :: (mid ++ read :: earlier) := split
      have held : e.before.keys.get k = some s := by
        refine mapped_before run newest ?_ (now ▸ mapped)
        obtain ⟨e', member, there⟩ := stored
        exact ⟨e', by simp [member], there⟩
      obtain ⟨before, -, -, reached, -, -, log, same, -⟩ := logged_step run rfl newest
      obtain ⟨row, found, owned⟩ := ih reached log (same ▸ held)
        (fun e' member => steady e' (List.mem_cons_of_mem _ member))
      obtain ⟨row', found'⟩ := Option.ne_none_iff_exists'.mp (inv.wf.keyLive mapped)
      refine ⟨row', found', ?_⟩
      by_contra changed
      apply steady e List.mem_cons_self
      refine ⟨row, row', k, same ▸ found, now ▸ found', ?_, held, now ▸ mapped⟩
      intro sameOwner
      exact changed (sameOwner ▸ owned)

theorem slip_needs_key_in_place (run : (jobs job).Reaches idle c) {e : Event}
    (logged : e ∈ c.state.log) (slips : Slips e s) :
    (job e.tid).manager.cfg.rotateOnLogin = false ∨
      ∃ l, (job e.tid).op.handle = some l ∧ l.rewrite = true := by
  obtain ⟨w, w', recording, step, before, after, proper, contained⟩ := recorded_event run logged
  obtain ⟨row, row', k, found, found', changed, held, held'⟩ := slips
  rw [before] at found held
  rw [after] at found' held'
  rcases served_mem (exec_served step) with same | ⟨sc, called, done⟩
  · rw [same, found] at found'
    cases found'
    exact absurd rfl changed
  · have change := Memory.perform_change w.mem sc
    rw [← done] at change
    rw [called] at proper contained
    rcases change.rewrites found found' with
      rfl | ⟨ttl, rfl, rfl⟩ | ⟨keyID, lastAccess, legacy, ttl, rfl, rfl⟩ |
        ⟨ctl, asks, oldHeld, committed, rfl⟩
    · exact absurd rfl changed
    · simp [recording.inv.freeSession proper.1] at found
    · exact absurd rfl changed
    · have sets : ctl.setOwner = true := by
        by_contra unset
        exact changed (by simp [Memory.controlled, unset])
      have stays : ctl.rotate = false := by
        by_contra rotates
        rw [Bool.not_eq_false] at rotates
        have sameKey := recording.inv.wf.keyUnique held oldHeld
        simp [committed, Memory.commit_keys, rotates, sameKey] at held'
      unfold Contained at contained
      split at contained
      · rename_i l handle
        rcases contained.turning s ctl asks sets with rotates | off | pending
        · simp [stays] at rotates
        · exact .inl off
        · exact .inr ⟨l, handle, pending⟩
      · simp [contained.1] at asks

def Commits (e : Event) (s : GoString) : Prop :=
  ∃ ctl ttl ownerTTL, e.deed = ⟨.store (.applySessionControls s ctl ttl ownerTTL), .ok ()⟩

/-- No owner change slips between `t`'s read of the session `s` and its commit. -/
def Steady (t : Nat) (s : GoString) (log : List Event) : Prop :=
  ∀ later commit mid read earlier, log = later ++ commit :: (mid ++ read :: earlier) →
    commit.tid = t → Commits commit s → read.tid = t → read.call = .store (.getSession s) →
    ∀ e ∈ mid, ¬ Slips e s

variable {r : Response}

theorem response_history (run : (jobs job).Reaches idle c) {after : Live}
    (same : (job t).manager = r.manager)
    (op : (job t).op = .applyResponse r.live r.ownerID r.labels r.forceRotate r.cookies)
    (done : c.thread t = some (.ret (.handled (.ok ()) after))) :
    Done r (own t c.state) ∧ Made (Asks r) (own t c.state) := by
  have obeys : Obeys (fun _ _ => True)
      (fun result past => ∀ l, result = .handled (.ok ()) l → Done r past ∧ Made (Asks r) past)
      (job t).prog [] := by
    unfold Job.prog
    rw [op, same]
    apply Prog.Wp.bind
    refine ((response_asks r).made (made_nil _)).mono (fun _ _ _ => trivial) ?_
    rintro ⟨result, l⟩ past ⟨concluded, made⟩ l' returned
    cases returned
    exact ⟨concluded.1.mp rfl, made⟩
  exact job_returns obeys run done after rfl

theorem Done.history {past : History} (done : Done r past) (made : Made (Asks r) past)
    (busy : r.cookies ≠ []) : ∃ sess now newKeyID ttl ownerTTL mint,
      past = ⟨.store (.applySessionControls r.live.sessionID
          { r.controls sess now with newKeyID } ttl ownerTTL), .ok ()⟩ ::
        (mint ++ [⟨.store (.getSession r.live.sessionID), .ok sess⟩, ⟨.now, now⟩]) ∧
      ∀ d ∈ mint, d.1 = .randomRead := by
  unfold Done at done
  split at done
  · rename_i id ctl ttl ownerTTL answer older
    cases made [] _ _ older rfl with
    | commit now sess _ _ => exact ⟨sess, now, _, ttl, ownerTTL, [], rfl, by simp⟩
    | rotate now sess _ _ buf => exact ⟨sess, now, _, ttl, ownerTTL, [_], rfl, by simp⟩
  · simp [Live.nothingToDo, Response.controls, Live.controls, busy] at done
  · cases done

theorem Commits.eq_of_history {past : History} {ctl : SessionControls} {ttl ownerTTL : Duration}
    {mint : History} {sess : Session} {now : Int}
    (history : past = ⟨.store (.applySessionControls s ctl ttl ownerTTL), .ok ()⟩ ::
      (mint ++ [⟨.store (.getSession s), .ok sess⟩, ⟨.now, now⟩]))
    (minted : ∀ d ∈ mint, d.1 = .randomRead) {e : Event} (logged : e.deed ∈ past)
    (commits : Commits e s) :
    e.deed = ⟨.store (.applySessionControls s ctl ttl ownerTTL), .ok ()⟩ := by
  obtain ⟨ctl', ttl', ownerTTL', deed⟩ := commits
  rw [history, deed] at logged
  rw [deed]
  rcases List.mem_cons.mp logged with same | older
  · exact same
  · rcases List.mem_append.mp older with member | member
    · cases minted _ member
    · simp at member

theorem commit_follows_read {log : List Event} {past : History} {d read : Deed} {mint : History}
    (history : ownDeeds t log = d :: (mint ++ read :: past)) (once : d ∉ mint ++ read :: past)
    {e : Event} (logged : e ∈ log) (tid : e.tid = t) (deed : e.deed = d) :
    ∃ later mid r earlier, log = later ++ e :: (mid ++ r :: earlier) ∧ r.tid = t ∧ r.deed = read ∧
      ownDeeds t earlier = past := by
  obtain ⟨later, older, split⟩ := List.append_of_mem logged
  have same : ownDeeds t later ++ d :: ownDeeds t older = [d] ++ (mint ++ read :: past) := by
    rw [split, ownDeeds_append] at history
    simpa [ownDeeds, tid, deed] using history
  obtain ⟨between, behind⟩ := behind_of_notMem same once
  have unique : between = [] := by
    have shorter := congrArg List.length same
    rw [behind] at shorter
    simp at shorter
    exact List.eq_nil_of_length_eq_zero (by omega)
  rw [unique, List.nil_append] at behind
  obtain ⟨mid, r, earlier, rest, rtid, rdeed, -, tail⟩ := ownDeeds_split mint behind
  exact ⟨later, mid, r, earlier, by rw [split, rest], rtid, rdeed, tail⟩

theorem commit_binds {later mid earlier : List Event} {commit read : Event}
    {owner : { ownerID : Int // 0 < ownerID }} {sess : Session} {now : Int} {newKeyID : GoString}
    {ttl ownerTTL : Duration} (run : (jobs job).Reaches idle c)
    (split : c.state.log = later ++ commit :: (mid ++ read :: earlier)) (asks : r.ownerID = some owner)
    (stored : ∃ e ∈ earlier, e.after.keys.get r.live.keyID ≠ none)
    (reads : read.deed = ⟨.store (.getSession r.live.sessionID), .ok sess⟩)
    (commits : commit.deed = ⟨.store (.applySessionControls r.live.sessionID
      { r.controls sess now with newKeyID } ttl ownerTTL), .ok ()⟩)
    (steady : ∀ e ∈ mid, ¬ Slips e r.live.sessionID) :
    Owned commit.after owner r.live.sessionID := by
  have chained := (jobs_good run).inv.chained
  have served := chained.served (e := commit) (by simp [split])
  rw [commits] at served
  obtain ⟨row, found, held, committed, -⟩ := served_applyControls served
  refine ⟨Memory.controlled row { r.controls sess now with newKeyID }, ?_, ?_, owner.property⟩
  · rw [committed]
    simp [Memory.commit_sessions]
  · by_cases bound : owner.val = sess.ownerID
    · obtain ⟨before, -, -, reached, -, -, log, same, -⟩ := logged_step run rfl split
      have readServed := chained.served (e := read) (by simp [split])
      rw [reads] at readServed
      have there : read.after.sessions.get r.live.sessionID = some sess := by
        rw [served_getSession_mem readServed]
        exact served_getSession readServed
      have mapped : before.state.mem.keys.get r.live.keyID = some r.live.sessionID := same ▸ held
      obtain ⟨row', found', owned⟩ :=
        owner_steady reached log stored mapped steady ⟨sess, there, bound.symm⟩
      rw [← same, found] at found'
      cases found'
      simp [Memory.controlled, Response.controls, Live.controls, asks, bound] at owned ⊢
      exact owned
    · by_cases already : owner.val = row.ownerID
      · simp [Memory.controlled, Response.controls, Live.controls, asks, already]
      · simp [Memory.controlled, Response.controls, Live.controls, asks, bound, already]

/-- Where no owner change slips in, the session is bound to the response's identity as soon as the
response's cookies are in it. An owner change slips in only with `RotateOnLogin` off, or through a
handle whose own new key is still to be delivered. -/
theorem identity_stays_bound (job : Nat → Job) {c₀ c : Machine Outcome}
    (before : (jobs job).Reaches idle c₀) (run : (jobs job).Reaches c₀ c) {t : Nat} {l after : Live}
    {owner : { ownerID : Int // 0 < ownerID }} {labels : Option (List GoString)} {forceRotate : Bool}
    {cookies : List CookieMutation}
    (op : (job t).op = .applyResponse l (some owner) labels forceRotate cookies)
    (busy : cookies ≠ []) (new : c₀.thread t = none)
    (issued : ∃ e ∈ c₀.state.log, e.after.keys.get l.keyID = some l.sessionID)
    (done : c.thread t = some (.ret (.handled (.ok ()) after)))
    (steady : Steady t l.sessionID c.state.log) :
    (∃ e ∈ c.state.log, e.tid = t ∧ Commits e l.sessionID) ∧
    (∀ e ∈ c.state.log, e.tid = t → Commits e l.sessionID →
      Owned e.after owner l.sessionID ∧ InIndex e.after.owners owner l.sessionID) ∧
    ∀ e ∈ c.state.log, ∀ s, Slips e s → (job e.tid).manager.cfg.rotateOnLogin = false ∨
      ∃ l, (job e.tid).op.handle = some l ∧ l.rewrite = true := by
  have whole := before.trans run
  let r : Response := ⟨(job t).manager, l, some owner, labels, forceRotate, cookies⟩
  obtain ⟨finished, made⟩ := response_history (r := r) whole rfl op done
  obtain ⟨sess, now, newKeyID, ttl, ownerTTL, mint, history, minted⟩ := finished.history made busy
  refine ⟨?_, fun e logged tid commits => ?_, fun e logged s => slip_needs_key_in_place whole logged⟩
  · obtain ⟨e, logged, tid, deed⟩ := mem_own.mp (history ▸ List.mem_cons_self)
    exact ⟨e, logged, tid, _, ttl, ownerTTL, deed⟩
  · have deed := commits.eq_of_history history minted (mem_own.mpr ⟨e, logged, tid, rfl⟩)
    have once : (⟨.store (.applySessionControls l.sessionID
        { r.controls sess now with newKeyID } ttl ownerTTL), .ok ()⟩ : Deed) ∉
        mint ++ [⟨.store (.getSession l.sessionID), .ok sess⟩, ⟨.now, now⟩] := by
      intro again
      rcases List.mem_append.mp again with member | member
      · cases minted _ member
      · simp at member
    obtain ⟨later, mid, read, earlier, split, rtid, rdeed, -⟩ :=
      commit_follows_read history once logged tid deed
    have owned : Owned e.after owner l.sessionID := by
      refine commit_binds (r := r) whole split rfl ?_ rdeed deed ?_
      · obtain ⟨older, log⟩ := log_extends run
        have silent : read ∉ c₀.state.log := by
          intro logged'
          have quiet : own t c₀.state = [] := (jobs_good before).idle new
          have member := mem_own.mpr ⟨read, logged', rtid, rfl⟩
          simp [quiet] at member
        have same : (later ++ e :: mid) ++ read :: earlier = older ++ c₀.state.log := by
          simp [← log, split]
        obtain ⟨between, rfl⟩ := behind_of_notMem same silent
        obtain ⟨e', member, mapped⟩ := issued
        exact ⟨e', by simp [member], by simp [mapped, r]⟩
      · have called : read.call = .store (.getSession l.sessionID) := by
          simp [Event.call, rdeed, r]
        exact steady later e mid read earlier split tid commits rtid called
    have wf : e.after.WF := by
      obtain ⟨mid', next, w', reached, running, step, -, -, same, -⟩ := logged_step whole rfl split
      rw [same]
      exact ((jobs_good reached).inv.step ((jobs_good reached).running running).1 step).wf
    exact ⟨owned, wf.indexed.mpr owned⟩

def otherOwner : { ownerID : Int // 0 < ownerID } := ⟨8, by decide⟩

def bindingJobs (manager : Manager) : Nat → Job
  | 0 => ⟨manager, .begin⟩
  | 1 => ⟨manager, .applyResponse sampleLive (some sampleOwner) none false []⟩
  | 2 => ⟨manager, .applyResponse sampleLive (some sampleOwner) none false
      [{ name := lit "sid", value := lit "secret" }]⟩
  | _ => ⟨manager, .applyResponse sampleLive (some otherOwner) none false []⟩

def handledLive (c : Machine Outcome) (t : Nat) : Option Live :=
  match c.thread t with
  | some (.ret (.handled (.ok ()) live)) => some live
  | _ => none

theorem handledLive_eq {live : Live} (found : handledLive c t = some live) :
    c.thread t = some (.ret (.handled (.ok ()) live)) := by
  unfold handledLive at found
  split at found
  · cases found
    assumption
  · cases found

instance (e : Event) (s : GoString) : Decidable (Commits e s) :=
  decidable_of_iff ((match e.deed with
    | ⟨.store (.applySessionControls id _ _ _), .ok ()⟩ => decide (id = s)
    | _ => false) = true) (by
      unfold Commits
      constructor
      · intro commits
        split at commits
        · rename_i id ctl ttl ownerTTL deed
          exact ⟨ctl, ttl, ownerTTL, of_decide_eq_true commits ▸ deed⟩
        · cases commits
      · rintro ⟨ctl, ttl, ownerTTL, deed⟩
        simp [deed])

def keepsOwner (e : Event) (s : GoString) : Bool :=
  (e.before.sessions.get s).all fun row => (e.after.sessions.get s).all fun row' =>
    decide (row.ownerID = row'.ownerID)

theorem steady_of_keepsOwner {log : List Event} (kept : log.tail.all (keepsOwner · s)) :
    Steady t s log := by
  rintro later commit mid read earlier rfl - - - - e member ⟨row, row', -, found, found', changed, -⟩
  have inTail : e ∈ (later ++ commit :: (mid ++ read :: earlier)).tail := by
    cases later <;> simp [member]
  have same := List.all_eq_true.mp kept e inTail
  simp only [keepsOwner, found, found', Option.all_some, decide_eq_true_eq] at same
  exact changed same

theorem sample_identity_stays_bound : ∃ c,
    (jobs (bindingJobs sampleManager)).Reaches idle c ∧
    ∃ e ∈ c.state.log, e.tid = 2 ∧ Owned e.after sampleOwner sampleSession := by
  have played : (play anyFaults (fun _ _ => true) (jobs (bindingJobs sampleManager)).prog idle
      beginMoves).any fun c₀ => (c₀.thread 2).isNone &&
        (c₀.state.log.any fun e => decide (e.after.keys.get sampleKey = some sampleSession)) &&
        (play anyFaults (fun _ _ => true) (jobs (bindingJobs sampleManager)).prog c₀
          [.start 2, .act 2 { clock := 110 }, .act 2 {},
            .act 2 { random := some (List.replicate 32 2) }, .act 2 {}]).any fun c =>
          (handledLive c 2).isSome && c.state.log.tail.all (keepsOwner · sampleSession) := by
    decide +kernel
  obtain ⟨c₀, before, -, checked⟩ := reaches_of_played (fun _ => trivial) played
  simp only [Bool.and_eq_true, List.any_eq_true, decide_eq_true_eq] at checked
  obtain ⟨⟨new, issued⟩, played⟩ := checked
  obtain ⟨c, run, -, checked⟩ := reaches_of_played (fun _ => trivial) played
  obtain ⟨returned, kept⟩ := (Bool.and_eq_true _ _).mp checked
  obtain ⟨after, found⟩ := Option.isSome_iff_exists.mp returned
  obtain ⟨⟨e, logged, tid, commits⟩, bound, -⟩ :=
    identity_stays_bound (bindingJobs sampleManager) before run rfl (List.cons_ne_nil _ _)
      (Option.isNone_iff_eq_none.mp new) issued (handledLive_eq found) (steady_of_keepsOwner kept)
  exact ⟨c, before.trans run, e, logged, tid, (bound e logged tid commits).1⟩

def looseManager : Manager := { sampleManager with cfg := { sampleManager.cfg with rotateOnLogin := false } }

theorem cookies_committed_under_other_owner : ∃ c₀ c after,
    (jobs (bindingJobs looseManager)).Reaches idle c₀ ∧
    (jobs (bindingJobs looseManager)).Reaches c₀ c ∧ c₀.thread 2 = none ∧
    (∃ e ∈ c₀.state.log, e.after.keys.get sampleKey = some sampleSession) ∧
    c.thread 2 = some (.ret (.handled (.ok ()) after)) ∧
    ∃ e ∈ c.state.log, e.tid = 2 ∧ Commits e sampleSession ∧
      (e.after.sessions.get sampleSession).map (·.ownerID) = some 8 ∧
      (e.after.getCookies sampleSession).get (lit "sid") = some (lit "secret") := by
  have played : (play anyFaults (fun _ _ => true) (jobs (bindingJobs looseManager)).prog idle
      (beginMoves ++ [.start 1, .act 1 { clock := 110 }, .act 1 {}, .act 1 {}])).any fun c₀ =>
        (c₀.thread 2).isNone &&
        (c₀.state.log.any fun e => decide (e.after.keys.get sampleKey = some sampleSession)) &&
        (play anyFaults (fun _ _ => true) (jobs (bindingJobs looseManager)).prog c₀
          [.start 2, .act 2 { clock := 120 }, .act 2 {},
            .start 3, .act 3 { clock := 121 }, .act 3 {}, .act 3 {}, .act 2 {}]).any fun c =>
          (handledLive c 2).isSome && c.state.log.any fun e =>
            decide (e.tid = 2 ∧ Commits e sampleSession ∧
              (e.after.sessions.get sampleSession).map (·.ownerID) = some 8 ∧
              (e.after.getCookies sampleSession).get (lit "sid") = some (lit "secret")) := by
    decide +kernel
  obtain ⟨c₀, before, -, checked⟩ := reaches_of_played (fun _ => trivial) played
  simp only [Bool.and_eq_true, List.any_eq_true, decide_eq_true_eq] at checked
  obtain ⟨⟨new, issued⟩, played⟩ := checked
  obtain ⟨c, run, -, checked⟩ := reaches_of_played (fun _ => trivial) played
  simp only [Bool.and_eq_true, List.any_eq_true, decide_eq_true_eq] at checked
  obtain ⟨returned, foreign⟩ := checked
  obtain ⟨after, found⟩ := Option.isSome_iff_exists.mp returned
  exact ⟨c₀, c, after, before, run, Option.isNone_iff_eq_none.mp new, issued, handledLive_eq found,
    foreign⟩

end Session

end Gosestor
