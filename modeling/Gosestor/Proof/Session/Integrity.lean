import Gosestor.Proof.Session.Handle
import Gosestor.Proof.Session.Runs

/-!
# Integrity of the store over whole runs

In every run of jobs the five maps of the store agree with each other, every hash is that of the
value beside it, and an operation changes only the sessions it works on.
-/

namespace Gosestor

open Gosestor.Go Gosestor.Lib Gosestor.Store

/-- The maps of the store agree, and the hashes are those of the values beside them. -/
structure Store.Memory.Integrity (sum256 : GoString → List UInt8) (m : Memory) : Prop where
  keyLive : ∀ k s, m.keys.get k = some s → m.sessions.get s ≠ none
  cookiesLive : ∀ s, m.cookies.get s ≠ none → m.sessions.get s ≠ none
  shasLive : ∀ s, m.shas.get s ≠ none → m.sessions.get s ≠ none
  bothNil : ∀ s, m.cookies.get s = none ↔ m.shas.get s = none
  sameNames : ∀ s name,
    (m.getCookies s).get name = none ↔ (m.cookieSHAs s).get name = none
  hashed : ∀ s name value sha, (m.getCookies s).get name = some value →
    (m.cookieSHAs s).get name = some sha → sha = encodeToString (sum256 value)
  indexed : ∀ o s, InIndex m.owners o s ↔
    ∃ row, m.sessions.get s = some row ∧ row.ownerID = o ∧ 0 < o

theorem Store.Memory.Intact.sameNames {R : GoString → GoString → Prop} {m : Memory}
    (intact : m.Intact R) (s name : GoString) :
    (m.getCookies s).get name = none ↔ (m.cookieSHAs s).get name = none :=
  (GoMap.Beside.getD_empty (intact.beside s)).get_eq_none name

namespace Session

def Op.handle : Op → Option Live
  | .applyResponse l _ _ _ _ | .applyResponseControls l _ _ _ | .setLabels l _
  | .storeCookie l _ _ | .deleteCookie l _ | .bindOwner l _ | .forceRotate l | .maybeRotate l
  | .revoke l => some l
  | .withLock _ fn => fn.handle
  | .begin | .resolve _ | .revokeOwner _ => none

/-- The session of the operation's handle, or else the sessions that its calls name. -/
def Op.WorksOn (op : Op) (past : History) (s : GoString) : Prop :=
  match op.handle with
  | some l => s = l.sessionID
  | none => ∃ d ∈ past, subject d.1 = some s

def Bare (m : Manager) (past : History) : Call → Prop
  | .store c => c.controls = none ∧ Timed m past c
  | _ => True

def Contained (m : Manager) (op : Op) (past : History) (c : Call) : Prop :=
  match op.handle with
  | some l => Confined m l past c
  | none => Bare m past c

section Operations

variable {m : Manager} {past : History}

theorem Contained.recorded {op : Op} {c : Call} (contained : Contained m op past c) :
    Recorded m past c := by
  unfold Contained at contained
  split at contained
  · exact contained.recorded
  · cases c with
    | store c => exact ⟨related_of_uncontrolled contained.1, contained.2⟩
    | _ => trivial

theorem Contained.confined {op : Op} {c : Call} {l : Live} (contained : Contained m op past c)
    (handle : op.handle = some l) : Confined m l past c := by
  unfold Contained at contained
  rw [handle] at contained
  exact contained

theorem begin_bare : Obeys (Bare m) (fun _ _ => True) m.begin past := by
  refine obeys_act trivial fun now _ => Prog.Wp.bind (obeys_act trivial fun sid _ => ?_)
  cases sid with
  | none => trivial
  | some sid =>
      refine Prog.Wp.bind (obeys_act trivial fun key _ => ?_)
      cases key with
      | none => trivial
      | some key =>
          refine obeys_act ⟨rfl, now, rfl, rfl⟩ fun put _ => ?_
          cases put with
          | error e => trivial
          | ok done =>
              refine obeys_act ⟨rfl, trivial⟩ fun stored _ => ?_
              cases stored <;> trivial

theorem resolve_bare (keyID : GoString) :
    Obeys (Bare m) (fun _ _ => True) (m.resolve keyID) past := by
  refine obeys_act ⟨rfl, trivial⟩ fun key _ => ?_
  cases key with
  | error e => cases e <;> trivial
  | ok sid =>
      refine obeys_act ⟨rfl, trivial⟩ fun row _ => ?_
      cases row with
      | error e => cases e <;> trivial
      | ok row =>
          refine obeys_act trivial fun now _ => ?_
          dsimp only
          split_ifs with expired
          · exact obeys_act ⟨rfl, trivial⟩ fun _ _ => trivial
          · refine obeys_act ⟨rfl, rfl⟩ fun touched _ => ?_
            cases touched with
            | error e => trivial
            | ok done =>
                refine obeys_act ⟨rfl, trivial⟩ fun cookies _ => ?_
                cases cookies with
                | error e => trivial
                | ok cookies =>
                    refine obeys_act ⟨rfl, trivial⟩ fun shas _ => ?_
                    cases shas <;> trivial

theorem revokeEach_bare (ownerID : Int) (sids : List GoString) (firstErr : Option Err) :
    Obeys (Bare m) (fun _ _ => True) (Manager.revokeEach ownerID sids firstErr) past := by
  induction sids generalizing firstErr past with
  | nil => trivial
  | cons sid sids ih =>
      refine obeys_act ⟨rfl, trivial⟩ fun deleted _ => ?_
      cases deleted with
      | error e => exact ih _
      | ok gone => exact ih _

theorem revokeOwner_bare (ownerID : Int) :
    Obeys (Bare m) (fun _ _ => True) (Manager.revokeOwner ownerID) past := by
  refine obeys_act ⟨rfl, trivial⟩ fun sids _ => ?_
  cases sids with
  | error e => trivial
  | ok sids => exact revokeEach_bare ownerID sids none

theorem contained_of_bare {α β : Type} {op : Op} {p : Act α} {f : α → Act β}
    (bare : Obeys (Bare m) (fun _ _ => True) p past) (noHandle : op.handle = none)
    (done : ∀ a past, Obeys (Contained m op) (fun _ _ => True) (f a) past) :
    Obeys (Contained m op) (fun _ _ => True) (p >>= f) past := by
  apply Prog.Wp.bind
  apply bare.mono
  · intro past c allowed
    unfold Contained
    rw [noHandle]
    exact allowed
  · intro a past _
    exact done a past

theorem contained_of_confined {α β : Type} {op : Op} {l : Live} {p : Act α} {f : α → Act β}
    {post : α → History → Prop} (confined : Obeys (Confined m l) post p past)
    (handle : op.handle = some l)
    (done : ∀ a past, Obeys (Contained m op) (fun _ _ => True) (f a) past) :
    Obeys (Contained m op) (fun _ _ => True) (p >>= f) past := by
  apply Prog.Wp.bind
  apply confined.mono
  · intro past c allowed
    unfold Contained
    rw [handle]
    exact allowed
  · intro a past _
    exact done a past

theorem contained_read {op : Op} {c : StoreCall} (silent : c.subject = none)
    (untimed : Timed m past c) : Contained m op past (.store c) := by
  unfold Contained
  split
  · exact confined_read silent untimed
  · refine ⟨?_, untimed⟩
    cases c <;> first | rfl | cases silent

theorem op_contained (op : Op) : Obeys (Contained m op) (fun _ _ => True) (op.prog m) past := by
  induction op generalizing past with
  | begin => exact contained_of_bare begin_bare rfl fun _ _ => trivial
  | resolve keyID => exact contained_of_bare (resolve_bare keyID) rfl fun _ _ => trivial
  | revokeOwner ownerID =>
      exact contained_of_bare (revokeOwner_bare ownerID) rfl fun _ _ => trivial
  | applyResponse l ownerID labels force cookies =>
      exact contained_of_confined (applyControls_confined rfl id _ labels force true cookies) rfl
        fun _ _ => trivial
  | applyResponseControls l ownerID labels force =>
      exact contained_of_confined (applyControls_confined rfl id _ labels force true []) rfl
        fun _ _ => trivial
  | setLabels l labels =>
      exact contained_of_confined (setLabels_confined labels) rfl fun _ _ => trivial
  | storeCookie l name value =>
      exact contained_of_confined (applyControls_confined rfl id none none false false _) rfl
        fun _ _ => trivial
  | deleteCookie l name =>
      exact contained_of_confined (applyControls_confined rfl id none none false false _) rfl
        fun _ _ => trivial
  | bindOwner l ownerID =>
      exact contained_of_confined (bindOwner_confined ownerID) rfl fun _ _ => trivial
  | forceRotate l => exact contained_of_confined forceRotate_confined rfl fun _ _ => trivial
  | maybeRotate l => exact contained_of_confined maybeRotate_confined rfl fun _ _ => trivial
  | revoke l => exact contained_of_confined revoke_confined rfl fun _ _ => trivial
  | withLock sessionID fn ih =>
      have free : ∀ {past : History},
          Obeys (Contained m (.withLock sessionID fn)) (fun _ _ => True) (fn.prog m) past :=
        ih.mono (fun _ _ allowed => allowed) fun _ _ done => done
      apply withLock_obeys
      · intro past ttl
        exact contained_read rfl trivial
      · intro past
        exact contained_read rfl trivial
      · intro e ttl r
        trivial
      · exact free
      · intro ttl
        exact free.weaken fun _ _ _ _ => trivial

end Operations

variable {job : Nat → Job} {c c' : Machine Outcome}

/-- Some job's manager would store `sha` beside `value`. -/
def HashedBy (job : Nat → Job) (value sha : GoString) : Prop := ∃ t, (job t).manager.Hash value sha

structure Recording (job : Nat → Job) (w : World) : Prop where
  inv : Inv anyFaults w
  intact : w.mem.Intact (HashedBy job)

theorem Recording.step {t : Nat} {w w' : World} {call : Call} {r : call.Answer}
    (recording : Recording job w) (proper : Proper (own t w) call)
    (recorded : Recorded (job t).manager (own t w) call) (step : exec anyFaults t w call r w') :
    Recording job w' where
  inv := recording.inv.step proper step
  intact := by
    rcases served_mem (exec_served step) with same | ⟨sc, rfl, done⟩
    · rw [same]
      exact recording.intact
    · rw [done]
      apply (Memory.perform_change w.mem sc).intact recording.intact
      intro id ctl asks cookie member kept
      exact ⟨t, recorded.1 id ctl asks cookie member kept⟩

abbrev RecordingJobs (job : Nat → Job) : Machine Outcome → Prop :=
  Good (jobs job) (histories anyFaults {} (Recording job) (fun kept => kept.inv.wf.timely))
    (fun t past c => Proper past c ∧ Contained (job t).manager (job t).op past c)
    (fun _ _ _ => True)

theorem recordingJobs_reaches (good : RecordingJobs job c) (run : (jobs job).Reaches c c') :
    RecordingJobs job c' := by
  apply good.reaches _ (fun _ _ => trivial) _ run
  · intro t w _
    have proper := op_proper (job t).manager (job t).op settled_nil
    exact (proper.and (op_contained (job t).op)).mono
      (fun _ _ allowed => ⟨allowed.1.2, allowed.2⟩) fun _ _ _ => trivial
  · intro t w call r w' kept _ allowed step
    exact kept.step allowed.1 allowed.2.recorded step

theorem recordingJobs (run : (jobs job).Reaches idle c) : RecordingJobs job c := by
  refine recordingJobs_reaches (.initial ⟨inv_initial, ?_⟩ fun _ => rfl) run
  exact Memory.newMemory_intact

/-- Every logged call was made where the invariant held, by a program that obeyed its rules. -/
theorem recorded_event (run : (jobs job).Reaches idle c) {e : Event} (logged : e ∈ c.state.log) :
    ∃ w w', Recording job w ∧ exec anyFaults e.tid w e.call e.deed.2 w' ∧
      e.before = w.mem ∧ e.after = w'.mem ∧ Proper (own e.tid w) e.call ∧
      Contained (job e.tid).manager (job e.tid).op (own e.tid w) e.call := by
  obtain ⟨later, earlier, split⟩ := List.append_of_mem logged
  obtain ⟨mid, next, w', before, running, step, -, same, same', -⟩ := logged_step run rfl split
  have good := recordingJobs before
  obtain ⟨⟨proper, contained⟩, -⟩ := good.running running
  exact ⟨mid.state, w', good.inv, step, same, same', proper, contained⟩

theorem leaves_others {faults : Fault → Bool} {t : Nat} {w w' : World} {call : Call}
    {r : call.Answer} (inv : Inv faults w) (proper : Proper (own t w) call)
    (step : exec faults t w call r w') {s : GoString} (other : subject call ≠ some s) :
    Memory.SameEntries w.mem w'.mem s := by
  rcases served_mem (exec_served step) with same | ⟨sc, rfl, done⟩
  · rw [same]
    exact .refl _ s
  · rw [done]
    apply (Memory.perform_change w.mem sc).other other
    rintro k id ttl rfl
    exact inv.freeKey proper.1

theorem call_leaves_others (run : (jobs job).Reaches idle c) {e : Event}
    (logged : e ∈ c.state.log) {s : GoString} (other : subject e.call ≠ some s) :
    Memory.SameEntries e.before e.after s := by
  obtain ⟨w, w', recording, step, before, after, proper, -⟩ := recorded_event run logged
  rw [before, after]
  exact leaves_others recording.inv proper step other

theorem operation_leaves_others (run : (jobs job).Reaches idle c) {e : Event}
    (logged : e ∈ c.state.log) {s : GoString}
    (other : ¬ (job e.tid).op.WorksOn (own e.tid c.state) s) :
    Memory.SameEntries e.before e.after s := by
  apply call_leaves_others run logged
  intro names
  apply other
  unfold Op.WorksOn
  split
  · rename_i l handle
    obtain ⟨w, w', -, -, -, -, -, contained⟩ := recorded_event run logged
    exact (contained.confined handle).about s names
  · exact ⟨e.deed, mem_own.mpr ⟨e, logged, rfl, rfl⟩, names⟩

theorem Recording.integrity {sum256 : GoString → List UInt8} {w : World}
    (hash : ∀ t, (job t).manager.sum256 = sum256) (recording : Recording job w) :
    w.mem.Integrity sum256 where
  keyLive _ _ := recording.inv.wf.keyLive
  cookiesLive _ := recording.inv.wf.cookiesLive
  shasLive _ := recording.inv.wf.shasLive
  bothNil := GoMap.Beside.get_eq_none recording.intact.beside
  sameNames := recording.intact.sameNames
  hashed := by
    intro s name value sha left right
    obtain ⟨t, hashed⟩ :=
      (GoMap.Beside.getD_empty (recording.intact.beside s)).related left right
    rw [← hash t]
    exact hashed
  indexed _ _ := recording.inv.wf.indexed

theorem store_integrity (sum256 : GoString → List UInt8) (job : Nat → Job)
    (hash : ∀ t, (job t).manager.sum256 = sum256) :
    (∀ c, (jobs job).Reaches idle c → c.state.mem.Integrity sum256 ∧
      ∀ e ∈ c.state.log, ∀ s, ¬ (job e.tid).op.WorksOn (own e.tid c.state) s →
        Memory.SameEntries e.before e.after s) ∧
    ∀ calls, ∃ m, newMemory.invokeAll calls = some m ∧
      (∀ k s, m.keys.get k = some s → m.sessions.get s ≠ none) ∧
      ∀ s, (m.cookies.get s = none ↔ m.shas.get s = none) ∧
        ∀ name, (m.getCookies s).get name = none ↔ (m.cookieSHAs s).get name = none := by
  constructor
  · intro c run
    refine ⟨(recordingJobs run).inv.integrity hash, ?_⟩
    intro e logged s other
    exact operation_leaves_others run logged other
  · intro calls
    obtain ⟨m, done, sound⟩ := Memory.invokeAll_sound Memory.newMemory_intact calls
    refine ⟨m, done, fun _ _ => sound.keyLive, fun s => ⟨?_, sound.sameNames s⟩⟩
    exact GoMap.Beside.get_eq_none sound.beside s

def storeJobs : Nat → Job := sampleJobs fun _ => .storeCookie sampleLive (lit "sid") (lit "secret")

theorem sample_store_integrity : ∃ c, (jobs storeJobs).Reaches idle c ∧
    (c.state.mem.getCookies sampleSession).get (lit "sid") = some (lit "secret") ∧
    c.state.mem.Integrity id := by
  have played : (play anyFaults (fun _ _ => true) (jobs storeJobs).prog idle
      (beginMoves ++ [.start 1, .act 1 { clock := 110 }, .act 1 {}, .act 1 {}])).any fun c =>
        decide ((c.state.mem.getCookies sampleSession).get (lit "sid") = some (lit "secret")) := by
    decide +kernel
  obtain ⟨c, run, -, stored⟩ := reaches_of_played (fun _ => trivial) played
  have hash : ∀ t, (storeJobs t).manager.sum256 = id := by
    intro t
    cases t <;> rfl
  exact ⟨c, run, of_decide_eq_true stored, ((store_integrity id storeJobs hash).1 c run).1⟩

end Session

end Gosestor
