import Gosestor.Proof.Session.Invariant

/-!
# Keys and sessions over whole runs

A key that was rotated away resolves to nothing ever after, and a session that was deleted leaves
nothing behind, whatever the jobs do and however their store calls interleave.
-/

namespace Gosestor

open Gosestor.Go Gosestor.Lib Gosestor.Store

theorem served_getKey {faults : Fault → Bool} {m m' : Memory} {k s : GoString}
    (served : Served faults m m' ⟨.store (.getKey k), .ok s⟩) : m.keys.get k = some s := by
  obtain ⟨order, answered, -⟩ | ⟨failed, -⟩ := served
  · have answered : m.getKey k = .ok s := Option.some.inj answered
    unfold Memory.getKey at answered
    split at answered
    · cases answered
    · cases answered
      assumption
  · cases failed

namespace Session

def Resolved (m : Manager) (keyID : GoString) (live : Live) (before after : History) : Prop :=
  ∃ row now ttl, Manager.expired row now = false ∧ live.keyID = keyID ∧
    live.ownerID = row.ownerID ∧ live.labels = fields row.labels ∧ live.rewrite = false ∧
    after = ⟨.store (.cookieSHAs live.sessionID), .ok live.shas⟩ ::
      ⟨.store (.getCookies live.sessionID), .ok live.cookies⟩ ::
      ⟨.store (.touchSession live.sessionID keyID now (m.slide row now).lastRotation ttl), .ok ()⟩ ::
      ⟨.now, now⟩ :: ⟨.store (.getSession live.sessionID), .ok row⟩ ::
      ⟨.store (.getKey keyID), .ok live.sessionID⟩ :: before

def Resolves : Call → Prop
  | .now | .store (.getKey _) | .store (.getSession _) | .store (.deleteSession _)
  | .store (.touchSession _ _ _ _ _) | .store (.getCookies _) | .store (.cookieSHAs _) => True
  | _ => False

theorem resolve_history (m : Manager) (keyID : GoString) (past : History) :
    Obeys (fun _ => Resolves)
      (fun r after => ∀ live, r = .ok (some live) → Resolved m keyID live past after)
      (m.resolve keyID) past := by
  refine obeys_act trivial fun key _ => ?_
  cases key with
  | error e => cases e <;> exact fun live same => by cases same
  | ok sid =>
      refine obeys_act trivial fun row _ => ?_
      cases row with
      | error e => cases e <;> exact fun live same => by cases same
      | ok row =>
          refine obeys_act trivial fun now _ => ?_
          dsimp only
          split_ifs with expired
          · exact obeys_act trivial fun _ _ live same => by cases same
          · refine obeys_act trivial fun touched _ => ?_
            cases touched with
            | error e => exact fun live same => by cases same
            | ok done =>
                refine obeys_act trivial fun cookies _ => ?_
                cases cookies with
                | error e => exact fun live same => by cases same
                | ok cookies =>
                    refine obeys_act trivial fun shas _ => ?_
                    cases shas with
                    | error e => exact fun live same => by cases same
                    | ok shas =>
                        intro live same
                        cases same
                        exact ⟨row, now, _, by simpa using expired, rfl, rfl, rfl, rfl, rfl⟩

variable {job : Nat → Job} {c c' : Machine Outcome}

def Returned (job : Job) (result : Outcome) (past : History) : Prop :=
  ∀ keyID live, job.op = .resolve keyID → result = .resolved (.ok (some live)) →
    Resolved job.manager keyID live [] past

theorem job_obeys (job : Job) :
    Obeys Proper (Returned job) job.prog [] := by
  have proper : Obeys Proper (fun _ => Settled) job.prog [] :=
    (op_proper job.manager job.op settled_nil).mono (fun _ _ h => h.2) fun _ _ h => h
  cases named : job.op with
  | resolve keyID =>
      have history : Obeys (fun _ => Resolves) (Returned job) job.prog [] := by
        unfold Job.prog
        rw [named]
        refine Prog.Wp.bind ((resolve_history job.manager keyID []).weaken ?_)
        rintro r after resolved k live same result
        cases named.symm.trans same
        cases result
        exact resolved live rfl
      exact (proper.and history).mono (fun _ _ h => h.1) (fun _ _ h => h.2)
  | _ =>
      refine proper.weaken fun _ _ _ keyID live same => ?_
      cases named.symm.trans same

abbrev GoodJobs (job : Nat → Job) : Machine Outcome → Prop :=
  Good (jobs job) (histories anyFaults {} (Inv anyFaults) (fun inv => inv.wf.timely))
    (fun _ => Proper) (fun t => Returned (job t))

theorem goodJobs_reaches (good : GoodJobs job c) (run : (jobs job).Reaches c c') :
    GoodJobs job c' :=
  good.reaches (fun _ => job_obeys (job _)) (fun _ _ => trivial)
    (fun inv _ proper step => inv.step proper step) run

theorem jobs_good (run : (jobs job).Reaches idle c) : GoodJobs job c :=
  goodJobs_reaches (.initial inv_initial fun _ => rfl) run

theorem log_grows (run : (jobs job).Reaches c c') {e : Event} (logged : e ∈ c.state.log) :
    e ∈ c'.state.log := by
  obtain ⟨new, log⟩ := log_extends run
  simp [log, logged]

theorem event_inv (run : (jobs job).Reaches idle c) {e : Event} (logged : e ∈ c.state.log) :
    ∃ w, Inv anyFaults w ∧ e.before = w.mem := by
  obtain ⟨later, earlier, split⟩ := List.append_of_mem logged
  obtain ⟨mid, next, w', before, -, -, -, same, -⟩ := logged_step run rfl split
  exact ⟨mid.state, (jobs_good before).inv, same⟩

theorem job_good {t : Nat} {may : History → Call → Prop} {post : Outcome → History → Prop}
    (obeys : Obeys may post (job t).prog []) (run : (jobs job).Reaches idle c) :
    Good (jobs job) (histories anyFaults {} (Inv anyFaults) (fun inv => inv.wf.timely))
      (fun u past call => Proper past call ∧ (u = t → may past call))
      (fun u result past => u = t → post result past) c := by
  refine Good.reaches (fun {u _} _ => ?_) (fun _ _ => trivial)
    (fun inv _ allowed step => inv.step allowed.1 step) (.initial inv_initial fun _ => rfl) run
  have proper := op_proper (job u).manager (job u).op settled_nil
  by_cases same : u = t
  · subst same
    exact (proper.and obeys).mono (fun _ _ allowed => ⟨allowed.1.2, fun _ => allowed.2⟩)
      fun _ _ ended _ => ended.2
  · exact proper.mono (fun _ _ allowed => ⟨allowed.2, fun it => absurd it same⟩)
      fun _ _ _ it => absurd it same

theorem job_returns {t : Nat} {post : Outcome → History → Prop}
    (obeys : Obeys (fun _ _ => True) post (job t).prog []) (run : (jobs job).Reaches idle c)
    {result : Outcome} (done : c.thread t = some (.ret result)) : post result (own t c.state) :=
  (job_good obeys run).running done rfl

theorem job_calls {t : Nat} {may : History → Call → Prop} {post : Outcome → History → Prop}
    (obeys : Obeys may post (job t).prog []) (run : (jobs job).Reaches idle c)
    {later earlier : List Event} {e : Event} (split : c.state.log = later ++ e :: earlier)
    (mine : e.tid = t) : may (ownDeeds t earlier) e.call := by
  obtain ⟨mid, next, w', before, running, -, log, -⟩ := logged_step run rfl split
  have allowed := ((job_good obeys before).running running).1.2 mine
  rw [← log, ← mine]
  exact allowed

def rotatedKey : Call → Option GoString
  | .store (.applySessionControls _ c _ _) => if c.rotate then some c.oldKeyID else none
  | .store (.rotateSessionKey _ oldKeyID _ _ _) => some oldKeyID
  | _ => none

/-- A committed `ApplySessionControls` or `RotateSessionKey` that rotated `keyID` away. -/
def RotatesAway (e : Event) (keyID : GoString) : Prop :=
  rotatedKey e.call = some keyID ∧
    e.before.keys.get keyID ≠ none ∧ e.after.keys.get keyID = none
  deriving Decidable

theorem later_unmapped (good : GoodJobs job c) {e : Event} (logged : e ∈ c.state.log)
    {keyID : GoString} (rotated : RotatesAway e keyID) (run : (jobs job).Reaches c c')
    {e' : Event} (later : e' ∈ c'.state.log) (new : e' ∉ c.state.log) :
    e'.before.keys.get keyID = none := by
  induction run with
  | refl => exact absurd later new
  | @tail mid last run step ih =>
      have inv := (goodJobs_reaches good run).inv
      have gone := inv.goneKey (log_grows run logged) rotated.2.1 rotated.2.2
      cases step with
      | start t idle isReady => exact ih later
      | act t running step =>
          rw [exec_log step] at later
          obtain rfl | later := List.mem_cons.mp later
          · exact gone
          · exact ih later

theorem rotated_key_never_resolves (job : Nat → Job) {c : Machine Outcome}
    (run : (jobs job).Reaches idle c) :
    (∀ k k' s, c.state.mem.keys.get k = some s → c.state.mem.keys.get k' = some s → k = k') ∧
    ∀ e ∈ c.state.log, ∀ keyID, RotatesAway e keyID → ∀ c', (jobs job).Reaches c c' →
      ∀ t live, c.thread t = none → (job t).op = .resolve keyID →
        c'.thread t ≠ some (.ret (.resolved (.ok (some live)))) := by
  have good := jobs_good run
  refine ⟨fun k k' s => good.inv.wf.keyUnique, ?_⟩
  intro e logged keyID rotated c' later t live idle op done
  have good' := goodJobs_reaches good later
  have returned : Returned (job t) _ (own t c'.state) := good'.running done
  obtain ⟨row, now, ttl, -, -, -, -, -, history⟩ := returned keyID live op rfl
  have asked : (⟨.store (.getKey keyID), .ok live.sessionID⟩ : Deed) ∈ own t c'.state := by
    rw [history]
    simp
  obtain ⟨e', logged', tid, deed⟩ := mem_own.mp asked
  have new : e' ∉ c.state.log := by
    intro old
    have silent : own t c.state = [] := good.idle idle
    have member : e'.deed ∈ own t c.state := mem_own.mpr ⟨e', old, tid, rfl⟩
    rw [silent] at member
    cases member
  have served := good'.inv.chained.served logged'
  rw [deed] at served
  have unmapped := later_unmapped good logged rotated later logged' new
  simp [served_getKey served] at unmapped

def sampleManager : Manager where
  cfg :=
    { inactive := 1800 * second
      final := 28800 * second
      synchronize := false
      rotateOnLogin := true
      rotateInterval := 0 }
  sum256 := id

def sampleSession : GoString := encodeToString (List.replicate 32 0)

def sampleKey : GoString := encodeToString (List.replicate 32 1)

def sampleLive : Live := { keyID := sampleKey, sessionID := sampleSession }

def sampleOwner : { ownerID : Int // 0 < ownerID } := ⟨7, by decide⟩

def beginMoves : List Move :=
  [.start 0, .act 0 { clock := 100 }, .act 0 { random := some (List.replicate 32 0) },
   .act 0 { random := some (List.replicate 32 1) }, .act 0 {}, .act 0 {}]

def sampleJobs (op : Nat → Op) : Nat → Job
  | 0 => ⟨sampleManager, .begin⟩
  | t + 1 => ⟨sampleManager, op t⟩

def resolvedLive (c : Machine Outcome) (t : Nat) : Option Live :=
  match c.thread t with
  | some (.ret (.resolved (.ok live))) => live
  | _ => none

theorem resolvedLive_eq {c : Machine Outcome} {t : Nat} {live : Live}
    (found : resolvedLive c t = some live) :
    c.thread t = some (.ret (.resolved (.ok (some live)))) := by
  unfold resolvedLive at found
  split at found
  · subst found
    assumption
  · cases found

def resolveMoves : List Move := beginMoves ++
  [.start 1, .act 1 {}, .act 1 {}, .act 1 { clock := 110 }, .act 1 {}, .act 1 {}, .act 1 {}]

def rotateMoves : List Move := beginMoves ++
  [.start 1, .act 1 { clock := 100 }, .act 1 {}, .act 1 { random := some (List.replicate 32 2) },
   .act 1 {}]

def rotateThenResolve : Nat → Job := sampleJobs fun
  | 0 => .forceRotate sampleLive
  | _ => .resolve sampleKey

theorem rotated_sample_key_never_resolves : ∃ c, ∃ e ∈ c.state.log, RotatesAway e sampleKey ∧
    ∀ c', (jobs rotateThenResolve).Reaches c c' →
      ∀ live, c'.thread 2 ≠ some (.ret (.resolved (.ok (some live)))) := by
  have played : (play anyFaults (fun _ _ => true) (jobs rotateThenResolve).prog idle rotateMoves).any fun c =>
      (c.thread 2).isNone && c.state.log.any fun e => decide (RotatesAway e sampleKey) := by
    decide +kernel
  obtain ⟨c, run, -, checked⟩ := reaches_of_played (fun _ => trivial) played
  obtain ⟨idle, rotated⟩ := (Bool.and_eq_true _ _).mp checked
  obtain ⟨e, logged, rotated⟩ := List.any_eq_true.mp rotated
  refine ⟨c, e, logged, of_decide_eq_true rotated, fun c' later live => ?_⟩
  exact (rotated_key_never_resolves _ run).2 e logged _ (of_decide_eq_true rotated) c' later 2 live
    (Option.isNone_iff_eq_none.mp idle) rfl

def Gone (m : Memory) (sessionID : GoString) : Prop :=
  m.sessions.get sessionID = none ∧ (∀ k, m.keys.get k ≠ some sessionID) ∧
    m.cookies.get sessionID = none ∧ m.shas.get sessionID = none ∧
    ∀ owner, ¬ InIndex m.owners owner sessionID

theorem gone_of_wf {m : Memory} (wf : m.WF) {sessionID : GoString}
    (absent : m.sessions.get sessionID = none) : Gone m sessionID := by
  refine ⟨absent, fun k held => wf.keyLive held absent, ?_, ?_, fun owner indexed => ?_⟩
  · by_contra cookies
    exact wf.cookiesLive cookies absent
  · by_contra shas
    exact wf.shasLive shas absent
  · obtain ⟨row, found, -⟩ := wf.indexed.mp indexed
    simp [absent] at found

theorem deleted_session_stays_gone (job : Nat → Job) {c c' : Machine Outcome}
    (run : (jobs job).Reaches idle c) {e : Event} (logged : e ∈ c.state.log)
    {sessionID : GoString} (existed : e.before.sessions.get sessionID ≠ none)
    (deleted : e.after.sessions.get sessionID = none) (later : (jobs job).Reaches c c') :
    Gone c'.state.mem sessionID := by
  have inv := (goodJobs_reaches (jobs_good run) later).inv
  exact gone_of_wf inv.wf (inv.goneSession (log_grows later logged) existed deleted)

def revokeMoves : List Move := beginMoves ++ [.start 1, .act 1 {}]

def revokeThenStore : Nat → Job := sampleJobs fun
  | 0 => .revoke sampleLive
  | _ => .storeCookie sampleLive (lit "sid") (lit "secret")

theorem revoked_sample_stays_gone : ∃ c, ∃ e ∈ c.state.log,
    e.before.sessions.get sampleSession ≠ none ∧ e.after.sessions.get sampleSession = none ∧
    ∀ c', (jobs revokeThenStore).Reaches c c' → Gone c'.state.mem sampleSession := by
  have played : (play anyFaults (fun _ _ => true) (jobs revokeThenStore).prog idle revokeMoves).any fun c =>
      c.state.log.any fun e => decide (e.before.sessions.get sampleSession ≠ none ∧
        e.after.sessions.get sampleSession = none) := by
    decide +kernel
  obtain ⟨c, run, -, checked⟩ := reaches_of_played (fun _ => trivial) played
  obtain ⟨e, logged, deleted⟩ := List.any_eq_true.mp checked
  obtain ⟨existed, deleted⟩ := of_decide_eq_true deleted
  exact ⟨c, e, logged, existed, deleted, fun c' later =>
    deleted_session_stays_gone _ run logged existed deleted later⟩

end Session

end Gosestor
