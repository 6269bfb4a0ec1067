import Gosestor.Proof.Session.Binding
import Gosestor.Proof.Session.ResolveWindow
import Gosestor.Proof.Session.Timeouts

/-!
# Resolve and what happens between its calls

`Resolve` folds a key or a row that is gone into "no live session", but not a `TouchSession` that
finds the key taken away. Its deletion of an expired session goes by the row that it read, which
another request may have moved on since.
-/

namespace Gosestor

open Gosestor.Go Gosestor.Lib Gosestor.Store

def Store.StoreCall.sentinels : StoreCall → List StoreErr
  | .getKey _ | .getSession _ | .putKey _ _ _ => [.notFound]
  | .touchSession _ _ _ _ _ | .applySessionControls _ _ _ _ | .rotateSessionKey _ _ _ _ _ =>
      [.notFound, .conflict]
  | _ => []

theorem Store.Memory.applySessionControls_sentinel {m : Memory} {id : GoString}
    {c : SessionControls} {e : StoreErr} (failed : (m.applySessionControls id c).1 = .error e) :
    e ∈ [StoreErr.notFound, .conflict] := by
  unfold applySessionControls at failed
  split at failed
  · cases failed
    simp
  · split_ifs at failed
    all_goals
      cases failed
      simp

theorem Store.Memory.perform_sentinel {m : Memory} {c : StoreCall} {e : StoreErr}
    (failed : (m.perform c).1 = .error e) : e ∈ c.sentinels := by
  cases c with
  | getKey k =>
      simp only [perform, getKey] at failed
      split at failed
      all_goals cases failed
      simp [StoreCall.sentinels]
  | getSession id =>
      simp only [perform, getSession] at failed
      split at failed
      all_goals cases failed
      simp [StoreCall.sentinels]
  | putKey k id ttl =>
      simp only [perform, putKey] at failed
      split_ifs at failed
      cases failed
      simp [StoreCall.sentinels]
  | touchSession id k lastAccess legacy ttl =>
      simp only [perform, touchSession] at failed
      split at failed
      · cases failed
        simp [StoreCall.sentinels]
      · split_ifs at failed
        cases failed
        simp [StoreCall.sentinels]
  | applySessionControls id c ttl ownerTTL => exact applySessionControls_sentinel failed
  | rotateSessionKey id oldKeyID newKeyID lastRotation ttl =>
      exact applySessionControls_sentinel failed
  | deleteSessionByOwner owner id =>
      simp only [perform, deleteSessionByOwner] at failed
      split at failed
      · cases failed
      · split_ifs at failed
  | lock id ttl =>
      simp only [perform, lock] at failed
      split_ifs at failed
  | _ => cases failed

theorem served_sentinel {faults : Fault → Bool} {m m' : Memory} {c : StoreCall} {e : StoreErr}
    (served : Served faults m m' ⟨.store c, .error e⟩) : e ∈ c.sentinels ∨ e = .fault := by
  obtain ⟨order, answered, -⟩ | ⟨failed, -⟩ := served
  · exact .inl (Memory.perform_sentinel (error_of_reorder answered))
  · cases failed
    exact .inr rfl

namespace Session

variable {job : Nat → Job} {c : Machine Outcome} {t : Nat} {keyID : GoString}

def Refused (keyID : GoString) (past : History) : Prop :=
  ∃ sid row now lastAccess legacy ttl cause,
    past = [⟨.store (.touchSession sid keyID lastAccess legacy ttl), .error cause⟩, ⟨.now, now⟩,
      ⟨.store (.getSession sid), .ok row⟩, ⟨.store (.getKey keyID), .ok sid⟩]

def Touches (keyID : GoString) (past : History) : Prop :=
  ∃ sid lastAccess legacy ttl r,
    (⟨.store (.touchSession sid keyID lastAccess legacy ttl), r⟩ : Deed) ∈ past

def Ending (m : Manager) (keyID : GoString) (past : History) : Except Err (Option Live) → Prop
  | .error _ => Refused keyID past ∨
      ∃ c cause, (⟨.store c, .error cause⟩ : Deed) ∈ past ∧ cause ∉ c.sentinels
  | .ok none => ¬ Touches keyID past
  | .ok (some live) => Resolved m keyID live [] past

/-- A session is deleted only right after its row was found expired. -/
def DeletesExpired (past : History) : Call → Prop
  | .store (.deleteSession s) => ∃ row now older, Manager.expired row now = true ∧
      past = ⟨.now, now⟩ :: ⟨.store (.getSession s), .ok row⟩ :: older
  | _ => True

theorem resolve_ends (m : Manager) (keyID : GoString) :
    Obeys DeletesExpired (fun r past => Ending m keyID past r) (m.resolve keyID) [] := by
  refine obeys_act trivial fun key _ => ?_
  cases key with
  | error e =>
      cases e with
      | notFound =>
          show ¬ Touches keyID _
          simp [Touches]
      | conflict | fault =>
          exact .inr ⟨_, _, List.mem_cons_self, by simp [StoreCall.sentinels]⟩
  | ok sid =>
      refine obeys_act trivial fun row _ => ?_
      cases row with
      | error e =>
          cases e with
          | notFound =>
              show ¬ Touches keyID _
              simp [Touches]
          | conflict | fault =>
              exact .inr ⟨_, _, List.mem_cons_self, by simp [StoreCall.sentinels]⟩
      | ok row =>
          refine obeys_act trivial fun now _ => ?_
          dsimp only
          split_ifs with expired
          · refine obeys_act ⟨row, now, _, expired, rfl⟩ fun deleted _ => ?_
            show ¬ Touches keyID _
            simp [Touches]
          · refine obeys_act trivial fun touched _ => ?_
            cases touched with
            | error e => exact .inl ⟨_, _, _, _, _, _, _, rfl⟩
            | ok done =>
                refine obeys_act trivial fun cookies _ => ?_
                cases cookies with
                | error e => exact .inr ⟨_, _, List.mem_cons_self, by simp [StoreCall.sentinels]⟩
                | ok cookies =>
                    refine obeys_act trivial fun shas _ => ?_
                    cases shas with
                    | error e =>
                        exact .inr ⟨_, _, List.mem_cons_self, by simp [StoreCall.sentinels]⟩
                    | ok shas => exact ⟨row, now, _, by simpa using expired, rfl, rfl, rfl, rfl, rfl⟩

/-- A call between the `GetKey` of `t` and its `TouchSession` took the key away. -/
def LosesKey (t : Nat) (keyID : GoString) (log : List Event) : Prop :=
  ∃ later e earlier, log = later ++ e :: earlier ∧
    (∃ sid, (⟨.store (.getKey keyID), .ok sid⟩ : Deed) ∈ ownDeeds t earlier) ∧
    TakesKey e keyID ∧ Touches keyID (ownDeeds t later)

def Healthy (past : History) : Prop := ∀ c, (⟨.store c, .error .fault⟩ : Deed) ∉ past

theorem healthy_sentinel (run : (jobs job).Reaches idle c) (healthy : Healthy (own t c.state))
    {call : StoreCall} {cause : StoreErr}
    (failed : (⟨.store call, .error cause⟩ : Deed) ∈ own t c.state) : cause ∈ call.sentinels := by
  obtain ⟨e, logged, -, deed⟩ := mem_own.mp failed
  have served := (jobs_good run).inv.chained.served logged
  rw [deed] at served
  obtain sentinel | rfl := served_sentinel served
  · exact sentinel
  · exact absurd failed (healthy call)

theorem key_of_refused {m m' : Memory} (wf : m.WF) {sid : GoString} {lastAccess legacy : Int}
    {ttl : Duration} {cause : StoreErr} (named : cause ≠ .fault)
    (served : Served anyFaults m m'
      ⟨.store (.touchSession sid keyID lastAccess legacy ttl), .error cause⟩) :
    m.keys.get keyID ≠ some sid := by
  intro held
  obtain ⟨order, answered, -⟩ | ⟨failed, -⟩ := served
  · have failed : (m.touchSession sid keyID lastAccess legacy).1 = .error cause :=
      error_of_reorder answered
    obtain ⟨row, found⟩ := Option.ne_none_iff_exists'.mp (wf.keyLive held)
    simp [Memory.touchSession, found, held] at failed
  · cases failed
    exact named rfl

theorem getKey_held {faults : Fault → Bool} {m m' : Memory} {k s : GoString}
    (served : Served faults m m' ⟨.store (.getKey k), .ok s⟩) : m'.keys.get k = some s := by
  have held := served_getKey served
  obtain same | ⟨call, named, done⟩ := served_mem served
  · rwa [same]
  · cases named
    rwa [done]

theorem refused_loses (run : (jobs job).Reaches idle c) (healthy : Healthy (own t c.state))
    (refused : Refused keyID (own t c.state)) : LosesKey t keyID c.state.log := by
  obtain ⟨sid, row, now, lastAccess, legacy, ttl, cause, history⟩ := refused
  obtain ⟨newer, touch, older, split, touchTid, touched, -, past⟩ := ownDeeds_split [] history
  obtain ⟨mid, read, earlier, rfl, readTid, gotKey, -, -⟩ := ownDeeds_split [_, _] past
  have chained := (jobs_good run).inv.chained
  rw [split] at chained
  have touchServed := chained.served (e := touch) (by simp)
  have readServed := chained.served (e := read) (by simp)
  rw [touched] at touchServed
  rw [gotKey] at readServed
  have named : cause ≠ .fault := by
    rintro rfl
    exact healthy _ (by rw [history]; exact List.mem_cons_self)
  have lost : touch.before.keys.get keyID ≠ some sid := by
    obtain ⟨w, inv, same⟩ := event_inv run (e := touch) (by simp [split])
    exact key_of_refused (same ▸ inv.wf) named touchServed
  obtain ⟨e, member, before, after⟩ := chained.split.turned
    (P := fun m => m.keys.get keyID ≠ some sid) (not_not.mpr (getKey_held readServed)) lost
  obtain ⟨front, back, rfl⟩ := List.append_of_mem member
  have held : e.before.keys.get keyID = some sid := not_not.mp before
  refine ⟨newer ++ touch :: front, e, back ++ read :: earlier, by simp [split], ⟨sid, ?_⟩, ?_, ?_⟩
  · exact mem_ownDeeds.mpr ⟨read, by simp, readTid, gotKey⟩
  · exact ⟨by simp [held], by rwa [held]⟩
  · exact ⟨sid, lastAccess, legacy, ttl, _, mem_ownDeeds.mpr ⟨touch, by simp, touchTid, touched⟩⟩

theorem unmapped_since (run : (jobs job).Reaches idle c) {later earlier : List Event} {e : Event}
    (split : c.state.log = later ++ e :: earlier)
    (stored : ∃ e' ∈ earlier, e'.after.keys.get keyID ≠ none) (takes : TakesKey e keyID)
    {e' : Event} (member : e' ∈ later) : e'.before.keys.get keyID = none := by
  -- A key that was taken away is never mapped again.
  by_contra mapped
  obtain ⟨sid, held⟩ := Option.ne_none_iff_exists'.mp mapped
  obtain ⟨newer, mid, rfl⟩ := List.append_of_mem member
  have gone : e.after.keys.get keyID ≠ some sid := by
    intro still
    have before := mapped_before run split stored still
    exact takes.2 (still.trans before.symm)
  have chained := (jobs_good run).inv.chained
  rw [split, List.append_assoc, List.cons_append] at chained
  obtain ⟨e'', between, unheld, remapped⟩ := chained.split.turned
    (P := fun m => m.keys.get keyID = some sid) gone held
  obtain ⟨front, back, rfl⟩ := List.append_of_mem between
  obtain ⟨first, there, kept⟩ := stored
  have position : c.state.log = (newer ++ e' :: front) ++ e'' :: (back ++ e :: earlier) := by
    simp [split]
  exact unheld (mapped_before run position ⟨first, by simp [there], kept⟩ remapped)

theorem LosesKey.refused_touch (run : (jobs job).Reaches idle c)
    (loses : LosesKey t keyID c.state.log) : ∃ sid lastAccess legacy ttl cause,
      (⟨.store (.touchSession sid keyID lastAccess legacy ttl), .error cause⟩ : Deed) ∈
        own t c.state := by
  obtain ⟨later, e, earlier, split, ⟨sid', asked⟩, takes, sid, lastAccess, legacy, ttl, r, touches⟩ :=
    loses
  obtain ⟨read, readLogged, -, gotKey⟩ := mem_ownDeeds.mp asked
  obtain ⟨touch, touchLogged, tid, touched⟩ := mem_ownDeeds.mp touches
  have chained := (jobs_good run).inv.chained
  have readServed := chained.served (e := read) (by simp [split, readLogged])
  have touchServed := chained.served (e := touch) (by simp [split, touchLogged])
  rw [gotKey] at readServed
  rw [touched] at touchServed
  have stored : ∃ e' ∈ earlier, e'.after.keys.get keyID ≠ none :=
    ⟨read, readLogged, by simp [getKey_held readServed]⟩
  have unmapped := unmapped_since run split stored takes touchLogged
  cases r with
  | ok done =>
      obtain ⟨held, -⟩ := served_touchSession touchServed
      simp [held] at unmapped
  | error cause =>
      exact ⟨sid, lastAccess, legacy, ttl, cause,
        mem_own.mpr ⟨touch, by simp [split, touchLogged], tid, touched⟩⟩

theorem resolve_ending (run : (jobs job).Reaches idle c) {result : Except Err (Option Live)}
    (op : (job t).op = .resolve keyID) (done : c.thread t = some (.ret (.resolved result))) :
    Ending (job t).manager keyID (own t c.state) result := by
  have obeys : Obeys (fun _ _ => True) (fun outcome past => ∀ result, outcome = .resolved result →
      Ending (job t).manager keyID past result) (job t).prog [] := by
    unfold Job.prog
    rw [op]
    refine Prog.Wp.bind ((resolve_ends (job t).manager keyID).mono (fun _ _ _ => trivial) ?_)
    rintro r past ending result same
    cases same
    exact ending
  exact job_returns obeys run done result rfl

/-- A `Resolve` whose store calls meet no infrastructure failure returns an error if and only if the
key was taken away between its `GetKey` and its `TouchSession`. Otherwise it returns a handle or
finds no live session. -/
theorem resolve_fails_iff_key_lost (job : Nat → Job) {c : Machine Outcome}
    (run : (jobs job).Reaches idle c) {t : Nat} {keyID : GoString}
    {result : Except Err (Option Live)} (op : (job t).op = .resolve keyID)
    (done : c.thread t = some (.ret (.resolved result))) (healthy : Healthy (own t c.state)) :
    (∃ err, result = .error err) ↔ LosesKey t keyID c.state.log := by
  have ending := resolve_ending run op done
  constructor
  · rintro ⟨err, rfl⟩
    obtain refused | ⟨call, cause, failed, unexpected⟩ := ending
    · exact refused_loses run healthy refused
    · exact absurd (healthy_sentinel run healthy failed) unexpected
  · intro loses
    obtain ⟨sid, lastAccess, legacy, ttl, cause, touched⟩ := loses.refused_touch run
    cases result with
    | error err => exact ⟨err, rfl⟩
    | ok found =>
        cases found with
        | none => exact absurd ⟨sid, lastAccess, legacy, ttl, _, touched⟩ ending
        | some live =>
            obtain ⟨row, now, ttl', -, -, -, -, -, history⟩ := ending
            rw [history] at touched
            simp at touched

theorem keeps_key_of_untaken {log : List Event} (untaken : ∀ e ∈ log, ¬ TakesKey e keyID) :
    ¬ LosesKey t keyID log := by
  rintro ⟨later, e, earlier, rfl, -, takes, -⟩
  exact untaken e (by simp) takes

def Healthy.check (past : History) : Bool :=
  past.all fun d => match d with
    | ⟨.store _, .error .fault⟩ => false
    | _ => true

theorem Healthy.of_check {past : History} (checked : Healthy.check past) : Healthy past := by
  intro call member
  have fine := List.all_eq_true.mp checked _ member
  cases fine

theorem sample_resolve_succeeds : ∃ c result,
    (jobs (sampleJobs fun _ => .resolve sampleKey)).Reaches idle c ∧
    c.thread 1 = some (.ret (.resolved result)) ∧ Healthy (own 1 c.state) ∧
    ¬ ∃ err, result = .error err := by
  have played : (play anyFaults (fun _ _ => true)
      (jobs (sampleJobs fun _ => .resolve sampleKey)).prog idle resolveMoves).any fun c =>
        (resolvedLive c 1).isSome && Healthy.check (own 1 c.state) &&
          c.state.log.all fun e => decide (¬ TakesKey e sampleKey) := by
    decide +kernel
  obtain ⟨c, run, -, checked⟩ := reaches_of_played (fun _ => trivial) played
  simp only [Bool.and_eq_true] at checked
  obtain ⟨⟨returned, healthy⟩, untaken⟩ := checked
  obtain ⟨live, found⟩ := Option.isSome_iff_exists.mp returned
  have healthy := Healthy.of_check healthy
  have quiet : ∀ e ∈ c.state.log, ¬ TakesKey e sampleKey :=
    fun e logged => of_decide_eq_true (List.all_eq_true.mp untaken e logged)
  refine ⟨c, _, run, resolvedLive_eq found, healthy, ?_⟩
  rw [resolve_fails_iff_key_lost _ run rfl (resolvedLive_eq found) healthy]
  exact keeps_key_of_untaken quiet

def logoutDuringResolve : Nat → Job := sampleJobs fun
  | 0 => .resolve sampleKey
  | _ => .revoke sampleLive

def racingLogoutMoves : List Move := beginMoves ++
  [.start 1, .act 1 {}, .act 1 {}, .act 1 { clock := 110 }, .start 2, .act 2 {}, .act 1 {}]

def resolvedErr (c : Machine Outcome) (t : Nat) : Option Err :=
  match c.thread t with
  | some (.ret (.resolved (.error err))) => some err
  | _ => none

theorem resolvedErr_eq {err : Err} (found : resolvedErr c t = some err) :
    c.thread t = some (.ret (.resolved (.error err))) := by
  unfold resolvedErr at found
  split at found
  · cases found
    assumption
  · cases found

theorem lost_race_is_an_error : ∃ c,
    (jobs logoutDuringResolve).Reaches idle c ∧ (logoutDuringResolve 1).op = .resolve sampleKey ∧
    Healthy (own 1 c.state) ∧ Healthy (own 2 c.state) ∧
    c.thread 1 = some (.ret (.resolved (.error (.store .notFound)))) := by
  have played : (play anyFaults (fun _ _ => true) (jobs logoutDuringResolve).prog idle
      racingLogoutMoves).any fun c => Healthy.check (own 1 c.state) && Healthy.check (own 2 c.state) &&
        decide (resolvedErr c 1 = some (.store .notFound)) := by
    decide +kernel
  obtain ⟨c, run, -, checked⟩ := reaches_of_played (fun _ => trivial) played
  simp only [Bool.and_eq_true, decide_eq_true_eq] at checked
  obtain ⟨⟨resolving, revoking⟩, failed⟩ := checked
  exact ⟨c, run, rfl, .of_check resolving, .of_check revoking, resolvedErr_eq failed⟩

def Advances (e : Event) (s : GoString) : Prop :=
  ∃ row ∈ e.before.sessions.get s, ∃ row' ∈ e.after.sessions.get s, row.lastAccess < row'.lastAccess
  deriving Decidable

/-- No call after the `GetSession` of `t` moved the last access of `s` on. -/
def StillSince (t : Nat) (s : GoString) (log : List Event) : Prop :=
  ∀ newer e older, log = newer ++ e :: older →
    (∃ row, (⟨.store (.getSession s), .ok row⟩ : Deed) ∈ ownDeeds t older) → ¬ Advances e s

theorem expired_congr {row row' : Session} (later : row.Later row')
    (still : row'.lastAccess = row.lastAccess) (now : Int) :
    Manager.expired row' now = Manager.expired row now := by
  simp [Manager.expired, still, later.creation, later.inactiveTimeout, later.finalTimeout]

theorem unmoved_since_read (run : (jobs job).Reaches idle c) {s : GoString} {mid rest : List Event}
    {read : Event} {row row' : Session} (split : c.state.log = mid ++ read :: rest)
    (found : read.deed = ⟨.store (.getSession s), .ok row⟩)
    (still : ∀ e ∈ mid, ¬ Advances e s) (found' : c.state.mem.sessions.get s = some row') :
    row.Later row' ∧ row'.lastAccess = row.lastAccess := by
  -- While no call moves the last access on, a row that is still there is as it was read.
  obtain ⟨before, next, w', reached, running, step, -, same, same', onward⟩ :=
    logged_step run rfl split
  have inv := (jobs_good run).inv
  have served := inv.chained.served (e := read) (by simp [split])
  rw [found] at served
  have stored : before.state.mem.sessions.get s = some row := same ▸ served_getSession served
  have later : row.Later row' := later_run reached (.head (.act read.tid running step) onward)
    stored found'
  refine ⟨later, ?_⟩
  by_contra moved
  have newer : row.lastAccess < row'.lastAccess := lt_of_le_of_ne later.lastAccess (Ne.symm moved)
  have kept : read.after.sessions.get s = some row := by
    have there := served_getSession served
    obtain unchanged | ⟨call, named, done⟩ := served_mem served
    · rwa [unchanged]
    · cases named
      rwa [done]
  have chained := inv.chained
  rw [split] at chained
  obtain ⟨e, member, old, new⟩ := chained.turned
    (P := fun m => ¬ ∃ r ∈ m.sessions.get s, r.lastAccess ≤ row.lastAccess)
    (not_not.mpr ⟨row, kept, le_rfl⟩) (by simp [found', newer])
  obtain ⟨r, there, bound⟩ := not_not.mp old
  cases after : e.after.sessions.get s with
  | none =>
      have existed : e.before.sessions.get s ≠ none := by simp [Option.mem_def.mp there]
      have gone := inv.goneSession (e := e) (by simp [split, member]) existed after
      simp [found'] at gone
  | some r' =>
      have ahead : row.lastAccess < r'.lastAccess := by
        by_contra behind
        exact new ⟨r', after, not_lt.mp behind⟩
      exact still e member ⟨r, there, r', after, bound.trans_lt ahead⟩

/-- In a run in which no call between a `Resolve`'s `GetSession` and its `DeleteSession` moves the
session's last access on, the row that is deleted has expired at the `Resolve`'s clock reading. -/
theorem deletes_only_expired (job : Nat → Job) {c : Machine Outcome}
    (run : (jobs job).Reaches idle c) {t : Nat} {keyID s : GoString}
    (op : (job t).op = .resolve keyID) {later earlier : List Event} {e : Event}
    (split : c.state.log = later ++ e :: earlier) (mine : e.tid = t)
    (deletes : e.call = .store (.deleteSession s)) (still : StillSince t s earlier) :
    ∃ now, clock (ownDeeds t earlier) = some now ∧
      ∀ row, e.before.sessions.get s = some row → Manager.expired row now = true := by
  have obeys : Obeys DeletesExpired (fun _ _ => True) (job t).prog [] := by
    unfold Job.prog
    rw [op]
    exact Prog.Wp.bind ((resolve_ends (job t).manager keyID).weaken fun _ _ _ => trivial)
  have judged := job_calls obeys run split mine
  rw [deletes] at judged
  obtain ⟨row, now, older, expired, past⟩ := judged
  refine ⟨now, by rw [past]; rfl, fun row' found' => ?_⟩
  obtain ⟨mid, read, rest, rfl, tid, found, -, -⟩ := ownDeeds_split [⟨.now, now⟩] past
  obtain ⟨before, -, -, reached, -, -, log, same, -⟩ := logged_step run rfl split
  have unmoved : ∀ e ∈ mid, ¬ Advances e s := by
    intro e member
    obtain ⟨front, back, rfl⟩ := List.append_of_mem member
    exact still front e (back ++ read :: rest) (by simp)
      ⟨row, mem_ownDeeds.mpr ⟨read, by simp, tid, found⟩⟩
  obtain ⟨since, same⟩ := unmoved_since_read reached log found unmoved (same ▸ found')
  rw [expired_congr since same, expired]

theorem still_of_unmoved {s : GoString} {log : List Event} (unmoved : ∀ e ∈ log, ¬ Advances e s) :
    StillSince t s log := by
  intro newer e older same _
  exact unmoved e (by rw [same]; simp)

def deletesLast (c : Machine Outcome) (t : Nat) (s : GoString) : Bool :=
  c.state.log.head?.any fun e => decide (e.tid = t) &&
    match e.call with
    | .store (.deleteSession id) => decide (id = s)
    | _ => false

theorem deletesLast_eq {s : GoString} (checked : deletesLast c t s) : ∃ e earlier,
    c.state.log = [] ++ e :: earlier ∧ e.tid = t ∧ e.call = .store (.deleteSession s) := by
  obtain ⟨e, newest, found⟩ := (Option.any_eq_true _ _).mp checked
  obtain ⟨earlier, log⟩ := List.head?_eq_some_iff.mp newest
  simp only [Bool.and_eq_true, decide_eq_true_eq] at found
  obtain ⟨mine, deletes⟩ := found
  refine ⟨e, earlier, log, mine, ?_⟩
  split at deletes
  · rename_i id named
    rw [named, of_decide_eq_true deletes]
  · cases deletes

def expiryMoves : List Move := beginMoves ++
  [.start 1, .act 1 {}, .act 1 {}, .act 1 { clock := 2000 }, .act 1 {}]

theorem sample_deletes_only_expired : ∃ c, ∃ e ∈ c.state.log,
    (jobs (sampleJobs fun _ => .resolve sampleKey)).Reaches idle c ∧ e.tid = 1 ∧
    e.call = .store (.deleteSession sampleSession) ∧
    ∃ now, ∀ row, e.before.sessions.get sampleSession = some row →
      Manager.expired row now = true := by
  have played : (play anyFaults (fun _ _ => true)
      (jobs (sampleJobs fun _ => .resolve sampleKey)).prog idle expiryMoves).any fun c =>
        deletesLast c 1 sampleSession &&
          c.state.log.all fun e => decide (¬ Advances e sampleSession) := by
    decide +kernel
  obtain ⟨c, run, -, checked⟩ := reaches_of_played (fun _ => trivial) played
  obtain ⟨deleted, unmoved⟩ := (Bool.and_eq_true _ _).mp checked
  obtain ⟨e, earlier, split, mine, deletes⟩ := deletesLast_eq deleted
  have still : StillSince 1 sampleSession earlier := still_of_unmoved fun e' member =>
    of_decide_eq_true (List.all_eq_true.mp unmoved e' (by simp [split, member]))
  obtain ⟨now, -, expired⟩ := deletes_only_expired _ run rfl split mine deletes still
  exact ⟨c, e, by simp [split], run, mine, deletes, now, expired⟩

def touchMoves : List Move := beginMoves ++
  [.start 1, .act 1 {}, .act 1 {}, .start 2, .act 2 {}, .act 2 {}, .act 2 { clock := 1500 },
   .act 2 {}, .act 2 {}, .act 2 {}, .act 1 { clock := 2000 }, .act 1 {}]

theorem expiry_kills_refreshed_session : ∃ c e earlier row,
    (jobs (sampleJobs fun _ => .resolve sampleKey)).Reaches idle c ∧
    c.state.log = [] ++ e :: earlier ∧ e.tid = 1 ∧
    e.call = .store (.deleteSession sampleSession) ∧ clock (ownDeeds 1 earlier) = some 2000 ∧
    e.before.sessions.get sampleSession = some row ∧ Manager.expired row 2000 = false ∧
    e.after.sessions.get sampleSession = none := by
  have played : (play anyFaults (fun _ _ => true)
      (jobs (sampleJobs fun _ => .resolve sampleKey)).prog idle touchMoves).any fun c =>
        deletesLast c 1 sampleSession && decide (clock (ownDeeds 1 c.state.log.tail) = some 2000) &&
          c.state.log.head?.any fun e =>
            ((e.before.sessions.get sampleSession).any fun row => !Manager.expired row 2000) &&
              decide (e.after.sessions.get sampleSession = none) := by
    decide +kernel
  obtain ⟨c, run, -, checked⟩ := reaches_of_played (fun _ => trivial) played
  simp only [Bool.and_eq_true, decide_eq_true_eq] at checked
  obtain ⟨⟨deleted, clock⟩, checked⟩ := checked
  obtain ⟨e, earlier, split, mine, deletes⟩ := deletesLast_eq deleted
  simp only [split, List.nil_append, List.head?_cons, Option.any_some, Bool.and_eq_true,
    decide_eq_true_eq, List.tail_cons] at checked clock
  obtain ⟨row, found, live⟩ := (Option.any_eq_true _ _).mp checked.1
  exact ⟨c, e, earlier, row, run, split, mine, deletes, clock, found, by simpa using live, checked.2⟩

end Session

end Gosestor
