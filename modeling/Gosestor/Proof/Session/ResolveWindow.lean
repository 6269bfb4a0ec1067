import Gosestor.Proof.Session.Runs

/-!
# The window between TouchSession and GetCookies

Only `TouchSession` checks the key, so another response can rotate the key and store cookies
after it and before `GetCookies`. The handle then carries cookies that were never the session's
while the presented key was valid.
-/

namespace Gosestor

open Gosestor.Go Gosestor.Lib Gosestor.Store

theorem served_touchSession {faults : Fault → Bool} {m m' : Memory} {id keyID : GoString}
    {lastAccess legacy : Int} {ttl : Duration}
    (served : Served faults m m' ⟨.store (.touchSession id keyID lastAccess legacy ttl), .ok ()⟩) :
    m.keys.get keyID = some id ∧ ∃ s, m.sessions.get id = some s ∧
      m' = { m with sessions := m.sessions.set id (Memory.touched s lastAccess legacy) } := by
  obtain ⟨order, answered, done⟩ | ⟨failed, -⟩ := served
  · have answered : (m.touchSession id keyID lastAccess legacy).1 = .ok () :=
      Option.some.inj answered
    have done : m' = (m.touchSession id keyID lastAccess legacy).2 := done
    obtain ⟨-, e, failed⟩ | ⟨s, row, held, touched⟩ :=
      Memory.touchSession_cases m id keyID lastAccess legacy
    · simp [failed] at answered
    · rw [touched] at done
      exact ⟨held, s, row, done⟩
  · cases failed

namespace Session

/-- The last call of `t` was its successful `TouchSession`. -/
def InWindow (t : Nat) (keyID : GoString) (log : List Event) : Prop :=
  ∃ id lastAccess legacy ttl past, ownDeeds t log =
    ⟨.store (.touchSession id keyID lastAccess legacy ttl), .ok ()⟩ :: past

def TakesKey (e : Event) (keyID : GoString) : Prop :=
  e.before.keys.get keyID ≠ none ∧ e.after.keys.get keyID ≠ e.before.keys.get keyID
  deriving Decidable

def Undisturbed (t : Nat) (keyID : GoString) (log : List Event) : Prop :=
  ∀ later e earlier, log = later ++ e :: earlier → InWindow t keyID earlier → ¬ TakesKey e keyID

def CookiesOf (m : Memory) (keyID : GoString) (live : Live) : Prop :=
  m.keys.get keyID = some live.sessionID ∧ m.getCookies live.sessionID = live.cookies
  deriving Decidable

def CookiesAtAnInstant (log : List Event) (keyID : GoString) (live : Live) : Prop :=
  ∃ e ∈ log, CookiesOf e.before keyID live ∨ CookiesOf e.after keyID live
  deriving Decidable

theorem held_through {faults : Fault → Bool} {m : Memory} {mid : List Event} {touch : Event}
    {rest : List Event} {keyID id : GoString} (chained : Chained faults m (mid ++ touch :: rest))
    (held : touch.after.keys.get keyID = some id)
    (quiet : ∀ later e earlier, mid = later ++ e :: earlier → ¬ TakesKey e keyID) :
    m.keys.get keyID = some id := by
  induction mid generalizing m with
  | nil =>
      obtain ⟨rfl, -⟩ := chained
      exact held
  | cons e mid ih =>
      obtain ⟨rfl, -, chained⟩ := chained
      have before : e.before.keys.get keyID = some id := by
        refine ih chained fun later e' earlier same => quiet (e :: later) e' earlier ?_
        rw [same]
        rfl
      have kept := quiet [] e mid rfl
      simp only [TakesKey, before, ne_eq, reduceCtorEq, not_false_eq_true, true_and,
        not_not] at kept
      exact kept

theorem resolve_cookies_of_instant (job : Nat → Job) {c : Machine Outcome}
    (run : (jobs job).Reaches idle c) {t : Nat} {keyID : GoString} {live : Live}
    (op : (job t).op = .resolve keyID)
    (done : c.thread t = some (.ret (.resolved (.ok (some live)))))
    (undisturbed : Undisturbed t keyID c.state.log) :
    CookiesAtAnInstant c.state.log keyID live := by
  have good := jobs_good run
  have returned : Returned (job t) _ (own t c.state) := good.running done
  obtain ⟨row, now, ttl, -, -, -, -, -, history⟩ := returned keyID live op rfl
  -- `GetCookies` in the log, and `TouchSession` somewhere before it.
  obtain ⟨later, read, earlier, logged, -, readDeed, -, readPast⟩ :=
    ownDeeds_split [_] history
  obtain ⟨mid, touch, rest, rfl, touchTid, touchDeed, silent, -⟩ :=
    ownDeeds_split [] readPast
  have chained := good.inv.chained
  rw [logged] at chained
  have readServed := chained.served (e := read) (by simp)
  have touchServed := chained.served (e := touch) (by simp)
  rw [readDeed] at readServed
  rw [touchDeed] at touchServed
  obtain ⟨held, s, -, after⟩ := served_touchSession touchServed
  have held : touch.after.keys.get keyID = some live.sessionID := by
    rw [after]
    exact held
  have mapped : read.before.keys.get keyID = some live.sessionID := by
    refine held_through chained.split held fun newer e older same => ?_
    refine undisturbed (later ++ read :: newer) e (older ++ touch :: rest) ?_ ?_
    · rw [logged, same]
      simp
    · have quiet : ownDeeds t older = [] := by
        rw [same, ownDeeds_append] at silent
        have tail := (List.append_eq_nil_iff.mp silent).2
        have split : ownDeeds t (e :: older) = ownDeeds t [e] ++ ownDeeds t older :=
          ownDeeds_append [e] older
        rw [split] at tail
        exact (List.append_eq_nil_iff.mp tail).2
      refine ⟨live.sessionID, now, ((job t).manager.slide row now).lastRotation, ttl,
        ownDeeds t rest, ?_⟩
      rw [ownDeeds_append, quiet]
      simp [ownDeeds, touchTid, touchDeed]
  refine ⟨read, by rw [logged]; simp, .inl ⟨mapped, served_getCookies readServed⟩⟩

theorem undisturbed_of_untaken {t : Nat} {keyID : GoString} {log : List Event}
    (untaken : ∀ e ∈ log, ¬ TakesKey e keyID) : Undisturbed t keyID log := by
  intro later e earlier same _
  exact untaken e (by rw [same]; simp)

def loginDuringResolve : Nat → Job := sampleJobs fun
  | 0 => .resolve sampleKey
  | _ => .applyResponse sampleLive (some sampleOwner) none false
      [{ name := lit "sid", value := lit "secret" }]

theorem sample_resolve_cookies_of_instant : ∃ c live,
    (jobs loginDuringResolve).Reaches idle c ∧
    c.thread 1 = some (.ret (.resolved (.ok (some live)))) ∧
    CookiesAtAnInstant c.state.log sampleKey live := by
  have played : (play anyFaults (fun _ _ => true) (jobs loginDuringResolve).prog idle resolveMoves).any fun c =>
      (resolvedLive c 1).isSome && c.state.log.all fun e =>
        decide (¬ TakesKey e sampleKey) := by
    decide +kernel
  obtain ⟨c, run, -, checked⟩ := reaches_of_played (fun _ => trivial) played
  obtain ⟨returned, untaken⟩ := (Bool.and_eq_true _ _).mp checked
  obtain ⟨live, found⟩ := Option.isSome_iff_exists.mp returned
  have quiet : ∀ e ∈ c.state.log, ¬ TakesKey e sampleKey :=
    fun e logged => of_decide_eq_true (List.all_eq_true.mp untaken e logged)
  exact ⟨c, live, run, resolvedLive_eq found, resolve_cookies_of_instant _ run rfl
    (resolvedLive_eq found) (undisturbed_of_untaken quiet)⟩

def loginMoves : List Move := beginMoves ++
  [.start 1, .act 1 {}, .act 1 {}, .act 1 { clock := 110 }, .act 1 {},
   .start 2, .act 2 { clock := 111 }, .act 2 {}, .act 2 { random := some (List.replicate 32 2) },
   .act 2 {}, .act 1 {}, .act 1 {}]

theorem resolve_returns_cookies_of_rotation : ∃ c live,
    (jobs loginDuringResolve).Reaches idle c ∧ (loginDuringResolve 1).op = .resolve sampleKey ∧
    c.thread 1 = some (.ret (.resolved (.ok (some live)))) ∧
    live.cookies.get (lit "sid") = some (lit "secret") ∧
    ¬ CookiesAtAnInstant c.state.log sampleKey live := by
  have played : (play anyFaults (fun _ _ => true) (jobs loginDuringResolve).prog idle loginMoves).any fun c =>
      (resolvedLive c 1).any fun live =>
        decide (live.cookies.get (lit "sid") = some (lit "secret") ∧
          ¬ CookiesAtAnInstant c.state.log sampleKey live) := by
    decide +kernel
  obtain ⟨c, run, -, checked⟩ := reaches_of_played (fun _ => trivial) played
  obtain ⟨live, found, holds⟩ := (Option.any_eq_true _ _).mp checked
  obtain ⟨stored, never⟩ := of_decide_eq_true holds
  exact ⟨c, live, run, rfl, resolvedLive_eq found, stored, never⟩

end Session

end Gosestor
