import Gosestor.Proof.Go.Strings
import Gosestor.Proof.Handler.Config
import Gosestor.Proof.Store.Scripts
import Gosestor.Server

/-!
# Which configurations make sessions that last

`Begin` takes the configured timeouts in whole seconds. The session it stores is live and expires
when each timeout has at least one of them.
-/

namespace Gosestor

open Gosestor.Go Gosestor.Lib Gosestor.Store Gosestor.Lib.Redis

def Lib.Redis.Keyspace.Expiring (db : Keyspace GoString) (k : GoString) : Prop :=
  ∀ e, db k = some e → e.expiry ≠ none

namespace Store

section Expiring

variable {now : Int} {db : Keyspace GoString} {k : GoString}

theorem expiring_expireAt (expiry : Int) : (db.expireAt k now expiry).Expiring k := by
  intro e found
  rw [Keyspace.expireAt, Function.update_self] at found
  obtain ⟨e', -, kept⟩ := Option.bind_eq_some_iff.mp found
  split_ifs at kept
  cases kept
  simp

theorem expiring_setText (text : GoString) (expiry : Int) :
    (db.setText k text (some expiry)).Expiring k := by
  intro e found
  rw [Keyspace.setText, Function.update_self] at found
  cases found
  simp

def WritesOnly (now : Int) (keys : List GoString) (p : Progress GoString) (c : Cmd GoString) : Prop :=
  (p.wrote = true → c.raises now p.db = false) ∧ ∀ k, c.target = some k → k ∈ keys

theorem writesOnly_read {keys : List GoString} {p : Progress GoString} {c : Cmd GoString}
    (unwritten : p.wrote = false) (reads : c.target = none) : WritesOnly now keys p c :=
  ⟨fun wrote => by simp [unwritten] at wrote, fun k writes => by simp [reads] at writes⟩

variable {p : Progress GoString}

def Leaves (keys : List GoString) (result : ScriptResult) (p : Progress GoString) : Prop :=
  result = .int 1 ∨ p.wrote = true → ∀ k ∈ keys, p.db.Expiring k

theorem leaves_of_failed {keys : List GoString} {result : ScriptResult}
    (unwritten : p.wrote = false) (failed : result ≠ .int 1) : Leaves keys result p := by
  rintro (same | wrote)
  · exact absurd same failed
  · simp [unwritten] at wrote

theorem putSession_leaves (s : Session) {sess : GoString} {ttl : Int} (positive : 0 < double ttl)
    (ranged : millis now + ttl < 2 ^ 63) (unwritten : p.wrote = false) :
    (putSessionScript sess s ttl).Wp (Script.step now) (WritesOnly now [sess])
      (fun result p' => Leaves [sess] result p' ∧ ∀ n, result = .int n → n = 1) p := by
  apply wp_checked
  · exact fun key => writesOnly_read unwritten rfl
  · exact fun text => ⟨leaves_of_failed unwritten (by simp), fun n same => by cases same⟩
  · intro fit
    have fits : p.db.fit sess .hash = true := fit _ List.mem_cons_self
    refine wp_call ⟨fun _ => ?_, fun k same => ?_⟩ fun _ => ?_
    · simp [Cmd.raises, Cmd.demand, Cmd.ranged, fits]
    · simp [← Option.some.inj same]
    · rw [onlyIf, if_pos (by simpa using positive)]
      refine wp_call ⟨fun _ => ?_, fun k same => ?_⟩ fun _ => ?_
      · simpa [Cmd.raises, Cmd.demand, Cmd.ranged] using ranged
      · simp [← Option.some.inj same]
      · refine ⟨fun _ k member => ?_, fun n same => by cases same; rfl⟩
        obtain rfl := List.mem_singleton.mp member
        exact expiring_expireAt _

theorem pttl_nonneg {sess : GoString} (expiring : db.Expiring sess)
    (present : (db sess).isSome = true) : 0 ≤ ((Cmd.pttl sess).total now db).1 := by
  obtain ⟨e, found⟩ := Option.isSome_iff_exists.mp present
  obtain ⟨expiry, due⟩ := Option.ne_none_iff_exists'.mp (expiring e found)
  simp only [Cmd.total, found, due, Option.elim_some]
  exact le_max_left _ _

theorem putKey_leaves {sess key keys id keyID : GoString} (apart : key ≠ keys)
    (expiring : p.db.Expiring sess) (unwritten : p.wrote = false) :
    (putKeyScript sess key keys id keyID).Wp (Script.step now) (WritesOnly now [key, keys])
      (Leaves [key, keys]) p := by
  apply wp_checked
  · exact fun key => writesOnly_read unwritten rfl
  · exact fun text => leaves_of_failed unwritten (by simp)
  intro fit
  have reverse : p.db.fit keys .set = true := fit (keys, .set) (by simp)
  refine wp_read rfl (writesOnly_read unwritten rfl) ?_
  cases present : (p.db sess).isSome with
  | false =>
      simp only [Cmd.total, present, Bool.not_false, if_true]
      exact leaves_of_failed unwritten (by simp)
  | true =>
      simp only [Cmd.total, present, Bool.not_true, Bool.false_eq_true, if_false]
      refine wp_read rfl (writesOnly_read unwritten rfl) ?_
      have nonneg : 0 ≤ ((Cmd.pttl sess).total now p.db).1 := pttl_nonneg expiring present
      generalize ((Cmd.pttl sess).total now p.db).1 = ttl at nonneg ⊢
      split_ifs with due
      · exact leaves_of_failed unwritten (by simp)
      have positive : 0 < ttl := lt_of_le_of_ne nonneg (Ne.symm due)
      rw [setKey, if_pos positive]
      refine wp_call ⟨fun wrote => by simp [unwritten] at wrote, fun k same => ?_⟩ fun calm => ?_
      · simp [← Option.some.inj same]
      have ranged : millis now + ttl < 2 ^ 63 := by
        simp only [Cmd.raises, Cmd.demand, Cmd.ranged, Option.all_none, Bool.true_and,
          Bool.not_eq_false', Bool.and_eq_true, decide_eq_true_eq] at calm
        exact calm.2
      refine wp_call ⟨fun _ => ?_, fun k same => ?_⟩ fun _ => ?_
      · have still : (p.db.setText key id (some (millis now + ttl))).fit keys .set = true := by
          unfold Keyspace.fit
          rw [Keyspace.setText_of_ne (Ne.symm apart)]
          exact reverse
        simp [Cmd.raises, Cmd.demand, Cmd.ranged, Cmd.total, still]
      · simp [← Option.some.inj same]
      rw [onlyIf, if_pos (by simpa using positive)]
      refine wp_call ⟨fun _ => ?_, fun k same => ?_⟩ fun _ => ?_
      · simpa [Cmd.raises, Cmd.demand, Cmd.ranged] using ranged
      · simp [← Option.some.inj same]
      · intro _ k member
        simp only [List.mem_cons, List.not_mem_nil, or_false] at member
        obtain rfl | rfl := member
        · intro e found
          simp only [Cmd.total] at found
          rw [Keyspace.expireAt_of_ne apart, Keyspace.sadd_of_ne apart] at found
          exact expiring_setText id (millis now + ttl) e found
        · exact expiring_expireAt _

theorem writes_of_target {c : Cmd GoString} (target : c.target = some k) : c.writes = true := by
  cases c <;> first | rfl | cases target

theorem exec_leaves {β : Type} {keys : List GoString} {s : Script GoString β}
    {post : β → Progress GoString → Prop}
    (wp : s.Wp (Script.step now) (WritesOnly now keys) post ⟨db.asOf now, false⟩)
    (leaves : ∀ {b p}, post b p → p.wrote = true → ∀ k ∈ keys, p.db.Expiring k) :
    ∀ c ∈ trace now s (db.asOf now), ∀ k, c.target = some k →
      (Lib.Redis.exec now s db).2.Expiring k := by
  intro c member k target
  have listed := trace_of_wp wp (Q := fun c => ∀ k, c.target = some k → k ∈ keys) (fun h => h.2)
    c member k target
  have wrote : (run now s ⟨db.asOf now, false⟩).2.wrote = true := by
    rw [run_wrote, List.any_eq_true.mpr ⟨c, member, writes_of_target target⟩]
    rfl
  cases ended : (run now s ⟨db.asOf now, false⟩).1 with
  | none =>
      rw [unwritten_of_wp wp (fun h => h.1) ended] at wrote
      cases wrote
  | some b => exact leaves (post_of_wp wp ended) wrote k listed

theorem expiring_asOf (expiring : db.Expiring k) : (db.asOf now).Expiring k :=
  fun e found => expiring e (Keyspace.asOf_eq_some.mp found).1

end Expiring

end Store

def Stamp.Expiring (e : Stamp) : Prop :=
  ∀ c ∈ e.commands, ∀ k, c.target = some k → e.after.Expiring k

namespace Session

section Begin

variable {r : Redis} {time : Int} {db db' : Keyspace GoString} {commands : List (Cmd GoString)}

theorem ttl_range (s : Session) (now : Int) :
    -2 ^ 63 ≤ Manager.ttl s now ∧ Manager.ttl s now < 2 ^ 63 := by
  unfold Manager.ttl
  dsimp only
  split_ifs <;> exact int64_range _

theorem putSession_expiring {row : Session} {ttl : Duration}
    {answer : (StoreCall.putSession row ttl).Answer}
    (bounds : -2 ^ 63 ≤ ttl ∧ ttl < 2 ^ 63) (positive : 1 ≤ ttl.milliseconds)
    (epoch : millis time < 2 ^ 62)
    (performed : Performed r time db (StoreCall.putSession row ttl) answer commands db') :
    (∀ c ∈ commands, ∀ k, c.target = some k → db'.Expiring k) ∧
      (answer = .ok () → db'.Expiring (r.sessKey row.id)) := by
  cases performed with
  | unreached => exact ⟨fun c member => (by cases member), fun same => by cases same⟩
  | apart none => cases none
  | ran request answered =>
      cases request
      obtain ⟨low, high⟩ := milliseconds_bounds bounds.1 bounds.2
      have double : 0 < double ttl.milliseconds := by
        rw [double_of_lt (by omega) (by omega)]
        omega
      have wp : (Redis.errOf <$> r.evalPutSession row ttl).Wp (Script.step time)
          (WritesOnly time [r.sessKey row.id])
          (fun answer p' => (p'.wrote = true ∨ answer = .ok () →
            ∀ k ∈ [r.sessKey row.id], p'.db.Expiring k)) ⟨db.asOf time, false⟩ := by
        refine wp_map ((putSession_leaves row double (by omega) rfl).weaken ?_)
        rintro result p ⟨leaves, one⟩ (wrote | succeeded)
        · exact leaves (.inr wrote)
        · cases result with
          | error text => cases succeeded
          | int n => exact leaves (.inl (by rw [one n rfl]))
      refine ⟨exec_leaves wp fun post wrote => post (.inl wrote), fun succeeded => ?_⟩
      obtain failed | ⟨order, same⟩ := answered
      · cases succeeded.symm.trans failed
      · have ended : (run time (Redis.errOf <$> r.evalPutSession row ttl)
            ⟨db.asOf time, false⟩).1 = some (.ok ()) := by
          have same := (Option.some.inj same).trans succeeded
          unfold Lib.Redis.exec at same
          cases ended : (run time (Redis.errOf <$> r.evalPutSession row ttl)
              ⟨db.asOf time, false⟩).1 with
          | none =>
              simp only [ended] at same
              cases same
          | some value =>
              simp only [ended] at same
              rw [← same]
              rfl
        exact post_of_wp wp ended (.inr rfl) _ List.mem_cons_self

theorem putKey_expiring {keyID id : GoString} {ttl : Duration}
    {answer : (StoreCall.putKey keyID id ttl).Answer}
    (expiring : db.Expiring (r.sessKey id))
    (performed : Performed r time db (StoreCall.putKey keyID id ttl) answer commands db') :
    ∀ c ∈ commands, ∀ k, c.target = some k → db'.Expiring k := by
  cases performed with
  | unreached =>
      intro c member
      cases member
  | apart none => cases none
  | ran request answered =>
      cases request
      have apart : r.keyKey keyID ≠ r.reverseKey id := by
        intro same
        have kinds := r.kindOf_keyKey id keyID
        rw [same, r.kindOf_reverseKey id] at kinds
        cases kinds
      have wp : (Redis.foundOf <$> r.evalPutKey keyID id).Wp (Script.step time)
          (WritesOnly time [r.keyKey keyID, r.reverseKey id])
          (fun _ p' => p'.wrote = true →
            ∀ k ∈ [r.keyKey keyID, r.reverseKey id], p'.db.Expiring k) ⟨db.asOf time, false⟩ := by
        apply wp_map
        apply (putKey_leaves apart (expiring_asOf expiring) rfl).weaken
        exact fun result p' leaves wrote => leaves (.inr wrote)
      exact exec_leaves wp fun post => post

def Lasting (log : List Stamp) : Prop := ∀ e ∈ log, millis e.time < 2 ^ 62 → e.Expiring

theorem Lasting.cons {log : List Stamp} {e : Stamp} (lasting : Lasting log)
    (expiring : millis e.time < 2 ^ 62 → e.Expiring) : Lasting (e :: log) := by
  intro e' member
  obtain rfl | earlier := List.mem_cons.mp member
  · exact expiring
  · exact lasting e' earlier

theorem millis_mono {a b : Int} (le : a ≤ b) : millis a ≤ millis b :=
  Int.ediv_le_ediv (by decide) le

section Serve

variable {α : Type} {now : Int} {t : Nat} {s : Server} {may : Server → Call → Prop}
  {post : α → Server → Prop}

theorem wp_aside {c : Call} {f : c.Answer → Act α} (allowed : may s c) (lasting : Lasting s.log)
    (aside : ∀ {reads time answer commands db}, Answered r reads s time c answer commands db →
      commands = [])
    (rest : ∀ answer s', Lasting s'.log → serve r (fun _ reading => reading = now) t s c answer s' →
      (f answer).Wp (serve r (fun _ reading => reading = now) t) may post s') :
    (act c >>= f).Wp (serve r (fun _ reading => reading = now) t) may post s := by
  refine ⟨allowed, fun answer s' step => rest answer s' ?_ step⟩
  obtain ⟨-, commands, answered, log⟩ := step
  rw [log]
  refine lasting.cons fun _ c member => ?_
  rw [aside answered] at member
  cases member

end Serve

/-- The keys that `Begin` writes expire. -/
theorem begin_lasting (m : Manager) {now : Int}
    (positive : ∀ sid, 1 ≤ (Manager.ttl (m.newSession sid now) now).milliseconds) {s : Server}
    (lasting : Lasting s.log) :
    m.begin.Wp (serve r (fun _ reading => reading = now) 0) (fun _ _ => True)
      (fun _ s' => Lasting s'.log) s := by
  have drawn : ∀ {s : Server} {reads : Int → Int → Prop} {time : Int}
      {answer : Call.Answer .randomRead} {commands : List (Cmd GoString)} {db : Keyspace GoString},
      Answered r reads s time .randomRead answer commands db → commands = [] := by
    intro s reads time answer commands db answered
    cases answer with
    | none => exact answered.1
    | some buf => exact answered.2.1
  refine wp_aside trivial lasting (fun answered => answered.2.1) fun reading s₁ lasting read => ?_
  obtain ⟨-, -, ⟨rfl, -⟩, -⟩ := read
  refine Prog.Wp.bind (wp_aside trivial lasting drawn fun sid s₂ lasting _ => ?_)
  cases sid with
  | none => exact lasting
  | some sid =>
      refine Prog.Wp.bind (wp_aside trivial lasting drawn fun key s₃ lasting _ => ?_)
      cases key with
      | none => exact lasting
      | some key =>
          refine ⟨trivial, fun put s₄ step => ?_⟩
          obtain ⟨-, commands, performed, log⟩ := step
          have stored : millis s₄.time < 2 ^ 62 → _ := fun epoch =>
            putSession_expiring (ttl_range _ _) (positive _) epoch performed
          have lasting₄ : Lasting s₄.log := by
            rw [log]
            exact lasting.cons fun epoch => (stored epoch).1
          cases put with
          | error e => exact lasting₄
          | ok done =>
              refine ⟨trivial, fun keyed s₅ step => ?_⟩
              obtain ⟨later, commands', performed', log'⟩ := step
              have lasting₅ : Lasting s₅.log := by
                rw [log']
                refine lasting₄.cons fun epoch => ?_
                exact putKey_expiring ((stored ((millis_mono later).trans_lt epoch)).2 rfl) performed'
              cases keyed with
              | error e => exact lasting₅
              | ok done => exact lasting₅

end Begin

/-- A session that `Begin` stores at this clock reading is live, and all its keys expire. -/
structure Manager.Usable (m : Manager) (now : Int) : Prop where
  live : ∀ sid, Manager.expired (m.newSession sid now) now = false
  ttl : ∀ sid, 1 ≤ (Manager.ttl (m.newSession sid now) now).milliseconds
  expiring : ∀ (r : Redis) (db : Keyspace GoString) (time : Int) (result : Except Err Live)
    (s : Server), Prog.Run (serve r (fun _ reading => reading = now) 0) m.begin ⟨db, time, []⟩
      result s → Lasting s.log

section Timeouts

variable {m : Manager} {now : Int}

theorem newSession_live_iff (clock : -2 ^ 63 ≤ now ∧ now < 2 ^ 63)
    (final : 0 ≤ Duration.truncSeconds m.cfg.final ∧ Duration.truncSeconds m.cfg.final ≤ 9223372036)
    (sid : GoString) :
    Manager.expired (m.newSession sid now) now = false ↔
      1 ≤ Duration.truncSeconds m.cfg.inactive ∧ 1 ≤ Duration.truncSeconds m.cfg.final ∧
        now + Duration.truncSeconds m.cfg.final < 2 ^ 63 := by
  unfold Manager.expired Manager.newSession
  dsimp only
  generalize Duration.truncSeconds m.cfg.inactive = idle
  generalize Duration.truncSeconds m.cfg.final = life at final
  have still : int64 (now - now) = 0 := by
    rw [Int.sub_self]
    rfl
  rw [Bool.or_eq_false_iff, decide_eq_false_iff_not, decide_eq_false_iff_not, still]
  by_cases fits : now + life < 2 ^ 63
  · rw [int64_of_range (by omega) fits]
    omega
  · have wraps := int64_neg (n := now + life) (by omega) (by omega)
    omega

theorem newSession_ttl (clock : -2 ^ 63 ≤ now)
    (inactive : 1 ≤ Duration.truncSeconds m.cfg.inactive ∧
      Duration.truncSeconds m.cfg.inactive ≤ 9223372036)
    (final : 1 ≤ Duration.truncSeconds m.cfg.final ∧ Duration.truncSeconds m.cfg.final ≤ 9223372036)
    (fits : now + Duration.truncSeconds m.cfg.final < 2 ^ 63) (sid : GoString) :
    1 ≤ (Manager.ttl (m.newSession sid now) now).milliseconds := by
  unfold Manager.ttl Manager.newSession second Duration.milliseconds
  dsimp only
  generalize Duration.truncSeconds m.cfg.inactive = idle at inactive
  generalize Duration.truncSeconds m.cfg.final = life at final fits
  have remaining : now + life - now = life := by omega
  rw [int64_of_range (n := now + life) (by omega) fits, remaining,
    int64_of_range (n := life) (by omega) (by omega),
    int64_of_range (n := life * 1000000000) (by omega) (by omega),
    int64_of_range (n := idle * 1000000000) (by omega) (by omega)]
  split_ifs with shorter
  · rw [Int.tdiv_eq_ediv_of_nonneg (by omega)]
    omega
  · rw [Int.tdiv_eq_ediv_of_nonneg (by omega)]
    omega

end Timeouts

variable {cfg : HandlerConfig} {h : Handler} {sum256 : GoString → List UInt8}
  {parseTime : GoString → Option Int}

theorem truncSeconds_default {d default : Duration} (low : 0 ≤ d) (high : d < 2 ^ 63)
    (long : second ≤ default) (bounded : default < 2 ^ 63) :
    let configured := Duration.truncSeconds (if d = 0 then default else d)
    0 ≤ configured ∧ configured ≤ 9223372036 ∧ (1 ≤ configured ↔ d = 0 ∨ second ≤ d) := by
  have nonneg : 0 ≤ default := (show (0 : Int) ≤ second by decide).trans long
  dsimp only
  split_ifs with unset
  · obtain ⟨below, whole⟩ := truncSeconds_bounds nonneg bounded
    exact ⟨(le_min nonneg le_rfl).trans (min_le_truncSeconds default), below,
      fun _ => .inl unset, fun _ => whole.mpr long⟩
  · obtain ⟨below, whole⟩ := truncSeconds_bounds low high
    exact ⟨(le_min low le_rfl).trans (min_le_truncSeconds d), below,
      fun some => .inr (whole.mp some), fun long => whole.mpr (long.resolve_left unset)⟩

/-- An accepted configuration makes usable sessions just when no timeout is shorter than one
second, as long as the clock does not run into the end of `int64`. -/
theorem begin_usable_iff (accepted : cfg.validate = .ok ())
    (provisioned : cfg.provision sum256 parseTime = .ok h)
    (durations : cfg.inactiveTimeout < 2 ^ 63 ∧ cfg.finalTimeout < 2 ^ 63) {now : Int}
    (clock : -2 ^ 63 ≤ now ∧ now < 2 ^ 63) :
    h.manager.Usable now ↔ (cfg.inactiveTimeout = 0 ∨ second ≤ cfg.inactiveTimeout) ∧
      (cfg.finalTimeout = 0 ∨ second ≤ cfg.finalTimeout) ∧
      now + Duration.truncSeconds h.manager.cfg.final < 2 ^ 63 := by
  obtain ⟨-, -, inactive, final⟩ := HandlerConfig.provision_ok provisioned
  obtain ⟨nonneg, nonneg'⟩ := HandlerConfig.validate_nonneg accepted
  have idle := truncSeconds_default nonneg durations.1 (show second ≤ 1800 * second by decide)
    (by decide)
  have life := truncSeconds_default nonneg' durations.2 (show second ≤ 28800 * second by decide)
    (by decide)
  rw [← inactive] at idle
  rw [← final] at life
  obtain ⟨-, idleBelow, idleWhole⟩ := idle
  obtain ⟨positive, lifeBelow, lifeWhole⟩ := life
  rw [← idleWhole, ← lifeWhole]
  have live := newSession_live_iff clock ⟨positive, lifeBelow⟩
  constructor
  · exact fun usable => (live []).mp (usable.live [])
  · rintro ⟨active, long, fits⟩
    have ttl := newSession_ttl clock.1 ⟨active, idleBelow⟩ ⟨long, lifeBelow⟩ fits
    refine ⟨fun sid => (live sid).mpr ⟨active, long, fits⟩, ttl, fun r db time result s run => ?_⟩
    apply (begin_lasting h.manager ttl _).run run
    intro e member
    cases member

def timedConfig (inactive : Duration) : HandlerConfig where
  redis := { address := lit "localhost:6379" }
  cookie := { name := lit "SID" }
  identityHeader := lit "X-Identity"
  inactiveTimeout := inactive
  onStoreError := failClosed

theorem one_second_usable : (timedConfig second).validate = .ok () ∧
    ∃ h, (timedConfig second).provision id (fun _ => none) = .ok h ∧ h.manager.Usable 1000 := by
  have accepted : (timedConfig second).validate = .ok () := rfl
  refine ⟨accepted, _, rfl, ?_⟩
  exact (begin_usable_iff accepted rfl (by decide) (by decide)).mpr (by decide)

def timedManager (inactive : Duration) : Manager where
  cfg :=
    { inactive
      final := 28800 * second
      synchronize := false
      rotateOnLogin := true
      rotateInterval := 0 }
  sum256 := id

def beginAlone (inactive : Duration) : Except Err Live × Server :=
  (timedManager inactive).begin.eval (attend ⟨lit "gs:"⟩ (fun _ => 1000) 0 0) {}

theorem beginAlone_run (inactive : Duration) :
    Prog.Run (serve ⟨lit "gs:"⟩ (fun _ reading => reading = 1000) 0) (timedManager inactive).begin {}
      (beginAlone inactive).1 (beginAlone inactive).2 := by
  apply Prog.Run.of_eval
  intro s c
  apply attend_serves
  · exact fun _ => rfl
  · exact le_rfl

/-- With half a second, the session has expired when it is stored, and its keys never expire. -/
theorem half_second_never_expires : (timedConfig 500000000).validate = .ok () ∧
    ∃ h, (timedConfig 500000000).provision id (fun _ => none) = .ok h ∧
      (∀ sid, Manager.expired (h.manager.newSession sid 1000) 1000 = true) ∧
      (∀ sid, Manager.ttl (h.manager.newSession sid 1000) 1000 = 0) ∧
      ∃ r result s, Prog.Run (serve r (fun _ reading => reading = 1000) 0) h.manager.begin {}
          result s ∧
        ∃ e ∈ s.log, ∃ c ∈ e.commands, ∃ k entry, c.target = some k ∧ e.after k = some entry ∧
          entry.expiry = none := by
  refine ⟨rfl, _, rfl, fun _ => rfl, fun _ => rfl, _, _, _, beginAlone_run 500000000, ?_⟩
  have left : ((beginAlone 500000000).2.log.any fun e => e.commands.any fun c =>
      (c.target.bind e.after).any fun entry => entry.expiry.isNone) = true := by
    decide +kernel
  obtain ⟨e, logged, found⟩ := List.any_eq_true.mp left
  obtain ⟨c, called, found⟩ := List.any_eq_true.mp found
  obtain ⟨entry, bound, unset⟩ := (Option.any_eq_true _ _).mp found
  obtain ⟨k, target, held⟩ := Option.bind_eq_some_iff.mp bound
  exact ⟨e, logged, c, called, k, entry, target, held, Option.isNone_iff_eq_none.mp unset⟩

end Session

end Gosestor
