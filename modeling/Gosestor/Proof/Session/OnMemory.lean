import Gosestor.Proof.Session.Alike
import Gosestor.Proof.Session.Deadlines
import Gosestor.Proof.Session.Runs

/-!
# Runs on Redis are runs on Memory

As long as no session expires and no lock is used, whatever jobs do on a Redis server they can do on
the Memory store: they make the same calls, are told the same, and come to the same results. What is
shown of all runs on the Memory store holds of these runs as well.
-/

namespace Gosestor

open Gosestor.Go Gosestor.Lib Gosestor.Lib.Redis Gosestor.Store
open Gosestor.Session (Manager)

/-! ## Runs in time -/

/-- At this time nothing in the keyspace has expired, for Redis or for a manager. -/
structure Store.InTime (r : Redis) (db : Keyspace GoString) (now : Int) : Prop where
  kept : db.asOf now = db
  rows : ∀ {id row}, Plain id → (db.fields (r.sessKey id)).get = row.look →
    Manager.expired row (seconds now) = false

/-- No call came after something had expired. -/
def Server.InTime (r : Redis) (s : Server) : Prop := ∀ e ∈ s.log, Store.InTime r e.before e.time

/-! ## Time plays no part -/

/-- The owners that an operation names are positive and fit into 64 bits. -/
def OwnersFit (job : Nat → Session.Job) : Prop :=
  ∀ t o, (job t).op.owner = some o → 0 < o ∧ o < 2 ^ 63

namespace Store.Kept

variable {k : Kept} {now life limit : Int}

theorem reparsed_row (measured : k.row.Measured life limit) (early : limit + life ≤ horizon)
    (owner : 0 ≤ k.row.ownerID ∧ k.row.ownerID < 2 ^ 63) : k.row.reparsed = k.row := by
  obtain ⟨creation, access, past, inactive, final, rotation⟩ := measured
  unfold horizon at early inactive
  have same : ∀ {n : Int}, 0 ≤ n → n < 2 ^ 63 → reparse n = n := by
    intro n low high
    unfold reparse
    rw [parseInt_formatInt (by omega) high]
    rfl
  unfold Session.reparsed
  rw [same creation (by omega), same (n := k.row.lastAccess) (by omega) (by omega),
    same (n := k.row.inactiveTimeout) (by omega) (by omega),
    same (n := k.row.finalTimeout) (by omega) (by omega), same owner.1 owner.2,
    same rotation.1 (by omega)]

end Store.Kept

theorem Store.Session.deadline_le_accessed (row : Store.Session) (lastAccess : Int) :
    row.deadline ≤ { row with lastAccess := max row.lastAccess lastAccess }.deadline := by
  unfold Session.deadline
  dsimp only
  omega

section Timeless

theorem tonumber_eq_zero {n : Int} (low : -2 ^ 53 < n) (high : n < 2 ^ 53) :
    tonumber (formatInt n) = some 0 ↔ n = 0 := by
  unfold tonumber
  rw [parseInt_formatInt (by omega) (by omega), Option.map_some, double_of_lt low high, Option.some.injEq]

theorem reread_lt_double {n m : Int} (low : -2 ^ 53 < n ∧ -2 ^ 53 < m) (high : n < 2 ^ 53 ∧ m < 2 ^ 53) :
    reread n < double m ↔ n < m := by
  rw [reread_of_small low.1 high.1, double_of_lt low.2 high.2]

variable {r : Redis} {t : Nat} {s s' : Server} {T : Table} {life : Int} {errand : Session.Errand}

theorem Dated.in_time (dated : Dated life s T) (tabled : Tabled r s T) (inTime : InTime r s.db s'.time)
    (later : s.time ≤ s'.time) (early : seconds s'.time + life ≤ horizon) {id : GoString} {k : Kept}
    (found : T.sessions id = some k) : millis s'.time < k.row.deadline := by
  have limit : seconds s.time ≤ seconds s'.time := Int.ediv_le_ediv (by decide) later
  obtain ⟨plain, -⟩ := tabled.rep.named found
  have look : (s.db.fields (r.sessKey id)).get = k.row.look := by
    rw [r.sessKey_name ⟨id, plain⟩, ← Keyspace.look_cells, tabled.rep.part, found]
    rfl
  have live := inTime.rows plain look
  have measured := dated.measured found
  have final := measured.final
  by_contra late
  have expired := (Session.expired_iff measured (by omega) limit (by unfold horizon at early; omega)).mpr
    (not_lt.mp late)
  rw [live] at expired
  cases expired

theorem Dated.asOf_eq (dated : Dated life s T) (tabled : Tabled r s T) (inTime : InTime r s.db s'.time)
    (later : s.time ≤ s'.time) (early : seconds s'.time + life ≤ horizon) : T.asOf s'.time = T := by
  have sessions : (T.asOf s'.time).sessions = T.sessions := by
    funext id
    cases found : T.sessions id with
    | none => simp [Table.asOf, found]
    | some k =>
        obtain ⟨e, lasts⟩ := dated.lasts found
        have late := lasts.late
        have inTime := dated.in_time tabled inTime later early found
        refine Table.asOf_eq_some.mpr ⟨found, ?_⟩
        rw [lasts.expiry]
        exact decide_eq_true (by omega)
  have owners : (T.asOf s'.time).owners = T.owners := by
    funext o
    change (T.owners o).asOf s'.time = T.owners o
    rw [← tabled.rep.owner, ← Keyspace.cells_asOf, inTime.kept]
  exact Table.mk.injEq .. ▸ ⟨sessions, owners⟩

theorem Dated.exact (dated : Dated life s T) (tabled : Tabled r s T) (inTime : InTime r s.db s'.time)
    (later : s.time ≤ s'.time) (early : seconds s'.time + life ≤ horizon) {id : GoString} {k : Kept}
    (found : T.sessions id = some k) {row : Session} {now : Int}
    (knows : Session.Knows (s.own t) id row now) {lastAccess : Int}
    (accessed : lastAccess = now ∨ lastAccess = 0) :
    0 < (Manager.ttl row now).milliseconds ∧ k.Exact s'.time lastAccess (Manager.ttl row now).milliseconds := by
  have limit : seconds s.time ≤ seconds s'.time := Int.ediv_le_ediv (by decide) later
  have measured := (dated.measured found).mono limit
  have due := dated.in_time tabled inTime later early found
  obtain ⟨read, same, shown⟩ := dated.known tabled knows found
  have read := read.mono limit
  have shown : 0 ≤ now ∧ now ≤ seconds s'.time := ⟨shown.1, shown.2.trans limit⟩
  have zero : (0 : Int) ≤ seconds s'.time := measured.creation.trans (measured.access.trans measured.past)
  have access : 0 ≤ lastAccess ∧ lastAccess ≤ seconds s'.time := by
    obtain rfl | rfl := accessed
    · exact shown
    · exact ⟨le_rfl, zero⟩
  have ends := Session.bound_ttl measured read same early access shown
  have longer := k.row.deadline_le_accessed lastAccess
  refine ⟨?_, by omega, k.moved_iff measured early access⟩
  rw [Session.ttl_eq read early shown]
  have idle := read.inactive
  rw [same.creation, same.final]
  have low : 1000 * now ≤ millis s'.time := by
    unfold millis
    unfold seconds at shown
    omega
  unfold Session.deadline at due
  omega

theorem Dated.timeless (dated : Dated life s T) (tabled : Tabled r s T) (inTime : InTime r s.db s'.time)
    (later : s.time ≤ s'.time) (early : seconds s'.time + life ≤ horizon)
    (owned : ∀ {id k}, T.sessions id = some k → 0 ≤ k.row.ownerID ∧ k.row.ownerID < 2 ^ 63)
    (unlocked : errand.manager.cfg.synchronize = false)
    (fit : ∀ o, errand.owner = some o → 0 < o ∧ o < 2 ^ 63) {sc : StoreCall}
    (lawful : Session.Lawful errand (s.own t) (.store sc)) : Timeless T s'.time sc := by
  have limit : seconds s.time ≤ seconds s'.time := Int.ediv_le_ediv (by decide) later
  have rotation : ∀ {id k}, T.sessions id = some k → 0 ≤ seconds s'.time ∧ seconds s'.time < 2 ^ 53 ∧
      -2 ^ 53 < k.row.lastRotation ∧ k.row.lastRotation < 2 ^ 53 := by
    intro id k found
    have measured := (dated.measured found).mono limit
    have rotated := measured.rotation
    have final := measured.final
    unfold horizon at early
    omega
  obtain ⟨-, lifetime⟩ := lawful
  refine ⟨fun found => ?_, fun found => ?_, ?_, ?_, ?_, ?_⟩
  · exact Kept.reparsed_row ((dated.measured found).mono limit) early (owned found)
  · obtain ⟨e, lasts⟩ := dated.lasts found
    have late := lasts.late
    have due := dated.in_time tabled inTime later early found
    rw [lasts.expiry]
    exact decide_eq_false (by omega)
  · rintro id keyID lastAccess legacyRotation ttl k rfl found
    obtain ⟨row, knows, -, rfl⟩ := lifetime
    obtain ⟨-, -, low, high⟩ := rotation found
    exact ⟨(dated.exact tabled inTime later early found knows (.inl rfl)).2, tonumber_eq_zero low high⟩
  · intro id ctl k asks found
    obtain ⟨zero, small, low, high⟩ := rotation found
    have turned : ∀ {row now n}, Session.Knows (s.own t) id row now → n = now ∨ n = 0 →
        (reread k.row.lastRotation < double n ↔ k.row.lastRotation < n) := by
      intro row now n knows given
      have shown := (dated.known tabled knows found).2.2
      obtain rfl | rfl := given
      · exact reread_lt_double ⟨low, by omega⟩ ⟨high, by omega⟩
      · exact reread_lt_double ⟨low, by omega⟩ ⟨high, by omega⟩
    cases sc with
    | applySessionControls id₁ ctl₁ ttl ownerTTL =>
        cases asks
        obtain ⟨row, now, knows, accessed, rotated, -, rfl, -⟩ := lifetime
        obtain ⟨positive, exact⟩ := dated.exact tabled inTime later early found knows accessed
        exact ⟨positive, exact, turned knows rotated⟩
    | rotateSessionKey id₁ oldKeyID newKeyID lastRotation ttl =>
        cases asks
        obtain ⟨row, knows, rfl⟩ := lifetime
        obtain ⟨positive, exact⟩ := dated.exact tabled inTime later early found knows (.inr rfl)
        exact ⟨positive, exact, turned knows (.inl rfl)⟩
    | _ => cases asks
  · rintro o id rfl
    exact (fit o lifetime).1.ne'
  · intro id ttl
    constructor
    · rintro rfl
      exact absurd lifetime (by simp [unlocked, Session.Lifetime])
    · rintro rfl
      exact absurd lifetime (by simp [unlocked, Session.Lifetime])

end Timeless

/-! ## Owners -/

def Store.Table.OwnersFit (T : Table) : Prop :=
  ∀ {id k}, T.sessions id = some k → 0 ≤ k.row.ownerID ∧ k.row.ownerID < 2 ^ 63

theorem Store.Table.OwnersFit.moves {r : Redis} {now : Int} {T T' : Table} {c : Call} {a : c.Answer}
    {errand : Session.Errand} {past : History} (fit : T.OwnersFit)
    (given : ∀ o, errand.owner = some o → 0 < o ∧ o < 2 ^ 63) (lawful : Session.Lawful errand past c)
    (moves : Moves r now T c a T') : T'.OwnersFit := by
  intro id k' found
  obtain earlier | ⟨sc, rfl, ⟨session, ttl, rfl, rfl, rfl⟩ | ⟨k, held, changes⟩⟩ := moves.kept found
  · exact fit earlier
  · obtain ⟨-, clock, -, row, -⟩ := lawful
    rw [row]
    change (0 : Int) ≤ 0 ∧ (0 : Int) < 2 ^ 63
    decide
  have before := fit (Table.asOf_eq_some.mp held).1
  cases changes with
  | touched keyed left =>
      unfold Kept.touched Kept.dated Kept.accessed
      split_ifs <;> exact before
  | @controlled call ctl asks keyed free positive left =>
      have asked : ctl.setOwner = true → errand.owner = some ctl.ownerID := by
        cases sc with
        | applySessionControls id₁ ctl₁ ttl ownerTTL =>
            cases asks
            obtain ⟨-, row, clock, -, -, -, asked, -⟩ := lawful
            exact asked
        | rotateSessionKey id₁ oldKeyID newKeyID lastRotation ttl =>
            cases asks
            exact fun set => by cases set
        | _ => cases asks
      simp only [Kept.controlled]
      split_ifs with moved
      · exact (given _ (asked moved.1)).imp_left le_of_lt
      · exact before
  | keyed alive => exact before

/-! ## One call on both stores -/

inductive Deed.Alike : Deed → Deed → Prop
  | told {c : Call} {a a' : c.Answer} (alike : c.Alike a a') : Alike ⟨c, a⟩ ⟨c, a'⟩

/-- The same programs made the same calls in the same order, and were told the same. -/
def LogsAlike (s : Server) (w : World) : Prop :=
  List.Forall₂ (fun e e' => e.tid = e'.tid ∧ e.deed.Alike e'.deed) s.log w.log

theorem LogsAlike.minted {s : Server} {w : World} (logs : LogsAlike s w) : s.minted = w.minted := by
  unfold LogsAlike at logs
  unfold Server.minted World.minted
  generalize s.log = log at logs ⊢
  generalize w.log = log' at logs ⊢
  induction logs with
  | nil => rfl
  | @cons e e' log log' both rest ih =>
      obtain ⟨-, alike⟩ := both
      have same : e.deed.minted = e'.deed.minted := by
        generalize e.deed = d at alike ⊢
        generalize e'.deed = d' at alike ⊢
        cases alike with
        | @told c a a' alike =>
            cases c with
            | randomRead =>
                obtain rfl : a = a' := alike
                rfl
            | _ => rfl
      rw [List.filterMap_cons, List.filterMap_cons, same, ih]

theorem reorder_alike {sc : StoreCall} {answer answer' a : sc.Answer} {order : List GoString}
    (alike : AnswersAlike sc answer answer') (heard : reorder order sc answer = some a) :
    ∃ order' a', reorder order' sc answer' = some a' ∧ Call.Alike (.store sc) a a' := by
  -- The answers come in an order that the other store can give as well.
  cases sc with
  | ownerSessions o =>
      cases answer with
      | error e =>
          obtain rfl := Option.some.inj heard
          obtain rfl : .error e = answer' := by cases answer' <;> exact alike
          exact ⟨[], _, rfl, rfl⟩
      | ok ids =>
          cases answer' with
          | error e => cases alike
          | ok ids' =>
              simp only [reorder] at heard
              split_ifs at heard with permuted
              cases heard
              have permuted : order.isPerm ids' :=
                List.isPerm_iff.mpr ((List.isPerm_iff.mp permuted).trans alike)
              exact ⟨order, .ok order, if_pos permuted, rfl⟩
  | _ =>
      obtain rfl := Option.some.inj heard
      exact ⟨[], answer', rfl, alike⟩

theorem Store.Mirrors.answers {r : Redis} {now : Int} {T T' : Table} {m : Memory} {sc : StoreCall}
    {a : sc.Answer} (mirrors : Mirrors T m) (moves : Moves r now T (.store sc) a T') (still : T.asOf now = T)
    (admits : T.Admits sc) (timeless : Timeless T now sc) :
    ∃ o a' m', respondStore anyFaults m sc o = some (a', m') ∧ Call.Alike (.store sc) a a' ∧
      Mirrors T' m' := by
  cases moves with
  | outside other => exact absurd rfl (other sc)
  | apart none =>
      cases sc with
      | lock id ttl => exact absurd rfl (timeless.unlocked id ttl).1
      | unlock id => exact absurd rfl (timeless.unlocked id 0).2
      | _ => cases none
  | unreached => exact ⟨{ fault := .clean }, _, m, rfl, Call.Alike.refl _ _, mirrors⟩
  | ran does heard =>
      rw [still] at does
      obtain ⟨after, alike⟩ := mirrors.does does admits timeless
      obtain rfl | ⟨order, heard⟩ := heard
      · exact ⟨{ fault := .lost }, _, _, rfl, Call.Alike.refl _ _, after⟩
      · obtain ⟨order, a', answered, alike⟩ := reorder_alike alike heard
        exact ⟨{ order }, a', _, by simp [respondStore, anyFaults, answered], alike, after⟩

theorem Store.Mirrors.acts {r : Redis} {t : Nat} {s s' : Server} {w : World} {T T' : Table} {c : Call}
    {a : c.Answer} (mirrors : Mirrors T w.mem) (logs : LogsAlike s w) (sessional : Sessional c)
    (step : attended r sameClock t s c a s') (moves : Moves r s'.time T c a T')
    (still : T.asOf s'.time = T) (admits : ∀ sc, c = .store sc → T.Admits sc)
    (timeless : ∀ sc, c = .store sc → Timeless T s'.time sc) :
    ∃ a' w', exec anyFaults t w c a' w' ∧ c.Alike a a' ∧ LogsAlike s' w' ∧ Mirrors T' w'.mem := by
  obtain ⟨⟨-, commands, answered, log⟩, -, outside⟩ := step
  have recorded : ∀ {a' w₁}, c.Alike a a' → LogsAlike s' (record t w c a' w₁) := by
    intro a' w₁ alike
    unfold LogsAlike
    rw [log]
    exact .cons ⟨rfl, .told alike⟩ logs
  cases c with
  | store sc =>
      obtain ⟨o, a', m', responded, alike, after⟩ :=
        mirrors.answers moves still (admits sc rfl) (timeless sc rfl)
      refine ⟨a', _, ⟨o, { w with mem := m' }, ?_, rfl⟩, alike, recorded alike, after⟩
      simp [respond, responded]
  | now | wallClock =>
      cases moves
      exact ⟨a, _, ⟨{ clock := a }, w, if_pos outside, rfl⟩, rfl, recorded rfl, mirrors⟩
  | randomRead =>
      cases moves
      refine ⟨a, _, ⟨{ random := a }, w, ?_, rfl⟩, rfl, recorded rfl, mirrors⟩
      cases a with
      | none => rfl
      | some buf =>
          have fresh := answered.1
          rw [logs.minted] at fresh
          exact if_pos fresh
  | _ => cases sessional

/-! ## Whole runs -/

/-- A run on Redis that a run on Memory follows. -/
structure Followed (job : Nat → Session.Job) (life : Int) (site : Site) (T : Table) : Prop where
  dated : Dated life site.state T
  fit : T.OwnersFit
  followed : ∃ machine, (Session.jobs job).Reaches Session.idle machine ∧
    Config.Sim CallsAlike Session.Outcome.Alike LogsAlike site machine ∧ Mirrors T machine.state.mem

section Runs

variable {r : Redis} {job : Nat → Session.Job} {life : Int}

theorem mirrors_empty : Mirrors {} newMemory where
  session := fun _ => rfl
  key := fun {keyID id} => by
    constructor
    · intro held
      cases held
    · rintro ⟨k, found, -⟩
      cases found
  cookies := fun _ => rfl
  shas := fun _ => rfl
  owner := fun {o id} => by
    constructor
    · intro member
      cases member
    · intro member
      cases member

theorem followed_initial (job : Nat → Session.Job) (life : Int) : Followed job life Site.idle {} where
  dated := dated_initial life
  fit := fun found => by cases found
  followed := ⟨Session.idle, .refl, .initial .nil, mirrors_empty⟩

theorem Followed.start {site : Site} {T : Table} (followed : Followed job life site T) (t : Nat)
    (idle : site.thread t = none) :
    Followed job life { site with thread := Function.update site.thread t (some (job t).prog) } T := by
  obtain ⟨dated, fit, machine, reaches, sim, mirrors⟩ := followed
  refine ⟨dated, fit, _, reaches.tail (.start t (sim.idle idle) trivial), ?_, mirrors⟩
  exact sim.update sim.state t (Session.op_alike (job t).manager (job t).op)

theorem Followed.act (timed : ∀ t, (job t).manager.Timed life) (owners : OwnersFit job)
    (unlocked : ∀ t, (job t).manager.cfg.synchronize = false) {site : Site} {T T' : Table} {t : Nat} {c : Call}
    {next : c.Answer → Act Session.Outcome} {a : c.Answer} {s' : Server} (tabled : Tabled r site.state T)
    (followed : Followed job life site T) (running : site.thread t = some (.call c next))
    (may : (job t).May (site.state.own t) c) (step : attended r sameClock t site.state c a s')
    (moves : Moves r s'.time T c a T') (inTime : Store.InTime r site.state.db s'.time)
    (early : seconds s'.time + life ≤ horizon) :
    Followed job life ⟨s', Function.update site.thread t (some (next a))⟩ T' := by
  obtain ⟨dated, fit, machine, reaches, sim, mirrors⟩ := followed
  obtain ⟨q, running', alike⟩ := sim.running running
  have still := dated.asOf_eq tabled inTime step.1.1 early
  have admits : ∀ sc, c = .store sc → T.Admits sc := by
    rintro sc rfl
    rw [← still]
    exact tabled.admits may.orderly.2 _
  have timeless : ∀ sc, c = .store sc → Timeless T s'.time sc := by
    rintro sc rfl
    exact dated.timeless tabled inTime step.1.1 early fit (unlocked t) (owners t) may.lawful
  obtain ⟨a', w', taken, answers, logs, mirrors'⟩ :=
    mirrors.acts sim.state may.orderly.1 step moves still admits timeless
  cases alike with
  | call paired rest =>
      cases paired
      exact ⟨dated.step tabled (timed t) may.orderly.2 may.lawful step moves early,
        fit.moves (owners t) may.lawful moves, _, reaches.tail (.act t running' taken),
        sim.update logs t (rest a a' answers), mirrors'⟩

theorem followed_reaches (plain : PlainHandles job) (timed : ∀ t, (job t).manager.Timed life)
    (owners : OwnersFit job) (unlocked : ∀ t, (job t).manager.cfg.synchronize = false) {site : Site}
    (run : (serverJobs r sameClock job).Reaches Site.idle site)
    (early : seconds site.state.time + life ≤ horizon) (inTime : site.state.InTime r) :
    ∃ T, Tabled r site.state T ∧ Followed job life site T := by
  obtain ⟨T, tabled, followed⟩ := tabled_induction
    (Q := fun site T => seconds site.state.time + life ≤ horizon → site.state.InTime r →
      Followed job life site T) plain (fun _ _ => followed_initial job life)
    (fun t followed idle early inTime => (followed early inTime).start t idle)
    (fun {site T t c next a s' T'} tabled followed running may step moves early inTime => by
      obtain ⟨⟨later, commands, -, log⟩, -⟩ := id step
      have limit : seconds site.state.time ≤ seconds s'.time := Int.ediv_le_ediv (by decide) later
      unfold Server.InTime at inTime
      rw [log] at inTime
      have before : seconds site.state.time + life ≤ horizon := (add_le_add_left limit life).trans early
      exact (followed before fun e logged => inTime e (List.mem_cons_of_mem _ logged)).act timed owners
        unlocked tabled running may step moves (inTime _ List.mem_cons_self) early) run
  exact ⟨T, tabled, followed early inTime⟩

end Runs

namespace Store

/-- The keyspace of the one store holds what the maps of the other do. -/
structure SameContent (r : Redis) (db : Keyspace GoString) (m : Memory) : Prop where
  row : ∀ {id}, Plain id →
    (db.fields (r.sessKey id)).get = (m.sessions.get id).elim (fun _ => none) Session.look
  key : ∀ keyID, db.text (r.keyKey keyID) = m.keys.get keyID
  cookies : ∀ {id}, Plain id → (db.fields (r.attrKey id)).get = (m.getCookies id).get
  shas : ∀ {id}, Plain id → (db.fields (r.shaKey id)).get = (m.cookieSHAs id).get
  owner : ∀ {o id}, id ∈ (db.members (r.ownerKey o)).keys ↔ id ∈ m.ownerSessions o

theorem Mirrors.sameContent {r : Redis} {db : Keyspace GoString} {T : Table} {m : Memory}
    (mirrors : Mirrors T m) (rep : Represents (db.cells r.name) T) : SameContent r db m where
  row := by
    intro id plain
    rw [r.sessKey_name ⟨id, plain⟩, ← Keyspace.look_cells, rep.part, mirrors.session]
    cases T.sessions id <;> rfl
  key := by
    intro keyID
    ext id
    rw [mirrors.key, ← rep.text_key, Keyspace.text_cells]
    rfl
  cookies := by
    intro id plain
    rw [r.attrKey_name ⟨id, plain⟩, ← Keyspace.look_cells, rep.part, mirrors.cookies]
    cases T.sessions id with
    | none => rfl
    | some k => exact Cell.look_ofLook ..
  shas := by
    intro id plain
    rw [r.shaKey_name ⟨id, plain⟩, ← Keyspace.look_cells, rep.part, mirrors.shas]
    cases T.sessions id with
    | none => rfl
    | some k => exact Cell.look_ofLook ..
  owner := by
    intro o id
    rw [r.ownerKey_name, ← Keyspace.mem_members_cells, rep.owner, ← mirrors.owner]
    unfold InIndex Memory.ownerSessions
    rw [GoMap.mem_keys]
    cases ((m.owners.get o).getD ∅).get id <;> simp

end Store

/-- As long as nothing expires and nothing is locked, jobs can do on the Memory store whatever they did
on Redis. They make the same calls in the same order, are told the same, come to the same results, and
leave the same. -/
theorem redis_run_is_a_memory_run {r : Redis} {job : Nat → Session.Job} {life : Int} (plain : PlainHandles job)
    (timed : ∀ t, (job t).manager.Timed life) (owners : OwnersFit job)
    (unlocked : ∀ t, (job t).manager.cfg.synchronize = false) {site : Site}
    (run : (serverJobs r sameClock job).Reaches Site.idle site)
    (early : seconds site.state.time + life ≤ horizon) (inTime : site.state.InTime r) :
    ∃ machine, (Session.jobs job).Reaches Session.idle machine ∧ LogsAlike site.state machine.state ∧
      (∀ t o, site.thread t = some (.ret o) → ∃ o', o.Alike o' ∧ machine.thread t = some (.ret o')) ∧
      SameContent r site.state.db machine.state.mem := by
  obtain ⟨T, tabled, -, -, machine, reaches, sim, mirrors⟩ :=
    followed_reaches plain timed owners unlocked run early inTime
  exact ⟨machine, reaches, sim.state, fun t o => sim.returned, mirrors.sameContent tabled.rep⟩

/-! ## A quick run -/

def Server.written (s : Server) : List GoString :=
  s.log.flatMap fun e => e.commands.filterMap Cmd.target

theorem Server.mem_written {s : Server} {k : GoString} :
    k ∈ s.written ↔ ∃ e ∈ s.log, ∃ c ∈ e.commands, c.target = some k := by
  simp [Server.written, List.mem_flatMap, List.mem_filterMap]

theorem attended_held {r : Redis} {reads : Int → Int → Prop} {t : Nat} {s s' : Server} {c : Call} {a : c.Answer}
    (step : attended r reads t s c a s') (held : ∀ {k}, s.db k ≠ none → k ∈ s.written) {k : GoString}
    (held' : s'.db k ≠ none) : k ∈ s'.written := by
  obtain ⟨⟨-, commands, answered, log⟩, -⟩ := id step
  rw [Server.mem_written, log]
  by_cases written : ∃ c ∈ commands, c.target = some k
  · exact ⟨_, List.mem_cons_self, written⟩
  have before : s.db k ≠ none := by
    by_cases other : ∀ sc, c ≠ .store sc
    · rwa [← attended_still step other]
    push Not at other
    obtain ⟨sc, rfl⟩ := other
    change Performed r s'.time s.db sc a commands s'.db at answered
    generalize s'.db = db at answered held'
    cases answered with
    | unreached | apart none => exact held'
    | ran request answered =>
        intro gone
        refine held' ((run_of_target fun c wrote hits => written ⟨c, wrote, hits⟩).trans ?_)
        simp [Keyspace.asOf, gone]
  obtain ⟨e, logged, wrote⟩ := Server.mem_written.mp (held before)
  exact ⟨e, List.mem_cons_of_mem _ logged, wrote⟩

theorem Session.expired_of_look {row row' : Store.Session} (same : row.look = row'.look) (now : Int) :
    Manager.expired row now = Manager.expired row' now := by
  have creation := formatInt_injective (Option.some.inj (congrFun same (lit "creation")))
  have access := formatInt_injective (Option.some.inj (congrFun same (lit "last_access")))
  have inactive := formatInt_injective (Option.some.inj (congrFun same (lit "inactive_timeout")))
  have final := formatInt_injective (Option.some.inj (congrFun same (lit "final_timeout")))
  unfold Manager.expired
  rw [creation, access, inactive, final]

theorem Dated.rows_in_time {r : Redis} {s : Server} {T : Table} {life now : Int} (dated : Dated life s T)
    (tabled : Tabled r s T) (later : s.time ≤ now) (small : now < 1000000) (short : life < horizon)
    {id : GoString} {row : Store.Session} (plain : Plain id)
    (look : (s.db.fields (r.sessKey id)).get = row.look) : Manager.expired row (seconds now) = false := by
  -- In the first second no session expires.
  rw [r.sessKey_name ⟨id, plain⟩, ← Keyspace.look_cells, tabled.rep.part] at look
  cases found : T.sessions id with
  | none =>
      rw [found] at look
      cases congrFun look (lit "creation")
  | some k =>
      rw [found] at look
      rw [← Session.expired_of_look look]
      have measured := dated.measured found
      have limit : seconds s.time ≤ seconds now := Int.ediv_le_ediv (by decide) later
      have first : seconds now ≤ 0 := by
        unfold seconds
        omega
      rw [Bool.eq_false_iff]
      intro expired
      have late := (Session.expired_iff measured (by omega) limit (by omega)).mp expired
      obtain ⟨creation, created, past, inactive, final⟩ := measured
      unfold Session.deadline millis at late
      omega

structure Quick (r : Redis) (life : Int) (s : Server) (T : Table) : Prop where
  dated : Dated life s T
  held : ∀ {k}, s.db k ≠ none → k ∈ s.written
  logged : ∀ e ∈ s.log, (∀ {k}, e.before k ≠ none → k ∈ s.written) ∧
    ∀ {id row}, Plain id → (e.before.fields (r.sessKey id)).get = row.look →
      Manager.expired row (seconds e.time) = false

theorem Quick.step {r : Redis} {life : Int} {t : Nat} {s s' : Server} {T T' : Table} {c : Call} {a : c.Answer}
    {errand : Session.Errand} (quick : Quick r life s T) (tabled : Tabled r s T)
    (timed : errand.manager.Timed life) (proper : Proper (s.own t) c)
    (lawful : Session.Lawful errand (s.own t) c) (step : attended r sameClock t s c a s')
    (moves : Moves r s'.time T c a T') (short : life < horizon) (small : s'.time < 1000000) :
    Quick r life s' T' := by
  obtain ⟨⟨later, commands, -, log⟩, -⟩ := id step
  have first : seconds s'.time ≤ 0 := by
    unfold seconds
    omega
  have mono : ∀ {k}, k ∈ s.written → k ∈ s'.written := by
    intro k wrote
    obtain ⟨e, logged, wrote⟩ := Server.mem_written.mp wrote
    exact Server.mem_written.mpr ⟨e, log ▸ List.mem_cons_of_mem _ logged, wrote⟩
  refine ⟨quick.dated.step tabled timed proper lawful step moves (by omega),
    attended_held step quick.held, ?_⟩
  rw [log]
  refine List.forall_mem_cons.mpr ⟨⟨fun there => mono (quick.held there), fun plain look => ?_⟩, ?_⟩
  · exact quick.dated.rows_in_time tabled later small short plain look
  · intro e earlier
    obtain ⟨wrote, rows⟩ := quick.logged e earlier
    exact ⟨fun there => mono (wrote there), rows⟩

theorem quick_in_time {r : Redis} {job : Nat → Session.Job} {life : Int} (plain : PlainHandles job)
    (timed : ∀ t, (job t).manager.Timed life) (short : life < horizon) {site : Site}
    (run : (serverJobs r sameClock job).Reaches Site.idle site) (quick : site.state.time < 1000000)
    (fresh : ∀ e ∈ site.state.log, ∀ k ∈ site.state.written, (e.before.expiry k).all (millis e.time ≤ ·)) :
    site.state.InTime r := by
  obtain ⟨T, -, invariant⟩ := tabled_reaches (P := fun s T => s.time < 1000000 → Quick r life s T) plain
    (fun _ => ⟨dated_initial life, fun held => absurd rfl held, fun e logged => by cases logged⟩)
    (fun {t s T c a s' T'} tabled before may step moves small =>
      (before (step.1.1.trans_lt small)).step tabled (timed t) may.orderly.2 may.lawful step moves short small)
    run
  obtain ⟨-, -, logged⟩ := invariant quick
  intro e there
  obtain ⟨wrote, rows⟩ := logged e there
  refine ⟨funext fun k => ?_, rows⟩
  cases held : e.before k with
  | none => simp [Keyspace.asOf, held]
  | some entry =>
      have alive := fresh e there k (wrote (by simp [held]))
      simp only [Keyspace.expiry, held, Option.bind_some] at alive
      simp [Keyspace.asOf, held, Option.filter, alive]

def quickTurns : List Turn :=
  [.start 0] ++ List.replicate 5 (.act 0 1000) ++ [.start 1] ++ List.replicate 6 (.act 1 1000)

theorem quick_run_is_a_memory_run : ∃ site,
    (serverJobs sampleRedis sameClock beginResolve).Reaches Site.idle site ∧
    (site.state.db.text (sampleRedis.keyKey (drawn 2)) = some (drawn 1) ∧
      seconds site.state.time + 28800 ≤ horizon) ∧
    site.state.InTime sampleRedis ∧
    ∃ machine, (Session.jobs beginResolve).Reaches Session.idle machine ∧ LogsAlike site.state machine.state ∧
      (∀ t o, site.thread t = some (.ret o) → ∃ o', o.Alike o' ∧ machine.thread t = some (.ret o')) ∧
      SameContent sampleRedis site.state.db machine.state.mem := by
  have taken : (Site.idle.turns sampleRedis beginResolve quickTurns).any fun site =>
      decide ((site.state.db.text (sampleRedis.keyKey (drawn 2)) = some (drawn 1) ∧
        seconds site.state.time + 28800 ≤ horizon) ∧ site.state.time < 1000000 ∧
        ∀ e ∈ site.state.log, ∀ k ∈ site.state.written, (e.before.expiry k).all (millis e.time ≤ ·)) := by
    decide +kernel
  obtain ⟨site, reached, checked⟩ := (Option.any_eq_true _ _).mp taken
  obtain ⟨⟨held, early⟩, quick, fresh⟩ := of_decide_eq_true checked
  have run := turns_reaches reached
  have inTime := quick_in_time beginResolve_plain (fun _ => timedManager_timed) (by decide) run quick fresh
  have owners : OwnersFit beginResolve := by
    intro t o named
    unfold beginResolve at named
    split_ifs at named <;> cases named
  exact ⟨site, run, ⟨held, early⟩, inTime, redis_run_is_a_memory_run beginResolve_plain
    (fun _ => timedManager_timed) owners (fun _ => rfl) run early inTime⟩

end Gosestor
