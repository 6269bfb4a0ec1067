import Gosestor.Proof.Session.Deadlines

/-!
# Owner sets outlive their sessions

The scripts put an expiration on the set of an owner whenever a session joins it, with the final
timeout of that session. Where all managers of a store have the same final timeout, a session that
is still there is in the set of its owner, so that a logout of the owner reaches it.
-/

namespace Gosestor

open Gosestor.Go Gosestor.Lib Gosestor.Lib.Redis Gosestor.Store
open Gosestor.Session (Manager millis_mono)

namespace Store

theorem ownerTTL_milliseconds {life : Int} (positive : 0 ≤ life) (bounded : life ≤ horizon) :
    Duration.milliseconds (int64 (life * second)) = 1000 * life := by
  unfold horizon at bounded
  rw [int64_of_range (by unfold second; omega) (by unfold second; omega), Session.milliseconds_seconds]

structure Kept.Within (k : Kept) (x : Int) : Prop where
  final : 1000 * (k.row.creation + k.row.finalTimeout) ≤ x
  expiry : ∃ e, k.expiry = some e ∧ e ≤ x

namespace Table

variable {T T' : Table} {now : Int} {c : StoreCall} {a : c.Answer} {id : GoString} {k k' : Kept} {o : Int}

structure Indexes (T : Table) (o : Int) (id : GoString) (k : Kept) : Prop where
  member : id ∈ (T.owners o).members
  lasts : ∃ x, (T.owners o).expiry = some x ∧ k.Within x

def Reaching (T : Table) : Prop :=
  ∀ id k, T.sessions id = some k → k.row.ownerID ≠ 0 → T.Indexes k.row.ownerID id k

theorem Reaching.asOf (reaching : T.Reaching) (now : Int) : (T.asOf now).Reaching := by
  intro id k found owned
  obtain ⟨found, alive⟩ := asOf_eq_some.mp found
  obtain ⟨member, x, expires, within⟩ := reaching _ _ found owned
  obtain ⟨e, expiry, sooner⟩ := within.expiry
  have later : millis now ≤ x := by
    rw [expiry] at alive
    exact (of_decide_eq_true alive).trans sooner
  have same : (T.asOf now).owners k.row.ownerID = T.owners k.row.ownerID := Cell.asOf_eq_self expires later
  exact ⟨same ▸ member, x, same ▸ expires, within⟩

theorem expiry_unindex {o' : Int} {id' : GoString} (member : id' ∈ (T.unindex o id o').members) :
    (T.unindex o id o').expiry = (T.owners o').expiry := by
  by_cases same : o' = o
  · subst same
    simp only [unindex, Function.update_self, Cell.members_ofMembers] at member ⊢
    unfold Cell.ofMembers
    rw [if_neg (Set.nonempty_iff_ne_empty.mp ⟨id', member⟩)]
    rfl
  · rw [unindex_of_ne same]

theorem Indexes.unindex {T : Table} {id' : GoString} {o' : Int} (indexes : T.Indexes o id k)
    (other : ¬ (o = o' ∧ id = id')) (sessions : GoString → Option Kept) :
    Indexes ⟨sessions, T.unindex o' id'⟩ o id k := by
  have member : id ∈ (T.unindex o' id' o).members := mem_unindex.mpr ⟨indexes.member, other⟩
  obtain ⟨x, expires, within⟩ := indexes.lasts
  exact ⟨member, x, (expiry_unindex member).trans expires, within⟩

theorem Indexes.index {T : Table} {id' : GoString} {o' ownerTTL : Int} (positive : 0 < ownerTTL)
    (within : k.Within (millis now + ownerTTL)) (indexes : T.Indexes o id k ∨ o = o' ∧ id = id')
    : (T.index now o' id' ownerTTL).Indexes o id k := by
  refine ⟨mem_index.mpr (indexes.imp_left Indexes.member), ?_⟩
  by_cases same : o = o'
  · subst same
    refine ⟨_, ?_, within⟩
    simp [Table.index, Cell.expiry, positive]
  · obtain ⟨-, x, expires, within⟩ | ⟨equal, -⟩ := indexes
    · exact ⟨x, by simpa [Table.index, same] using expires, within⟩
    · exact absurd equal same

theorem Indexes.moveOwner {T : Table} {id' : GoString} {previous o' ownerTTL : Int} (positive : 0 < ownerTTL)
    (within : k.Within (millis now + ownerTTL)) (indexes : T.Indexes o id k ∨ o = o' ∧ id = id')
    (other : ¬ (o = previous ∧ id = id')) (sessions : GoString → Option Kept) :
    Indexes ⟨sessions, T.moveOwner now previous o' id' ownerTTL⟩ o id k := by
  have joined := Indexes.index positive within indexes
  unfold Table.moveOwner
  split_ifs
  · exact joined.unindex other sessions
  · exact ⟨joined.member, joined.lasts⟩

structure Prolongs (T : Table) (now : Int) (c : StoreCall) (T' : Table) : Prop where
  created : ∀ {s ttl}, c = .putSession s ttl → s.ownerID = 0
  changed : ∀ {id k k' x}, T.sessions id = some k → T.Changes now id k c k' → k.Within x → k'.Within x
  joined : ∀ {id ctl ttl ownerTTL k}, c = .applySessionControls id ctl ttl ownerTTL →
    T.sessions id = some k → 0 < ownerTTL.milliseconds ∧
      ∀ id k, T'.sessions id = some k → k.Within (millis now + ownerTTL.milliseconds)

theorem Reaching.does (reaching : T.Reaching) (does : T.Does now c a T') (prolongs : Prolongs T now c T') :
    T'.Reaching := by
  -- The owner sets are as before, and so is the owner of the one session that the call changes.
  have put : ∀ {id₁ k₁ k₂}, T.sessions id₁ = some k₁ → T.Changes now id₁ k₁ c k₂ →
      k₂.row.ownerID = k₁.row.ownerID → (T.put id₁ (some k₂)).Reaching := by
    intro id₁ k₁ k₂ held changes same id k found owned
    obtain ⟨rfl, new⟩ | ⟨-, earlier⟩ := put_eq_some found
    · cases new
      rw [same] at owned ⊢
      obtain ⟨member, x, expires, within⟩ := reaching _ _ held owned
      exact ⟨member, x, expires, prolongs.changed held changes within⟩
    · obtain ⟨member, lasts⟩ := reaching _ _ earlier owned
      exact ⟨member, lasts⟩
  have removed : ∀ {id₁ o₁}, Reaching ⟨(T.put id₁ none).sessions, T.unindex o₁ id₁⟩ := by
    intro id₁ o₁ id k found owned
    obtain ⟨-, gone⟩ | ⟨other, earlier⟩ := put_eq_some found
    · cases gone
    · exact (reaching _ _ earlier owned).unindex (fun both => other both.2) _
  have committed : ∀ {id₁ ctl ttl ownerTTL}, c.controls = some (id₁, ctl) → ttl = c.lifetime.milliseconds →
      (ctl.setOwner = true → ∀ {k}, T.sessions id₁ = some k → 0 < ownerTTL ∧
        ∀ id k, T'.sessions id = some k → k.Within (millis now + ownerTTL)) →
      T' = (T.applySessionControls now id₁ ctl ttl ownerTTL).2 → T'.Reaching := by
    rintro id₁ ctl _ ownerTTL asks rfl joined after
    obtain ⟨e, refused⟩ | ⟨k₁, held, keyed, free, positive, left, done⟩ :=
      T.applySessionControls_cases now id₁ ctl c.lifetime.milliseconds ownerTTL
    · rw [after, refused]
      exact reaching
    have changes : T.Changes now id₁ k₁ c _ := .controlled asks keyed free positive left
    rw [done] at after
    by_cases moved : ctl.setOwner = true ∧ k₁.row.ownerID ≠ ctl.ownerID
    · rw [if_pos moved] at after
      obtain ⟨positive, within⟩ := joined moved.1 held
      subst after
      intro id k found owned
      have within := within id k found
      obtain ⟨rfl, new⟩ | ⟨other, earlier⟩ := put_eq_some found
      · cases new
        have owner : (k₁.controlled now ctl
            (k₁.row.bound now ctl.lastAccess c.lifetime.milliseconds)).row.ownerID = ctl.ownerID := if_pos moved
        rw [owner]
        exact Indexes.moveOwner positive within (.inr ⟨rfl, rfl⟩) (fun both => moved.2 both.1.symm) _
      · exact Indexes.moveOwner positive within (.inl (reaching _ _ earlier owned))
          (fun both => other both.2) _
    · rw [if_neg moved] at after
      rw [after]
      exact put held changes (if_neg moved)
  cases c with
  | putSession s ttl =>
      obtain ⟨-, rfl⟩ := does
      intro id k found owned
      obtain ⟨rfl, new⟩ | ⟨-, earlier⟩ := put_eq_some found
      · cases new
        exact absurd (prolongs.created rfl) owned
      · obtain ⟨member, lasts⟩ := reaching _ _ earlier owned
        exact ⟨member, lasts⟩
  | touchSession id₁ keyID lastAccess legacyRotation ttl =>
      have after : T' = (T.touchSession now id₁ keyID lastAccess legacyRotation ttl.milliseconds).2 :=
        congrArg Prod.snd does
      obtain ⟨e, refused⟩ | ⟨k₁, held, keyed, left, done⟩ :=
        T.touchSession_cases now id₁ keyID lastAccess legacyRotation ttl.milliseconds
      · rw [after, refused]
        exact reaching
      · rw [after, done]
        refine put held (.touched keyed left) ?_
        unfold Kept.touched Kept.dated Kept.accessed
        split_ifs <;> rfl
  | applySessionControls id₁ ctl ttl ownerTTL =>
      exact committed rfl rfl (fun _ => prolongs.joined rfl) (congrArg Prod.snd does)
  | rotateSessionKey id₁ oldKeyID newKeyID lastRotation ttl =>
      exact committed rfl rfl (fun set => by cases set) (congrArg Prod.snd does)
  | deleteSession id₁ =>
      obtain ⟨-, rfl⟩ := does
      unfold deleteSession
      split_ifs
      · exact removed
      · intro id k found owned
        obtain ⟨-, gone⟩ | ⟨-, earlier⟩ := put_eq_some found
        · cases gone
        · obtain ⟨member, lasts⟩ := reaching _ _ earlier owned
          exact ⟨member, lasts⟩
  | putKey keyID id₁ ttl =>
      have after : T' = (T.putKey now keyID id₁).2 := congrArg Prod.snd does
      obtain ⟨e, refused⟩ | ⟨k₁, held, alive, done⟩ := T.putKey_cases now keyID id₁
      · rw [after, refused]
        exact reaching
      · rw [after, done]
        exact put held (.keyed alive) rfl
  | deleteSessionByOwner o₁ id₁ =>
      have after : T' = (T.deleteSessionByOwner o₁ id₁).2 := congrArg Prod.snd does
      rw [after, deleteSessionByOwner]
      split_ifs with owns
      · exact removed
      · intro id k found owned
        have earlier : T.sessions id = some k := found
        refine (reaching _ _ earlier owned).unindex ?_ _
        rintro ⟨owner, rfl⟩
        exact owns (by simp [ownerOf, earlier, owner])
  | getSession id₁ | getKey keyID | getCookies id₁ | cookieSHAs id₁ | ownerSessions o₁ =>
      obtain ⟨-, rfl⟩ := does
      exact reaching
  | lock id₁ ttl | unlock id₁ =>
      obtain rfl := does
      exact reaching

end Table

theorem Kept.Renewed.within {k k' : Kept} {life now x : Int} (renewed : k.Renewed k' life now)
    (within : k.Within x) : k'.Within x := by
  obtain ⟨creation, inactive, final⟩ := renewed.same
  have ends : 1000 * (k'.row.creation + k'.row.finalTimeout) ≤ x := by
    rw [← creation, ← final]
    exact within.final
  refine ⟨ends, ?_⟩
  obtain same | deadline := renewed.expiry
  · rw [same]
    exact within.expiry
  · refine ⟨_, deadline, le_trans ?_ ends⟩
    unfold Session.deadline
    omega

end Store

structure Shared (life : Int) (s : Server) (T : Table) : Prop where
  dated : Dated life s T
  final : ∀ {id k}, T.sessions id = some k → k.row.finalTimeout = life
  reaching : T.Reaching

section Step

variable {r : Redis} {t : Nat} {s s' : Server} {T T' : Table} {c : Call} {a : c.Answer} {life : Int}
  {errand : Session.Errand}

theorem Shared.final_step (shared : Shared life s T) (tabled : Tabled r s T)
    (same : Duration.truncSeconds errand.manager.cfg.final = life) (lawful : Session.Lawful errand (s.own t) c)
    (later : s.time ≤ s'.time) (early : seconds s'.time + life ≤ horizon)
    (moves : Moves r s'.time T c a T') {id : GoString} {k' : Kept} (found : T'.sessions id = some k') :
    k'.row.finalTimeout = life := by
  obtain earlier | ⟨sc, rfl, ⟨session, ttl, rfl, rfl, rfl⟩ | ⟨k, held, changes⟩⟩ := moves.kept found
  · exact shared.final earlier
  · obtain ⟨-, now, -, row, -⟩ := lawful
    exact (congrArg Session.finalTimeout row).trans same
  · have held := (Table.asOf_eq_some.mp held).1
    have renewed := shared.dated.renewed tabled later early lawful held changes
    exact renewed.same.final.symm.trans (shared.final held)

theorem Shared.step (shared : Shared life s T) (tabled : Tabled r s T) (timed : errand.manager.Timed life)
    (same : Duration.truncSeconds errand.manager.cfg.final = life) (proper : Proper (s.own t) c)
    (lawful : Session.Lawful errand (s.own t) c) (step : attended r sameClock t s c a s')
    (moves : Moves r s'.time T c a T') (early : seconds s'.time + life ≤ horizon) : Shared life s' T' := by
  have later : s.time ≤ s'.time := step.1.1
  have dated := shared.dated.step tabled timed proper lawful step moves early
  have final : ∀ {id k}, T'.sessions id = some k → k.row.finalTimeout = life :=
    shared.final_step tabled same lawful later early moves
  refine ⟨dated, final, ?_⟩
  cases moves with
  | outside other => exact shared.reaching
  | apart none => exact shared.reaching
  | unreached => exact shared.reaching
  | @ran sc _ answer _ does heard =>
      refine (shared.reaching.asOf s'.time).does does ⟨?_, ?_, ?_⟩
      · rintro session ttl rfl
        exact proper.2.1
      · intro id k k' x found changes within
        have found := (Table.asOf_eq_some.mp found).1
        exact (shared.dated.renewed tabled later early lawful found changes).within within
      · rintro id ctl ttl ownerTTL k rfl found
        have found := (Table.asOf_eq_some.mp found).1
        obtain ⟨-, row, now, knows, -, -, -, -, rfl⟩ := lawful
        obtain ⟨-, sameLife, -⟩ := shared.dated.known tabled knows found
        have read : row.finalTimeout = life := sameLife.final.trans (shared.final found)
        obtain ⟨creation, access, past, -, positive, -⟩ := shared.dated.measured found
        rw [shared.final found] at positive
        have limit : seconds s.time ≤ seconds s'.time := Int.ediv_le_ediv (by decide) later
        rw [read, ownerTTL_milliseconds (by omega) (by omega)]
        refine ⟨by omega, fun id' k' found' => ⟨?_, ?_⟩⟩
        · obtain ⟨creation, access, past, -, -⟩ := dated.measured found'
          rw [final found']
          unfold millis
          unfold seconds at past
          omega
        · obtain ⟨e, lasts⟩ := dated.lasts found'
          have soon := lasts.soon
          rw [final found'] at soon
          exact ⟨e, lasts.expiry, soon⟩

end Step

section Runs

variable {r : Redis} {job : Nat → Session.Job} {life : Int}

theorem shared_reaches (plain : PlainHandles job) (timed : ∀ t, (job t).manager.Timed life)
    (same : ∀ t, Duration.truncSeconds (job t).manager.cfg.final = life) {site : Site}
    (run : (serverJobs r sameClock job).Reaches Site.idle site)
    (early : seconds site.state.time + life ≤ horizon) :
    ∃ T, Tabled r site.state T ∧ Shared life site.state T := by
  have initial : Shared life {} {} :=
    { dated := dated_initial life
      final := fun found => by cases found
      reaching := fun id k found => by cases found }
  obtain ⟨T, tabled, shared⟩ := tabled_reaches
    (P := fun s T => seconds s.time + life ≤ horizon → Shared life s T) plain (fun _ => initial)
    (fun {t s T c a s' T'} tabled shared may step moves early => by
      have limit : seconds s.time ≤ seconds s'.time := Int.ediv_le_ediv (by decide) step.1.1
      exact (shared (by omega)).step tabled (timed t) (same t) may.orderly.2 may.lawful step moves early) run
  exact ⟨T, tabled, shared early⟩

/-- A row that Redis still holds is in the set of its owner, however late it is. -/
theorem live_session_is_in_its_owner_set (plain : PlainHandles job)
    (timed : ∀ t, (job t).manager.Timed life)
    (same : ∀ t, Duration.truncSeconds (job t).manager.cfg.final = life) {site : Site}
    (run : (serverJobs r sameClock job).Reaches Site.idle site)
    (early : seconds site.state.time + life ≤ horizon) (now : Int) {id : GoString} (plainID : Plain id)
    {o : Int} (owned : o ≠ 0)
    (stored : ((site.state.db.asOf now).fields (r.sessKey id)).get (lit "owner_id") = some (formatInt o)) :
    id ∈ ((site.state.db.asOf now).members (r.ownerKey o)).keys := by
  obtain ⟨T, tabled, shared⟩ := shared_reaches plain timed same run early
  have rep := tabled.rep.asOf_cells now
  rw [r.sessKey_name ⟨id, plainID⟩, ← Keyspace.look_cells, rep.part] at stored
  cases found : (T.asOf now).sessions id with
  | none =>
      rw [found] at stored
      cases stored
  | some k =>
      rw [found] at stored
      have field : k.row.look (lit "owner_id") = some (formatInt k.row.ownerID) := rfl
      have owner : k.row.ownerID = o := formatInt_injective (Option.some.inj (field.symm.trans stored))
      subst owner
      rw [r.ownerKey_name, ← Keyspace.mem_members_cells, rep.owner]
      exact (shared.reaching.asOf now id k found owned).member

end Runs

def drawnLive : Session.Live := { keyID := drawn 2, sessionID := drawn 1 }

def beginBind (t : Nat) : Session.Job :=
  ⟨Session.timedManager (1800 * second), if t = 0 then .begin else .bindOwner drawnLive 7⟩

def beginBindTurns : List Turn :=
  [.start 0] ++ List.replicate 5 (.act 0 100000) ++
    [.start 1, .act 1 1000000] ++ List.replicate 4 (.act 1 100000)

theorem beginBind_plain : PlainHandles beginBind := by
  intro t l handled
  unfold beginBind at handled
  split_ifs at handled
  · cases handled
  · cases handled
    exact encodeToString_colonless _

theorem bound_session_is_in_its_owner_set : ∃ site,
    (serverJobs sampleRedis sameClock beginBind).Reaches Site.idle site ∧
    drawn 1 ∈ ((site.state.db.asOf 1800000000).members (sampleRedis.ownerKey 7)).keys := by
  have taken : (Site.idle.turns sampleRedis beginBind beginBindTurns).any fun site =>
      decide (((site.state.db.asOf 1800000000).fields (sampleRedis.sessKey (drawn 1))).get (lit "owner_id") =
        some (formatInt 7) ∧ seconds site.state.time + 28800 ≤ horizon) := by
    decide +kernel
  obtain ⟨site, reached, checked⟩ := (Option.any_eq_true _ _).mp taken
  obtain ⟨stored, early⟩ := of_decide_eq_true checked
  have run := turns_reaches reached
  have final : Duration.truncSeconds (28800 * second) = 28800 := by decide
  exact ⟨site, run, live_session_is_in_its_owner_set beginBind_plain (fun _ => timedManager_timed)
    (fun _ => final) run early 1800000000 (encodeToString_colonless _) (by decide) stored⟩

def shortManager : Manager :=
  { Session.timedManager second with cfg := { (Session.timedManager second).cfg with final := 2 * second } }

def bindTwo (t : Nat) : Session.Job :=
  if t < 2 then beginBind t
  else ⟨shortManager, if t = 2 then .begin else .bindOwner { keyID := drawn 12, sessionID := drawn 11 } 7⟩

def bindTwoTurns : List Turn :=
  beginBindTurns ++ [.start 2] ++ List.replicate 5 (.act 2 100000) ++
    [.start 3] ++ List.replicate 5 (.act 3 100000)

/-- The short session shortens the life of the set, and the long one drops out of its owner's reach.
-/
theorem owner_set_expires_before_its_session : ∃ site,
    (serverJobs sampleRedis sameClock bindTwo).Reaches Site.idle site ∧
    ((site.state.db.asOf 10000000).fields (sampleRedis.sessKey (drawn 1))).get (lit "owner_id") =
      some (formatInt 7) ∧
    drawn 1 ∉ ((site.state.db.asOf 10000000).members (sampleRedis.ownerKey 7)).keys := by
  have taken : (Site.idle.turns sampleRedis bindTwo bindTwoTurns).any fun site =>
      decide (((site.state.db.asOf 10000000).fields (sampleRedis.sessKey (drawn 1))).get (lit "owner_id") =
          some (formatInt 7) ∧
        drawn 1 ∉ ((site.state.db.asOf 10000000).members (sampleRedis.ownerKey 7)).keys) := by
    decide +kernel
  obtain ⟨site, reached, checked⟩ := (Option.any_eq_true _ _).mp taken
  obtain ⟨stored, gone⟩ := of_decide_eq_true checked
  exact ⟨site, turns_reaches reached, stored, gone⟩

end Gosestor
