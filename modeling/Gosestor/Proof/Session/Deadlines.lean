import Gosestor.Proof.Session.OnRedis

/-!
# When a session expires

With one clock for the managers and the server, and timeouts of a second or more, a row stays in
Redis up to its deadline at least. Once the session was used in a later second than it began in, the
row stays exactly so long. The manager calls a session expired from its deadline on.
-/

namespace Gosestor

open Gosestor.Go Gosestor.Lib Gosestor.Lib.Redis Gosestor.Store
open Gosestor.Session (Manager millis_mono)

namespace Store

theorem reparse_of_small {n : Int} (low : -2 ^ 53 < n) (high : n < 2 ^ 53) : reparse n = n := by
  unfold reparse
  rw [parseInt_formatInt (by omega) (by omega)]
  rfl

theorem reread_of_small {n : Int} (low : -2 ^ 53 < n) (high : n < 2 ^ 53) : reread n = n := by
  unfold reread tonumber
  rw [parseInt_formatInt (by omega) (by omega)]
  exact double_of_lt low high

theorem double_millis {now : Int} (epoch : 0 ≤ now) (small : millis now < 2 ^ 52) :
    double (double (double (now / 1000000) * 1000) + now % 1000000 / 1000) = millis now := by
  -- The scripts compute the milliseconds of the time from its seconds and microseconds.
  unfold millis at *
  have whole : double (now / 1000000) = now / 1000000 := double_of_lt (by omega) (by omega)
  have scaled : double (now / 1000000 * 1000) = now / 1000000 * 1000 :=
    double_of_lt (by omega) (by omega)
  rw [whole, scaled, double_of_lt (by omega) (by omega)]
  omega

abbrev seconds (now : Int) : Int := now / 1000000

/-- The longest `time.Duration`, in whole seconds. -/
def horizon : Int := 9223372036

namespace Session

/-- The instant, in Unix milliseconds, from which on a session is expired. -/
def deadline (row : Session) : Int :=
  1000 * min (row.lastAccess + row.inactiveTimeout) (row.creation + row.finalTimeout)

structure Measured (row : Session) (life limit : Int) : Prop where
  creation : 0 ≤ row.creation
  access : row.creation ≤ row.lastAccess
  past : row.lastAccess ≤ limit
  inactive : 1 ≤ row.inactiveTimeout ∧ row.inactiveTimeout ≤ horizon
  final : 1 ≤ row.finalTimeout ∧ row.finalTimeout ≤ life
  rotation : 0 ≤ row.lastRotation ∧ row.lastRotation ≤ limit

structure SameLife (row row' : Session) : Prop where
  creation : row.creation = row'.creation
  inactive : row.inactiveTimeout = row'.inactiveTimeout
  final : row.finalTimeout = row'.finalTimeout

variable {row row' : Session} {now life limit limit' lastAccess ttl : Int}

theorem Measured.mono (measured : row.Measured life limit) (later : limit ≤ limit') :
    row.Measured life limit' :=
  { measured with
    past := measured.past.trans later
    rotation := ⟨measured.rotation.1, measured.rotation.2.trans later⟩ }

theorem Measured.reparsed (measured : row.Measured life limit) (early : limit + life ≤ horizon) :
    row.reparsed.Measured life limit ∧ row.reparsed.SameLife row := by
  obtain ⟨creation, access, past, inactive, final, rotation⟩ := measured
  unfold horizon at early inactive
  have same : ∀ {n : Int}, 0 ≤ n → n < 2 ^ 53 → reparse n = n :=
    fun low high => reparse_of_small (by omega) high
  have created : row.reparsed.creation = row.creation := same creation (by omega)
  have accessed : row.reparsed.lastAccess = row.lastAccess := same (by omega) (by omega)
  have idle : row.reparsed.inactiveTimeout = row.inactiveTimeout := same (by omega) (by omega)
  have life : row.reparsed.finalTimeout = row.finalTimeout := same (by omega) (by omega)
  have rotated : row.reparsed.lastRotation = row.lastRotation := same rotation.1 (by omega)
  refine ⟨⟨?_, ?_, ?_, ?_, ?_, ?_⟩, created, idle, life⟩
  all_goals simpa only [created, accessed, idle, life, rotated]

theorem bound_eq (measured : row.Measured life (seconds now)) (early : seconds now + life ≤ horizon)
    (access : 0 ≤ lastAccess ∧ lastAccess ≤ seconds now) (range : -2 ^ 53 < ttl ∧ ttl < 2 ^ 53) :
    row.bound now lastAccess ttl =
      min ttl ({ row with lastAccess := max row.lastAccess lastAccess }.deadline - millis now) := by
  obtain ⟨creation, created, past, inactive, final⟩ := measured
  unfold horizon at early inactive
  have clock : 0 ≤ now ∧ 1000 * seconds now ≤ millis now ∧ millis now < 1000 * seconds now + 1000 := by
    unfold millis seconds at *
    omega
  -- Every number of the computation is a double.
  have exact : ∀ {n : Int}, -2 ^ 53 < n → n < 2 ^ 53 → double n = n := double_of_lt
  unfold bound deadline
  simp only [double_millis clock.1 (by omega)]
  rw [reread_of_small (n := row.lastAccess) (by omega) (by omega),
    reread_of_small (n := row.inactiveTimeout) (by omega) (by omega),
    reread_of_small (n := row.creation) (by omega) (by omega),
    reread_of_small (n := row.finalTimeout) (by omega) (by omega),
    exact (n := lastAccess) (by omega) (by omega),
    exact (n := row.inactiveTimeout * 1000) (by omega) (by omega),
    exact (n := row.creation + row.finalTimeout) (by omega) (by omega),
    exact (n := (row.creation + row.finalTimeout) * 1000) (by omega) (by omega),
    exact (n := (row.creation + row.finalTimeout) * 1000 - millis now) (by omega) (by omega),
    exact (n := max row.lastAccess lastAccess * 1000) (by omega) (by omega),
    exact (n := max row.lastAccess lastAccess * 1000 + row.inactiveTimeout * 1000) (by omega) (by omega),
    exact (n := max row.lastAccess lastAccess * 1000 + row.inactiveTimeout * 1000 - millis now)
      (by omega) (by omega),
    exact range.1 range.2]
  split_ifs <;> omega

theorem milliseconds_seconds (n : Int) : Duration.milliseconds (n * second) = 1000 * n := by
  have scaled : n * second = 1000 * n * 1000000 := by
    unfold second
    omega
  unfold Duration.milliseconds
  rw [scaled]
  exact Int.mul_tdiv_cancel _ (by decide)

theorem ttl_eq (measured : row.Measured life limit) (early : limit + life ≤ horizon)
    (clock : 0 ≤ now ∧ now ≤ limit) :
    (Manager.ttl row now).milliseconds =
      1000 * min row.inactiveTimeout (row.creation + row.finalTimeout - now) := by
  -- No step of the computation overflows.
  obtain ⟨creation, created, past, inactive, final⟩ := measured
  unfold horizon at early inactive
  have exact : ∀ {n : Int}, -2 ^ 63 ≤ n → n < 2 ^ 63 → int64 n = n := int64_of_range
  have ttl : Manager.ttl row now =
      min row.inactiveTimeout (row.creation + row.finalTimeout - now) * second := by
    unfold Manager.ttl second
    rw [exact (n := row.creation + row.finalTimeout) (by omega) (by omega),
      exact (n := row.creation + row.finalTimeout - now) (by omega) (by omega),
      exact (n := row.inactiveTimeout * 1000000000) (by omega) (by omega),
      exact (n := (row.creation + row.finalTimeout - now) * 1000000000) (by omega) (by omega)]
    dsimp only
    split_ifs with sooner
    · rw [min_eq_right (by omega)]
    · rw [min_eq_left (by omega)]
  rw [ttl, milliseconds_seconds]

theorem expired_iff (measured : row.Measured life limit) (early : limit + life ≤ horizon)
    (later : limit ≤ seconds now) (fits : seconds now < 2 ^ 62) :
    Manager.expired row (seconds now) = true ↔ row.deadline ≤ millis now := by
  obtain ⟨creation, created, past, inactive, final⟩ := measured
  unfold horizon at early inactive
  unfold Manager.expired deadline
  rw [int64_of_range (n := seconds now - row.lastAccess) (by omega) (by omega),
    int64_of_range (n := row.creation + row.finalTimeout) (by omega) (by omega)]
  simp only [Bool.or_eq_true, decide_eq_true_eq]
  unfold seconds millis
  omega

theorem bound_ttl (measured : row.Measured life (seconds now)) (read : row'.Measured life (seconds now))
    (same : row'.SameLife row) (early : seconds now + life ≤ horizon)
    (access : 0 ≤ lastAccess ∧ lastAccess ≤ seconds now) {clock : Int}
    (shown : 0 ≤ clock ∧ clock ≤ seconds now) :
    millis now + row.bound now lastAccess (Manager.ttl row' clock).milliseconds =
      { row with lastAccess := max row.lastAccess lastAccess }.deadline := by
  rw [ttl_eq read early shown]
  have range := read.inactive
  have range' := read.final
  have created := read.creation
  unfold horizon at range early
  rw [bound_eq measured early access (by omega)]
  obtain ⟨creation, created, past, inactive, final⟩ := measured
  rw [same.creation, same.inactive, same.final]
  have low : 1000 * seconds now ≤ millis now := by
    unfold millis seconds
    omega
  unfold deadline
  dsimp only
  omega

theorem SameLife.trans {row'' : Session} (first : row.SameLife row') (second : row'.SameLife row'') :
    row.SameLife row'' :=
  ⟨first.creation.trans second.creation, first.inactive.trans second.inactive,
    first.final.trans second.final⟩

end Session

structure Kept.Lasts (k : Kept) (now e : Int) : Prop where
  expiry : k.expiry = some e
  late : k.row.deadline ≤ e
  exact : k.row.creation < k.row.lastAccess → e = k.row.deadline
  soon : e ≤ millis now + 1000 * k.row.finalTimeout

namespace Kept

variable {k k' : Kept} {now now' e life lastAccess ttlMs : Int}

theorem Lasts.mono (lasts : k.Lasts now e) (later : now ≤ now') : k.Lasts now' e :=
  { lasts with soon := lasts.soon.trans (add_le_add_left (millis_mono later) _) }

theorem lasts_deadline (measured : k.row.Measured life (seconds now))
    (expiry : k.expiry = some k.row.deadline) : k.Lasts now k.row.deadline := by
  refine ⟨expiry, le_rfl, fun _ => rfl, ?_⟩
  obtain ⟨creation, created, past, inactive, final⟩ := measured
  unfold Session.deadline millis
  unfold seconds at past
  omega

structure Renewed (k k' : Kept) (life now : Int) : Prop where
  measured : k'.row.Measured life (seconds now)
  same : k.row.SameLife k'.row
  lasts : ∃ e, k'.Lasts now e
  expiry : k'.expiry = k.expiry ∨ k'.expiry = some k'.row.deadline

variable (measured : k.row.Measured life (seconds now)) (lasts : k.Lasts now e)
  (early : seconds now + life ≤ horizon) (access : 0 ≤ lastAccess ∧ lastAccess ≤ seconds now)
  (ends : millis now + ttlMs = { k.row with lastAccess := max k.row.lastAccess lastAccess }.deadline)

include measured lasts early access ends

omit lasts ends in
theorem moved_iff : reread k.row.lastAccess < double lastAccess ↔ k.row.lastAccess < lastAccess := by
  -- The scripts compare the times as doubles.
  obtain ⟨creation, created, past, inactive, final⟩ := measured
  unfold horizon at early
  rw [reread_of_small (by omega) (by omega), double_of_lt (by omega) (by omega)]

theorem touched_renewed {legacyRotation : Int}
    (legacy : 0 ≤ legacyRotation ∧ legacyRotation ≤ seconds now) :
    k.Renewed (k.touched now lastAccess legacyRotation ttlMs) life now := by
  have renewed : k.Renewed (k.accessed now lastAccess ttlMs) life now := by
    unfold accessed
    split_ifs with moved
    · have moved := (moved_iff measured early access).mp moved
      rw [max_eq_right moved.le] at ends
      have measured' : { k.row with lastAccess }.Measured life (seconds now) :=
        { measured with access := measured.access.trans moved.le, past := access.2 }
      have expiry := congrArg some ends
      exact ⟨measured', ⟨rfl, rfl, rfl⟩, ⟨_, lasts_deadline measured' expiry⟩, .inr expiry⟩
    · exact ⟨measured, ⟨rfl, rfl, rfl⟩, ⟨e, lasts⟩, .inl rfl⟩
  unfold touched dated
  split_ifs
  · obtain ⟨measured, same, ⟨e', lasts⟩, expiry⟩ := renewed
    exact ⟨{ measured with rotation := legacy }, { same with }, ⟨e', { lasts with }⟩, expiry⟩
  · exact renewed

theorem controlled_renewed {c : SessionControls} (given : c.lastAccess = lastAccess)
    (turned : 0 ≤ c.lastRotation ∧ c.lastRotation ≤ seconds now) :
    k.Renewed (k.controlled now c ttlMs) life now := by
  subst given
  have moved := moved_iff measured early access
  have times : (k.controlled now c ttlMs).row.lastAccess = max k.row.lastAccess c.lastAccess := by
    simp only [controlled, moved]
    split_ifs <;> omega
  have measured' : (k.controlled now c ttlMs).row.Measured life (seconds now) :=
    { measured with
      access := by
        rw [times]
        exact measured.access.trans (le_max_left ..)
      past := by
        rw [times]
        exact max_le measured.past access.2
      rotation := by
        simp only [controlled]
        split_ifs
        · exact turned
        · exact measured.rotation }
  have deadline : (k.controlled now c ttlMs).row.deadline = millis now + ttlMs := by
    rw [ends]
    unfold Session.deadline
    rw [times]
    rfl
  by_cases refresh : c.rotate ∨ c.cookies ≠ [] ∨ reread k.row.lastAccess < double c.lastAccess ∨
      reread k.row.lastRotation < double c.lastRotation
  · have expiry : (k.controlled now c ttlMs).expiry = some (k.controlled now c ttlMs).row.deadline := by
      rw [deadline]
      exact if_pos refresh
    exact ⟨measured', ⟨rfl, rfl, rfl⟩, ⟨_, lasts_deadline measured' expiry⟩, .inr expiry⟩
  · have still : ¬ k.row.lastAccess < c.lastAccess :=
      fun later => refresh (.inr (.inr (.inl (moved.mpr later))))
    have kept : (k.controlled now c ttlMs).row.lastAccess = k.row.lastAccess := by omega
    have same : (k.controlled now c ttlMs).row.deadline = k.row.deadline := by
      unfold Session.deadline
      rw [kept]
      rfl
    have expiry : (k.controlled now c ttlMs).expiry = k.expiry := if_neg refresh
    refine ⟨measured', ⟨rfl, rfl, rfl⟩, ⟨e, expiry.trans lasts.expiry, ?_, ?_, lasts.soon⟩, .inl expiry⟩
    · rw [same]
      exact lasts.late
    · rw [same, kept]
      exact lasts.exact

end Kept

end Store

/-- What a run with one clock keeps, as long as no final timeout reaches beyond the horizon. -/
structure Dated (life : Int) (s : Server) (T : Table) : Prop where
  clock : ∀ {t now}, (⟨.now, now⟩ : Deed) ∈ s.own t → now ≤ seconds s.time
  measured : ∀ {id k}, T.sessions id = some k → k.row.Measured life (seconds s.time)
  lasts : ∀ {id k}, T.sessions id = some k → ∃ e, k.Lasts s.time e
  read : ∀ {t id row}, (⟨.store (.getSession id), .ok row⟩ : Deed) ∈ s.own t →
    (∃ u, Used (s.own u) id) ∧ row.Measured life (seconds s.time) ∧
      ∀ {k}, T.sessions id = some k → row.SameLife k.row

/-- The timeouts of a manager are a second at least. -/
structure Session.Manager.Timed (m : Manager) (life : Int) : Prop where
  inactive : second ≤ m.cfg.inactive ∧ m.cfg.inactive < 2 ^ 63
  final : second ≤ m.cfg.final ∧ m.cfg.final < 2 ^ 63
  life : Duration.truncSeconds m.cfg.final ≤ life

theorem dated_initial (life : Int) : Dated life {} {} where
  clock := fun member => by cases member
  measured := fun found => by cases found
  lasts := fun found => by cases found
  read := fun member => by cases member

section Step

variable {r : Redis} {t : Nat} {s s' : Server} {T T' : Table} {c : Call} {a : c.Answer} {life : Int}
  {m : Manager} {errand : Session.Errand}

theorem newSession_measured {now limit : Int} (timed : m.Timed life) (clock : 0 ≤ now ∧ now ≤ limit)
    (sid : GoString) : (m.newSession sid now).Measured life limit := by
  obtain ⟨⟨idle, idleHigh⟩, ⟨final, finalHigh⟩, life⟩ := timed
  have positive : (0 : Int) ≤ second := by decide
  obtain ⟨below, whole⟩ := truncSeconds_bounds (positive.trans idle) idleHigh
  obtain ⟨-, whole'⟩ := truncSeconds_bounds (positive.trans final) finalHigh
  exact ⟨clock.1, le_rfl, clock.2, ⟨whole.mpr idle, below⟩, ⟨whole'.mpr final, life⟩, clock⟩

theorem newSession_lasts {now clock : Int} (timed : m.Timed life) (shown : 0 ≤ clock ∧ clock ≤ seconds now)
    (early : seconds now + life ≤ horizon) (sid : GoString) :
    let ttl := (Manager.ttl (m.newSession sid clock) clock).milliseconds
    ∃ e, Kept.Lasts
      { row := m.newSession sid clock, expiry := if 0 < ttl then some (millis now + ttl) else none } now e := by
  have measured := newSession_measured timed shown sid
  have created : (m.newSession sid clock).creation = clock := rfl
  have accessed : (m.newSession sid clock).lastAccess = clock := rfl
  have idle := measured.inactive
  have final := measured.final
  have low : 1000 * clock ≤ millis now := by
    unfold millis
    unfold seconds at shown
    omega
  dsimp only
  rw [Session.ttl_eq measured early shown, created, if_pos (by omega)]
  refine ⟨_, rfl, ?_, ?_, ?_⟩
  · unfold Session.deadline
    dsimp only
    rw [created, accessed]
    omega
  · intro later
    exact absurd later (lt_irrefl clock)
  · dsimp only
    omega

theorem Dated.known (dated : Dated life s T) (tabled : Tabled r s T) {id : GoString} {row : Session}
    {now : Int} (knows : Session.Knows (s.own t) id row now) {k : Kept} (found : T.sessions id = some k) :
    row.Measured life (seconds s.time) ∧ row.SameLife k.row ∧ 0 ≤ now ∧ now ≤ seconds s.time := by
  obtain ⟨-, measured, same⟩ := dated.read knows.row
  exact ⟨measured, same found, tabled.clock knows.now, dated.clock knows.now⟩

theorem Dated.renewed (dated : Dated life s T) (tabled : Tabled r s T) (later : s.time ≤ s'.time)
    (early : seconds s'.time + life ≤ horizon) {sc : StoreCall}
    (lawful : Session.Lawful errand (s.own t) (.store sc)) {id : GoString} {k k' : Kept}
    (found : T.sessions id = some k) (changes : (T.asOf s'.time).Changes s'.time id k sc k') :
    k.Renewed k' life s'.time := by
  have limit : seconds s.time ≤ seconds s'.time := Int.ediv_le_ediv (by decide) later
  have measured := (dated.measured found).mono limit
  obtain ⟨e, lasts⟩ := dated.lasts found
  have lasts := lasts.mono later
  obtain ⟨-, lifetime⟩ := lawful
  have access : ∀ {row now}, Session.Knows (s.own t) id row now → row.Measured life (seconds s'.time) ∧
      row.SameLife k.row ∧ 0 ≤ now ∧ now ≤ seconds s'.time := by
    intro row now knows
    obtain ⟨read, same, low, high⟩ := dated.known tabled knows found
    exact ⟨read.mono limit, same, low, high.trans limit⟩
  have zero : (0 : Int) ≤ seconds s'.time := measured.creation.trans (measured.access.trans measured.past)
  cases changes with
  | @touched keyID lastAccess legacyRotation ttl keyed left =>
      obtain ⟨row, knows, legacy, rfl⟩ := lifetime
      obtain ⟨read, same, shown⟩ := access knows
      refine k.touched_renewed measured lasts early shown
        (Session.bound_ttl measured read same early shown shown) ?_
      obtain rfl | rfl := legacy
      · exact shown
      · exact read.rotation
  | @controlled call ctl asks keyed free positive left =>
      cases sc with
      | applySessionControls id₁ ctl₁ ttl ownerTTL =>
          cases asks
          obtain ⟨row, now, knows, accessed, rotated, -, rfl, -⟩ := lifetime
          obtain ⟨read, same, shown⟩ := access knows
          have given : ∀ {n}, n = now ∨ n = 0 → 0 ≤ n ∧ n ≤ seconds s'.time := by
            rintro n (rfl | rfl)
            · exact shown
            · exact ⟨le_rfl, zero⟩
          exact k.controlled_renewed measured lasts early (given accessed)
            (Session.bound_ttl measured read same early (given accessed) shown) rfl (given rotated)
      | rotateSessionKey id₁ oldKeyID newKeyID lastRotation ttl =>
          cases asks
          obtain ⟨row, knows, rfl⟩ := lifetime
          obtain ⟨read, same, shown⟩ := access knows
          exact k.controlled_renewed measured lasts early ⟨le_rfl, zero⟩
            (Session.bound_ttl measured read same early ⟨le_rfl, zero⟩ shown) rfl shown
      | _ => cases asks
  | keyed alive => exact ⟨measured, ⟨rfl, rfl, rfl⟩, ⟨e, { lasts with }⟩, .inl rfl⟩

theorem Dated.clock_step (dated : Dated life s T) (step : attended r sameClock t s c a s') {u : Nat}
    {now : Int} (member : (⟨.now, now⟩ : Deed) ∈ s'.own u) : now ≤ seconds s'.time := by
  have limit : seconds s.time ≤ seconds s'.time := Int.ediv_le_ediv (by decide) step.1.1
  by_cases same : t = u
  · subst same
    rw [attended_own step] at member
    obtain new | earlier := List.mem_cons.mp member
    · cases new
      obtain ⟨⟨-, commands, ⟨read, -⟩, -⟩, -⟩ := step
      exact read.le
    · exact (dated.clock earlier).trans limit
  · rw [attended_other step same] at member
    exact (dated.clock member).trans limit

theorem Dated.step (dated : Dated life s T) (tabled : Tabled r s T) (timed : errand.manager.Timed life)
    (proper : Proper (s.own t) c) (lawful : Session.Lawful errand (s.own t) c)
    (step : attended r sameClock t s c a s') (moves : Moves r s'.time T c a T')
    (early : seconds s'.time + life ≤ horizon) : Dated life s' T' := by
  have later : s.time ≤ s'.time := step.1.1
  have limit : seconds s.time ≤ seconds s'.time := Int.ediv_le_ediv (by decide) later
  have used : ∀ {id}, (∃ u, Used (s.own u) id) → ∃ u, Used (s'.own u) id := by
    rintro id ⟨u, d, member, named⟩
    exact ⟨u, d, attended_mono step member, named⟩
  -- Every session is as it was, is new, or was renewed by this call.
  have kept : ∀ {id k'}, T'.sessions id = some k' → T.sessions id = some k' ∨
      ((¬ ∃ u, Used (s.own u) id) ∧ k'.row.Measured life (seconds s'.time) ∧ ∃ e, k'.Lasts s'.time e) ∨
      ∃ k, T.sessions id = some k ∧ k.Renewed k' life s'.time := by
    intro id k' found
    obtain earlier | ⟨sc, rfl, ⟨session, ttl, rfl, rfl, rfl⟩ | ⟨k, held, changes⟩⟩ := moves.kept found
    · exact .inl earlier
    · obtain ⟨-, now, read, row, rfl⟩ := lawful
      have shown : 0 ≤ now ∧ now ≤ seconds s'.time :=
        ⟨tabled.clock read, (dated.clock read).trans limit⟩
      refine .inr (.inl ⟨tabled.unused proper.1, ?_, ?_⟩)
      · rw [row]
        exact newSession_measured timed shown _
      · rw [row]
        exact newSession_lasts timed shown early _
    · have held := (Table.asOf_eq_some.mp held).1
      exact .inr (.inr ⟨k, held, dated.renewed tabled later early lawful held changes⟩)
  refine ⟨dated.clock_step step, ?_, ?_, ?_⟩
  · intro id k' found
    obtain earlier | ⟨-, measured, -⟩ | ⟨k, -, renewed⟩ := kept found
    · exact (dated.measured earlier).mono limit
    · exact measured
    · exact renewed.measured
  · intro id k' found
    obtain earlier | ⟨-, -, lasts⟩ | ⟨k, -, renewed⟩ := kept found
    · obtain ⟨e, lasts⟩ := dated.lasts earlier
      exact ⟨e, lasts.mono later⟩
    · exact lasts
    · exact renewed.lasts
  · intro u id row member
    have old : (⟨.store (.getSession id), .ok row⟩ : Deed) ∈ s.own u →
        (∃ u, Used (s'.own u) id) ∧ row.Measured life (seconds s'.time) ∧
          ∀ {k}, T'.sessions id = some k → row.SameLife k.row := by
      intro earlier
      obtain ⟨known, measured, same⟩ := dated.read earlier
      refine ⟨used known, measured.mono limit, fun {k'} found => ?_⟩
      obtain earlier | ⟨new, -⟩ | ⟨k, held, renewed⟩ := kept found
      · exact same earlier
      · exact absurd known new
      · exact (same held).trans renewed.same
    by_cases mine : t = u
    case neg =>
      rw [attended_other step mine] at member
      exact old member
    subst mine
    rw [attended_own step] at member
    obtain new | earlier := List.mem_cons.mp member
    case inr => exact old earlier
    cases new
    obtain ⟨k, found, rfl⟩ := Tabled.getSession_ran moves
    have found := (Table.asOf_eq_some.mp found).1
    have known := tabled.sessionUsed found
    obtain ⟨measured, same⟩ := ((dated.measured found).mono limit).reparsed early
    refine ⟨used known, measured, fun {k'} found' => ?_⟩
    obtain earlier | ⟨new, -⟩ | ⟨k₁, held, renewed⟩ := kept found'
    · rw [found] at earlier
      cases earlier
      exact same
    · exact absurd known new
    · rw [found] at held
      cases held
      exact same.trans renewed.same

end Step

section Runs

variable {r : Redis} {job : Nat → Session.Job} {life : Int}

theorem dated_reaches (plain : PlainHandles job) (timed : ∀ t, (job t).manager.Timed life) {site : Site}
    (run : (serverJobs r sameClock job).Reaches Site.idle site)
    (early : seconds site.state.time + life ≤ horizon) :
    ∃ T, Tabled r site.state T ∧ Dated life site.state T := by
  obtain ⟨T, tabled, dated⟩ := tabled_reaches
    (P := fun s T => seconds s.time + life ≤ horizon → Dated life s T) plain (fun _ => dated_initial life)
    (fun {t s T c a s' T'} tabled dated may step moves early => by
      have limit : seconds s.time ≤ seconds s'.time := Int.ediv_le_ediv (by decide) step.1.1
      exact (dated (by omega)).step tabled (timed t) may.orderly.2 may.lawful step moves early) run
  exact ⟨T, tabled, dated early⟩

/-- A row in Redis outlasts its deadline, or goes with it once the session was used in a later second
than it began in; and the deadline is where the manager calls the session expired. -/
theorem row_lasts_until_its_deadline (plain : PlainHandles job) (timed : ∀ t, (job t).manager.Timed life)
    {site : Site} (run : (serverJobs r sameClock job).Reaches Site.idle site)
    (early : seconds site.state.time + life ≤ horizon) {id : GoString} (plainID : Plain id)
    {e : Entry GoString} (held : site.state.db (r.sessKey id) = some e) :
    ∃ row x, (site.state.db.fields (r.sessKey id)).get = row.look ∧ e.expiry = some x ∧ row.deadline ≤ x ∧
      (row.creation < row.lastAccess → x = row.deadline) ∧
      ∀ now, site.state.time ≤ now → seconds now < 2 ^ 62 →
        (Manager.expired row (seconds now) = true ↔ row.deadline ≤ millis now) := by
  obtain ⟨T, tabled, dated⟩ := dated_reaches plain timed run early
  have cell : some e.cell = (T.sessions id).bind (Kept.cell · .row) := by
    rw [← tabled.rep.part .row ⟨id, plainID⟩, Keyspace.cells, ← r.sessKey_name, held]
    rfl
  cases found : T.sessions id with
  | none =>
      rw [found] at cell
      cases cell
  | some k =>
      rw [found] at cell
      obtain ⟨x, expiry, late, exact, -⟩ := dated.lasts found
      have measured := dated.measured found
      have expires : e.expiry = k.expiry := congrArg Prod.snd (Option.some.inj cell)
      refine ⟨k.row, x, ?_, expires.trans expiry, late, exact, fun now later fits => ?_⟩
      · rw [r.sessKey_name ⟨id, plainID⟩, ← Keyspace.look_cells, tabled.rep.part, found]
        rfl
      · exact Session.expired_iff measured early (Int.ediv_le_ediv (by decide) later) fits

end Runs

theorem timedManager_timed : (Session.timedManager (1800 * second)).Timed 28800 :=
  ⟨by decide, by decide, by decide⟩

theorem resolved_row_lasts_until_its_deadline : ∃ site,
    (serverJobs sampleRedis sameClock beginResolve).Reaches Site.idle site ∧
    ∃ e row x, site.state.db (sampleRedis.sessKey (drawn 1)) = some e ∧
      (site.state.db.fields (sampleRedis.sessKey (drawn 1))).get = row.look ∧ e.expiry = some x ∧
      row.deadline ≤ x ∧ (row.creation < row.lastAccess → x = row.deadline) ∧
      ∀ now, site.state.time ≤ now → seconds now < 2 ^ 62 →
        (Manager.expired row (seconds now) = true ↔ row.deadline ≤ millis now) := by
  have taken : (Site.idle.turns sampleRedis beginResolve beginResolveTurns).any fun site =>
      decide ((site.state.db (sampleRedis.sessKey (drawn 1))).isSome = true ∧
        seconds site.state.time + 28800 ≤ horizon) := by
    decide +kernel
  obtain ⟨site, reached, checked⟩ := (Option.any_eq_true _ _).mp taken
  obtain ⟨there, early⟩ := of_decide_eq_true checked
  obtain ⟨e, held⟩ := Option.isSome_iff_exists.mp there
  have run := turns_reaches reached
  obtain ⟨row, x, rest⟩ := row_lasts_until_its_deadline beginResolve_plain (fun _ => timedManager_timed) run
    early (encodeToString_colonless _) held
  exact ⟨site, run, e, row, x, held, rest⟩

end Gosestor
