import Gosestor.Proof.Session.Lifetimes
import Gosestor.Proof.Session.Usable
import Gosestor.Proof.Store.Performs
import Gosestor.Proof.Store.TableSteps
import Gosestor.Server

/-!
# Runs on the Redis store

Jobs run on a Redis server in any interleaving, with lost calls and lost answers, while time passes
and keys expire. In every state that such a run reaches, the keyspace represents a table.
-/

namespace Gosestor

open Gosestor.Go Gosestor.Lib Gosestor.Lib.Redis Gosestor.Store

/-! ## Jobs on a server -/

def Outside : (c : Call) → c.Answer → Prop
  | .store _, _ | .randomRead, _ => True
  | c, answer => Legal [] c answer

def attended (r : Redis) (reads : Int → Int → Prop) : Exec Call Call.Answer Server :=
  fun t s c answer s' => serve r reads t s c answer s' ∧ millis s'.time < 2 ^ 52 ∧ Outside c answer

abbrev Site := Config Call Call.Answer Server Session.Outcome

def serverJobs (r : Redis) (reads : Int → Int → Prop) (job : Nat → Session.Job) :
    System (attended r reads) Session.Outcome where
  prog t := (job t).prog
  ready _ _ := True

def Site.idle : Site := .initial {}

/-- The ids in handles come from a store, so they hold no colon. -/
def PlainHandles (job : Nat → Session.Job) : Prop :=
  ∀ t l, (job t).op.handle = some l → Plain l.sessionID

section Steps

variable {r : Redis} {reads : Int → Int → Prop} {t u : Nat} {s s' : Server} {c : Call} {a : c.Answer}

theorem attended_own (step : attended r reads t s c a s') : s'.own t = ⟨c, a⟩ :: s.own t := by
  obtain ⟨⟨-, commands, -, log⟩, -⟩ := step
  simp [Server.own, log]

theorem attended_other (step : attended r reads u s c a s') (ne : u ≠ t) : s'.own t = s.own t := by
  obtain ⟨⟨-, commands, -, log⟩, -⟩ := step
  simp [Server.own, log, ne]

theorem attended_mono (step : attended r reads u s c a s') {d : Deed} (member : d ∈ s.own t) :
    d ∈ s'.own t := by
  by_cases same : u = t
  · subst same
    rw [attended_own step]
    exact List.mem_cons_of_mem _ member
  · rw [attended_other step same]
    exact member

theorem attended_still (step : attended r reads t s c a s') (other : ∀ sc, c ≠ .store sc) : s'.db = s.db := by
  obtain ⟨⟨-, commands, answered, -⟩, -⟩ := step
  cases c with
  | store sc => exact absurd rfl (other sc)
  | randomRead =>
      cases a with
      | none => exact answered.2
      | some buf => exact answered.2.2
  | now => exact answered.2.2
  | _ => exact answered.2

theorem Server.mem_minted {x : GoString} : x ∈ s.minted ↔ ∃ t, Minted (s.own t) x := by
  simp only [Server.minted, Minted, Server.own, List.mem_filterMap, List.mem_map, List.mem_filter]
  constructor
  · rintro ⟨e, logged, named⟩
    exact ⟨e.tid, e.deed, ⟨e, ⟨logged, by simp⟩, rfl⟩, named⟩
  · rintro ⟨t, d, ⟨e, ⟨logged, -⟩, rfl⟩, named⟩
    exact ⟨e, logged, named⟩

theorem minted_new {buf : List UInt8} (step : attended r reads t s .randomRead (some buf) s') :
    encodeToString buf ∉ s.minted := by
  obtain ⟨⟨-, commands, answered, -⟩, -⟩ := step
  exact answered.1.2

end Steps

/-! ## The invariant -/

/-- The keyspace represents the table, and the ids in the table were stored by programs that minted
them. -/
structure Tabled (r : Redis) (s : Server) (T : Table) : Prop where
  rep : Represents (s.db.cells r.name) T
  laid : Laid r.layout s.db
  mintedOnce : ∀ {t u x}, Minted (s.own t) x → Minted (s.own u) x → t = u
  settled : ∀ t, Settled (s.own t)
  told : ∀ {t id}, Told (s.own t) id → Plain id
  sessionUsed : ∀ {id k}, T.sessions id = some k → ∃ t, Used (s.own t) id
  keyUsed : ∀ {keyID id}, T.KeyLeadsTo keyID id → ∃ t, Used (s.own t) keyID
  keyed : ∀ {keyID id}, T.KeyLeadsTo keyID id → ∃ t, Keyed (s.own t) id
  indexed : ∀ {o id}, id ∈ (T.owners o).members → Plain id
  clock : ∀ {t now}, (⟨.now, now⟩ : Deed) ∈ s.own t → 0 ≤ now
  rotation : ∀ {id k}, T.sessions id = some k → 0 ≤ k.row.lastRotation

theorem tabled_initial (r : Redis) : Tabled r {} {} where
  rep :=
    { named := fun found => by cases found
      part := fun _ _ => rfl
      key := fun found => by cases found
      only := fun there => by cases there
      owner := fun _ => rfl }
  laid :=
    { fit := fun _ => rfl
      bounded := fun expires => by cases expires }
  mintedOnce := by
    rintro t u x ⟨d, member, -⟩
    cases member
  settled := fun _ => settled_nil
  told := by
    rintro t id ⟨d, member, -⟩
    cases member
  sessionUsed := fun found => by cases found
  keyUsed := fun held => by
    obtain ⟨k, found, -⟩ := held
    cases found
  keyed := fun held => by
    obtain ⟨k, found, -⟩ := held
    cases found
  indexed := fun member => by cases member
  clock := fun member => by cases member
  rotation := fun found => by cases found

inductive Moves (r : Redis) (now : Int) (T : Table) : (c : Call) → c.Answer → Table → Prop
  | outside {c : Call} {a : c.Answer} (other : ∀ sc, c ≠ .store sc) : Moves r now T c a T
  | apart {sc : StoreCall} {a : sc.Answer} (none : r.request sc = none) : Moves r now T (.store sc) a T
  | unreached {sc : StoreCall} : Moves r now T (.store sc) (.error .fault) T
  | ran {sc : StoreCall} {a answer : sc.Answer} {T' : Table} (does : (T.asOf now).Does now sc answer T')
      (heard : a = .error .fault ∨ ∃ order, reorder order sc answer = some a) :
      Moves r now T (.store sc) a T'

theorem Moves.kept {r : Redis} {now : Int} {T T' : Table} {c : Call} {a : c.Answer}
    (moves : Moves r now T c a T') {id : GoString} {k' : Kept} (found : T'.sessions id = some k') :
    T.sessions id = some k' ∨ ∃ sc, c = .store sc ∧
      ((∃ s ttl, sc = .putSession s ttl ∧ s.id = id ∧ k' =
        { row := s, expiry := if 0 < ttl.milliseconds then some (millis now + ttl.milliseconds) else none }) ∨
      ∃ k, (T.asOf now).sessions id = some k ∧ (T.asOf now).Changes now id k sc k') := by
  cases moves with
  | outside other => exact .inl found
  | apart none => exact .inl found
  | unreached => exact .inl found
  | @ran sc _ _ _ does heard =>
      obtain earlier | changed := does.kept found
      · exact .inl (Table.asOf_eq_some.mp earlier).1
      · exact .inr ⟨sc, rfl, changed⟩

theorem Moves.indexed {r : Redis} {now : Int} {T T' : Table} {c : Call} {a : c.Answer}
    (moves : Moves r now T c a T') {id : GoString} {o : Int} (member : id ∈ (T'.owners o).members) :
    id ∈ (T.owners o).members ∨ ∃ k, T'.sessions id = some k ∧ k.row.ownerID = o := by
  cases moves with
  | outside other => exact .inl member
  | apart none => exact .inl member
  | unreached => exact .inl member
  | ran does heard => exact (does.indexed member).imp_left Cell.mem_members_asOf

/-! ## One step -/

namespace Tabled

variable {r : Redis} {reads : Int → Int → Prop} {t : Nat} {s s' : Server} {T T' : Table}
  {errand : Session.Errand}

theorem unused (tabled : Tabled r s T) {x : GoString} (fresh : Fresh (s.own t) x) :
    ¬ ∃ u, Used (s.own u) x := by
  rintro ⟨u, used⟩
  have same : t = u := tabled.mintedOnce fresh.1 (tabled.settled u x (.inl used))
  exact fresh.2 (same ▸ used)

theorem free (tabled : Tabled r s T) {keyID : GoString} (fresh : Fresh (s.own t) keyID) (id : GoString) :
    ¬ T.KeyLeadsTo keyID id :=
  fun held => tabled.unused fresh (tabled.keyUsed held)

theorem keyLeadsTo_asOf {now : Int} {keyID id : GoString} (held : (T.asOf now).KeyLeadsTo keyID id) :
    T.KeyLeadsTo keyID id := by
  obtain ⟨k, found, keyed⟩ := held
  exact ⟨k, (Table.asOf_eq_some.mp found).1, keyed⟩

theorem admits (tabled : Tabled r s T) {sc : StoreCall} (proper : Proper (s.own t) (.store sc)) (now : Int) :
    (T.asOf now).Admits sc := by
  cases sc with
  | putSession session ttl =>
      cases found : (T.asOf now).sessions session.id with
      | none => exact found
      | some k => exact absurd (tabled.sessionUsed (Table.asOf_eq_some.mp found).1) (tabled.unused proper.1)
  | putKey keyID id ttl =>
      refine ⟨fun id held => tabled.free proper.1 id (keyLeadsTo_asOf held), fun k found => ?_⟩
      cases keyed : k.key with
      | none => rfl
      | some keyID' =>
          obtain ⟨u, other⟩ := tabled.keyed ⟨k, (Table.asOf_eq_some.mp found).1, keyed⟩
          have same : t = u := tabled.mintedOnce proper.2.1 (tabled.settled u _ (.inr other))
          exact absurd (same ▸ other) proper.2.2
  | _ => trivial

theorem sane (tabled : Tabled r s T) {sc : StoreCall}
    (lawful : Session.Lawful errand (s.own t) (.store sc))
    (plain : ∀ l, errand.handle = some l → Plain l.sessionID) : sc.Sane where
  plain := by
    intro id named
    obtain ⟨l, handled, rfl⟩ | told := lawful.1 id named
    · exact plain l handled
    · exact tabled.told told
  durations := by
    intro d member
    obtain ⟨-, lifetime⟩ := lawful
    cases sc with
    | putSession session ttl =>
        obtain ⟨now, -, -, rfl⟩ := lifetime
        rw [List.mem_singleton.mp member]
        exact Session.ttl_range _ _
    | touchSession id keyID lastAccess legacyRotation ttl =>
        obtain ⟨row, -, -, rfl⟩ := lifetime
        rw [List.mem_singleton.mp member]
        exact Session.ttl_range _ _
    | applySessionControls id c ttl ownerTTL =>
        obtain ⟨row, now, -, -, -, -, rfl, rfl⟩ := lifetime
        obtain rfl | rfl := List.mem_pair.mp member
        · exact Session.ttl_range _ _
        · exact int64_range _
    | rotateSessionKey id oldKeyID newKeyID lastRotation ttl =>
        obtain ⟨row, -, rfl⟩ := lifetime
        rw [List.mem_singleton.mp member]
        exact Session.ttl_range _ _
    | _ => cases member

theorem moves (tabled : Tabled r s T) {c : Call} {a : c.Answer} (sane : ∀ sc, c = .store sc → sc.Sane)
    (admits : ∀ sc, c = .store sc → (T.asOf s'.time).Admits sc) (step : attended r reads t s c a s') :
    ∃ T', Moves r s'.time T c a T' ∧ Represents (s'.db.cells r.name) T' ∧ Laid r.layout s'.db := by
  by_cases other : ∀ sc, c ≠ .store sc
  · rw [attended_still step other]
    exact ⟨T, .outside other, tabled.rep, tabled.laid⟩
  push Not at other
  obtain ⟨sc, rfl⟩ := other
  obtain ⟨⟨-, commands, answered, -⟩, early, -⟩ := step
  change Performed r s'.time s.db sc a commands s'.db at answered
  generalize s'.db = db at answered ⊢
  cases answered with
  | unreached => exact ⟨T, .unreached, tabled.rep, tabled.laid⟩
  | apart none => exact ⟨T, .apart none, tabled.rep, tabled.laid⟩
  | ran request answered =>
      obtain ⟨answer, T', heard, does, rep, laid⟩ := exec_does request (sane sc rfl) (by omega)
        (admits sc rfl) tabled.laid tabled.rep
      rw [heard] at answered
      exact ⟨T', .ran does answered, rep, laid⟩

section Step

variable {c : Call} {a : c.Answer}

theorem mintedOnce_step (tabled : Tabled r s T) (step : attended r reads t s c a s') {u v : Nat}
    {x : GoString} (first : Minted (s'.own u) x) (second : Minted (s'.own v) x) : u = v := by
  -- An id minted by this very step was not in the log before it.
  have old : ∀ {u}, Minted (s'.own u) x → Minted (s.own u) x ∨ (u = t ∧ Deed.minted ⟨c, a⟩ = some x) := by
    intro u minted
    by_cases same : t = u
    · subst same
      rw [attended_own step] at minted
      obtain ⟨d, member, named⟩ := minted
      obtain rfl | earlier := List.mem_cons.mp member
      · exact .inr ⟨rfl, named⟩
      · exact .inl ⟨d, earlier, named⟩
    · rw [attended_other step same] at minted
      exact .inl minted
  have new : ∀ {u}, Deed.minted ⟨c, a⟩ = some x → ¬ Minted (s.own u) x := by
    intro u named minted
    cases c with
    | randomRead =>
        cases a with
        | none => cases named
        | some buf =>
            cases named
            exact minted_new step (Server.mem_minted.mpr ⟨u, minted⟩)
    | _ => cases named
  obtain first | ⟨rfl, named⟩ := old first
  · obtain second | ⟨rfl, named⟩ := old second
    · exact tabled.mintedOnce first second
    · exact absurd first (new named)
  · obtain second | ⟨rfl, -⟩ := old second
    · exact absurd second (new named)
    · rfl

theorem settled_step (tabled : Tabled r s T) (proper : Proper (s.own t) c)
    (step : attended r reads t s c a s') (u : Nat) : Settled (s'.own u) := by
  by_cases same : t = u
  · subst same
    rw [attended_own step]
    exact (tabled.settled t).cons proper a
  · rw [attended_other step same]
    exact tabled.settled u

theorem tells (tabled : Tabled r s T) {now : Int} (moves : Moves r now T c a T') {id : GoString}
    (tells : Deed.Tells id ⟨c, a⟩) : Plain id := by
  cases moves with
  | outside other =>
      cases c with
      | store sc => exact absurd rfl (other sc)
      | randomRead =>
          cases a with
          | none => cases tells
          | some buf =>
              cases tells
              exact encodeToString_colonless buf
      | _ => cases tells
  | @apart sc _ none => cases sc <;> cases none <;> cases tells
  | @unreached sc => cases sc <;> cases tells
  | @ran sc _ answer _ does heard =>
      obtain rfl | ⟨order, ordered⟩ := heard
      · cases sc <;> cases tells
      cases sc with
      | getKey keyID =>
          obtain rfl := Option.some.inj ordered
          obtain ⟨⟨rfl, -⟩ | ⟨id', rfl, held⟩, -⟩ := does
          · cases tells
          · cases tells
            obtain ⟨k, found, -⟩ := keyLeadsTo_asOf held
            exact (tabled.rep.named found).1
      | ownerSessions o =>
          obtain ⟨⟨ids, rfl, -, listed⟩, -⟩ := does
          simp only [reorder] at ordered
          split_ifs at ordered with permuted
          cases ordered
          have member : id ∈ ((T.asOf now).owners o).members :=
            (listed id).mp ((List.isPerm_iff.mp permuted).mem_iff.mp tells)
          exact tabled.indexed (Cell.mem_members_asOf member)
      | _ => cases tells

theorem told_step (tabled : Tabled r s T) (step : attended r reads t s c a s')
    (moves : Moves r s'.time T c a T') {u : Nat} {id : GoString} (told : Told (s'.own u) id) : Plain id := by
  by_cases same : t = u
  · subst same
    rw [attended_own step] at told
    obtain ⟨d, member, tells⟩ := told
    obtain rfl | earlier := List.mem_cons.mp member
    · exact tabled.tells moves tells
    · exact tabled.told ⟨d, earlier, tells⟩
  · rw [attended_other step same] at told
    exact tabled.told told

theorem clock_step (tabled : Tabled r s T) (step : attended r reads t s c a s') {u : Nat} {now : Int}
    (read : (⟨.now, now⟩ : Deed) ∈ s'.own u) : 0 ≤ now := by
  by_cases same : t = u
  · subst same
    rw [attended_own step] at read
    obtain new | earlier := List.mem_cons.mp read
    · cases new
      exact step.2.2
    · exact tabled.clock earlier
  · rw [attended_other step same] at read
    exact tabled.clock read

theorem rotation_step (tabled : Tabled r s T) (proper : Proper (s.own t) c)
    (lawful : Session.Lawful errand (s.own t) c) (moves : Moves r s'.time T c a T') {id : GoString}
    {k' : Kept} (found : T'.sessions id = some k') : 0 ≤ k'.row.lastRotation := by
  -- No time before the epoch gets into a row.
  obtain earlier | ⟨sc, rfl, ⟨session, ttl, rfl, rfl, rfl⟩ | ⟨k, held, changes⟩⟩ := moves.kept found
  · exact tabled.rotation earlier
  · exact proper.2.2
  have before : 0 ≤ k.row.lastRotation := tabled.rotation (Table.asOf_eq_some.mp held).1
  cases changes with
  | @touched keyID lastAccess legacyRotation ttl keyed left =>
      have legacy : 0 ≤ legacyRotation := proper
      unfold Kept.touched Kept.dated Kept.accessed
      split_ifs <;> assumption
  | @controlled call ctl asks keyed free positive left =>
      have later : 0 ≤ ctl.lastRotation := by
        cases sc with
        | applySessionControls id₁ ctl₁ ttl ownerTTL =>
            cases asks
            obtain ⟨-, row, now, knows, -, rotated | rotated, -⟩ := lawful
            · rw [rotated]
              exact tabled.clock knows.now
            · exact rotated.ge
        | rotateSessionKey id₁ oldKeyID newKeyID lastRotation ttl =>
            cases asks
            obtain ⟨-, row, knows, -⟩ := lawful
            exact tabled.clock knows.now
        | _ => cases asks
      simp only [Kept.controlled]
      split_ifs <;> assumption
  | keyed alive => exact before

theorem step (tabled : Tabled r s T) (proper : Proper (s.own t) c)
    (lawful : Session.Lawful errand (s.own t) c) (step : attended r reads t s c a s')
    (moves : Moves r s'.time T c a T') (rep : Represents (s'.db.cells r.name) T')
    (laid : Laid r.layout s'.db) : Tabled r s' T' := by
  have kept : ∀ {x}, (∃ u, Used (s.own u) x) → ∃ u, Used (s'.own u) x := by
    rintro x ⟨u, d, member, named⟩
    exact ⟨u, d, attended_mono step member, named⟩
  have used : ∀ {sc x}, c = .store sc → sc.newName = some x → ∃ u, Used (s'.own u) x := by
    rintro sc x rfl named
    refine ⟨t, ⟨.store sc, a⟩, ?_, named⟩
    rw [attended_own step]
    exact List.mem_cons_self
  refine
    { rep, laid
      mintedOnce := tabled.mintedOnce_step step
      settled := tabled.settled_step proper step
      told := tabled.told_step step moves
      sessionUsed := ?_
      keyUsed := ?_
      keyed := ?_
      indexed := ?_
      clock := tabled.clock_step step
      rotation := tabled.rotation_step proper lawful moves }
  · intro id k' found
    obtain earlier | ⟨sc, rfl, ⟨session, ttl, rfl, rfl, -⟩ | ⟨k, held, -⟩⟩ := moves.kept found
    · exact kept (tabled.sessionUsed earlier)
    · exact used rfl rfl
    · exact kept (tabled.sessionUsed (Table.asOf_eq_some.mp held).1)
  · rintro keyID id ⟨k', found, keyed⟩
    obtain earlier | ⟨sc, calls, ⟨session, ttl, -, -, rfl⟩ | ⟨k, held, changes⟩⟩ := moves.kept found
    · exact kept (tabled.keyUsed ⟨k', earlier, keyed⟩)
    · cases keyed
    · obtain old | ⟨new, -⟩ := changes.key keyed
      · exact kept (tabled.keyUsed (keyLeadsTo_asOf ⟨k, held, old⟩))
      · exact used calls new
  · have still : ∀ {id keyID}, T.KeyLeadsTo keyID id → ∃ u, Keyed (s'.own u) id := by
      intro id keyID held
      obtain ⟨u, keyID', ttl, answer, member⟩ := tabled.keyed held
      exact ⟨u, keyID', ttl, answer, attended_mono step member⟩
    rintro keyID id ⟨k', found, keyed⟩
    obtain earlier | ⟨sc, rfl, ⟨session, ttl, -, -, rfl⟩ | ⟨k, held, changes⟩⟩ := moves.kept found
    · exact still ⟨k', earlier, keyed⟩
    · cases keyed
    · obtain old | ⟨-, old | ⟨ttl, rfl⟩⟩ := changes.key keyed
      · exact still (keyLeadsTo_asOf ⟨k, held, old⟩)
      · obtain ⟨keyID', old⟩ := Option.ne_none_iff_exists'.mp old
        exact still (keyLeadsTo_asOf ⟨k, held, old⟩)
      · refine ⟨t, keyID, ttl, a, ?_⟩
        rw [attended_own step]
        exact List.mem_cons_self
  · intro o id member
    obtain earlier | ⟨k, found, -⟩ := moves.indexed member
    · exact tabled.indexed earlier
    · exact (rep.named found).1

theorem getSession_ran {now : Int} {id : GoString} {row : Session}
    (moves : Moves r now T (.store (.getSession id)) (.ok row) T') :
    ∃ k, (T.asOf now).sessions id = some k ∧ row = k.row.reparsed := by
  cases moves with
  | outside other => exact absurd rfl (other _)
  | apart none => cases none
  | ran does heard =>
      obtain fault | ⟨order, ordered⟩ := heard
      · cases fault
      obtain rfl := Option.some.inj ordered
      obtain ⟨answer, -⟩ := does
      cases found : (T.asOf now).sessions id with
      | none =>
          rw [found] at answer
          cases answer
      | some k =>
          rw [found] at answer
          cases answer
          exact ⟨k, rfl, rfl⟩

end Step

end Tabled

theorem reparse_nonneg {n : Int} (nonneg : 0 ≤ n) : 0 ≤ reparse n := by
  unfold reparse
  cases parsed : parseInt (formatInt n) with
  | none => exact le_rfl
  | some m => exact parseInt_formatInt_nonneg nonneg parsed

/-! ## Whole runs -/

def Call.Named (c : Call) : Prop := ∀ sc, c = .store sc → ∀ id, sc.session = some id → Plain id

def History.heard (past : History) (c : Call) (a : c.Answer) (past' : History) : Prop :=
  (c.Named → Legal past c a ∧ ∀ id, Deed.Tells id ⟨c, a⟩ → Plain id) ∧ past' = ⟨c, a⟩ :: past

theorem Tabled.heard {r : Redis} {reads : Int → Int → Prop} {t : Nat} {s s' : Server} {T : Table} {c : Call}
    {a : c.Answer} (tabled : Tabled r s T) (step : attended r reads t s c a s') :
    History.heard (s.own t) c a (s'.own t) := by
  refine ⟨fun named => ?_, attended_own step⟩
  -- A call that reads has no lifetime and creates nothing.
  have read : ∀ {sc}, c = .store sc → StoreMethod.durations (.call sc) = [] → sc.newName = none →
      ∃ T', Moves r s'.time T c a T' := by
    rintro sc rfl none new
    obtain ⟨T', moves, -⟩ := tabled.moves
      (by
        rintro _ ⟨⟩
        exact ⟨named sc rfl, by simp [none]⟩)
      (by
        rintro _ ⟨⟩
        cases sc <;> first | exact trivial | cases new)
      step
    exact ⟨T', moves⟩
  cases c with
  | store sc =>
      cases sc with
      | getSession id =>
          obtain ⟨T', moves⟩ := read rfl rfl rfl
          refine ⟨?_, fun id => tabled.tells moves⟩
          cases a with
          | error e => trivial
          | ok row =>
              obtain ⟨k, found, rfl⟩ := Tabled.getSession_ran moves
              exact reparse_nonneg (tabled.rotation (Table.asOf_eq_some.mp found).1)
      | getKey keyID | ownerSessions o =>
          obtain ⟨T', moves⟩ := read rfl rfl rfl
          exact ⟨trivial, fun id => tabled.tells moves⟩
      | _ => exact ⟨trivial, fun id tells => by cases tells⟩
  | randomRead =>
      have moves : Moves r 0 T .randomRead a T := .outside (by simp)
      refine ⟨?_, fun id => tabled.tells moves⟩
      cases a with
      | none => trivial
      | some buf =>
          obtain ⟨⟨-, commands, answered, -⟩, -⟩ := step
          exact ⟨answered.1.1, fun minted => answered.1.2 (Server.mem_minted.mpr ⟨t, minted⟩)⟩
  | _ => exact ⟨step.2.2, fun id tells => by cases tells⟩

section Runs

variable {r : Redis} {reads : Int → Int → Prop} {job : Nat → Session.Job}

structure Session.Job.May (job : Session.Job) (past : History) (c : Call) : Prop where
  told : ∀ id, Told past id → Plain id
  orderly : Orderly past c
  lawful : Session.Lawful job.errand past c

theorem job_may {job : Session.Job} (plain : ∀ l, job.op.handle = some l → Plain l.sessionID) :
    job.prog.Wp History.heard job.May (fun _ _ => True) [] := by
  have obeys := (Session.op_proper job.manager job.op settled_nil).and
    (Session.op_lawful job.manager job.op)
  refine (Prog.Wp.lift id (fun past => ∀ id, Told past id → Plain id) ?_ ?_ obeys).mono
    (fun _ _ may => ⟨may.1, may.2.1, may.2.2⟩) fun _ _ _ => trivial
  · rintro past c a past' told ⟨-, lawful⟩ ⟨heard, rfl⟩
    have named : c.Named := by
      rintro sc rfl id named
      obtain ⟨l, handled, rfl⟩ | known := lawful.1 id named
      · exact plain l handled
      · exact told id known
    obtain ⟨legal, tells⟩ := heard named
    refine ⟨⟨legal, rfl⟩, ?_⟩
    rintro id ⟨d, member, said⟩
    obtain rfl | earlier := List.mem_cons.mp member
    · exact tells id said
    · exact told id ⟨d, earlier, said⟩
  · rintro id ⟨d, member, -⟩
    cases member

theorem Tabled.advance {t : Nat} {s s' : Server} {T : Table} {c : Call} {a : c.Answer}
    (plain : PlainHandles job) (tabled : Tabled r s T) (may : (job t).May (s.own t) c) (step : attended r reads t s c a s') :
    ∃ T', Moves r s'.time T c a T' ∧ Tabled r s' T' := by
  obtain ⟨told, orderly, lawful⟩ := may
  obtain ⟨T', moves, rep, laid⟩ := tabled.moves
    (by
      rintro sc rfl
      exact tabled.sane lawful (plain t))
    (by
      rintro sc rfl
      exact tabled.admits orderly.2 _)
    step
  exact ⟨T', moves, tabled.step orderly.2 lawful step moves rep laid⟩

theorem site_may (plain : PlainHandles job) {site : Site}
    (run : (serverJobs r reads job).Reaches Site.idle site) {t : Nat} {p : Act Session.Outcome}
    (running : site.thread t = some p) :
    p.Wp History.heard (job t).May (fun _ _ => True) (site.state.own t) := by
  let I : Server → Prop := fun s => ∃ T, Tabled r s T
  let V : View (attended r reads) I History :=
    { own := Server.own
      start := fun _ => []
      step := History.heard
      mine := by
        rintro t s c a s' ⟨T, tabled⟩ step
        exact tabled.heard step
      others := attended_other }
  have good : Good (serverJobs r reads job) V (fun t => (job t).May) (fun _ _ _ => True) site := by
    refine Good.reaches (fun {t s} _ => job_may (plain t)) (fun _ _ => trivial) ?_
      (Good.initial ⟨{}, tabled_initial r⟩ fun _ => rfl) run
    rintro t s c a s' ⟨T, tabled⟩ - may step
    obtain ⟨T', -, tabled'⟩ := tabled.advance plain may step
    exact ⟨T', tabled'⟩
  exact good.running running

/-- What every step of the jobs keeps of a site and its table holds after every run. -/
theorem tabled_induction {Q : Site → Table → Prop} (plain : PlainHandles job) (initial : Q Site.idle {})
    (start : ∀ {site T} t, Q site T → site.thread t = none →
      Q { site with thread := Function.update site.thread t (some (job t).prog) } T)
    (act : ∀ {site T t c next a s' T'}, Tabled r site.state T → Q site T →
      site.thread t = some (.call c next) → (job t).May (site.state.own t) c →
      attended r reads t site.state c a s' → Moves r s'.time T c a T' →
      Q ⟨s', Function.update site.thread t (some (next a))⟩ T')
    {site : Site} (run : (serverJobs r reads job).Reaches Site.idle site) :
    ∃ T, Tabled r site.state T ∧ Q site T := by
  induction run with
  | refl => exact ⟨{}, tabled_initial r, initial⟩
  | tail before last ih =>
      obtain ⟨T, tabled, holds⟩ := ih
      cases last with
      | start t idle _ => exact ⟨T, tabled, start t holds idle⟩
      | act t running step =>
          have may := (site_may plain before running).1
          obtain ⟨T', moves, tabled'⟩ := tabled.advance plain may step
          exact ⟨T', tabled', act tabled holds running may step moves⟩

theorem tabled_reaches {P : Server → Table → Prop} (plain : PlainHandles job) (initial : P {} {})
    (keeps : ∀ {t s T c a s' T'}, Tabled r s T → P s T → (job t).May (s.own t) c →
      attended r reads t s c a s' → Moves r s'.time T c a T' → P s' T')
    {site : Site} (run : (serverJobs r reads job).Reaches Site.idle site) :
    ∃ T, Tabled r site.state T ∧ P site.state T :=
  tabled_induction (Q := fun site T => P site.state T) plain initial (fun _ holds _ => holds)
    (fun tabled holds _ may step moves => keeps tabled holds may step moves) run

end Runs

/-! ## Runs one turn after the other -/

inductive Turn
  | start (t : Nat)
  | act (t : Nat) (pause : Int)

instance {c : Call} {a : c.Answer} : Decidable (Outside c a) := by
  cases c <;> unfold Outside Legal <;> infer_instance

def Site.turn (r : Redis) (job : Nat → Session.Job) (site : Site) : Turn → Option Site
  | .start t =>
      if (site.thread t).isNone then
        some { site with thread := Function.update site.thread t (some (job t).prog) }
      else none
  | .act t pause =>
      match site.thread t with
      | some (.call c next) =>
          let (a, s') := attend r (· / 1000000) pause t c site.state
          if 0 ≤ pause ∧ millis s'.time < 2 ^ 52 ∧ Outside c a then
            some ⟨s', Function.update site.thread t (some (next a))⟩
          else none
      | _ => none

def Site.turns (r : Redis) (job : Nat → Session.Job) (site : Site) (turns : List Turn) : Option Site :=
  turns.foldlM (Site.turn r job) site

theorem turn_step {r : Redis} {job : Nat → Session.Job} {site site' : Site} {turn : Turn}
    (taken : site.turn r job turn = some site') : (serverJobs r sameClock job).Step site site' := by
  cases turn with
  | start t =>
      simp only [Site.turn] at taken
      split_ifs at taken with idle
      cases taken
      exact .start t (Option.isNone_iff_eq_none.mp idle) trivial
  | act t pause =>
      simp only [Site.turn] at taken
      split at taken
      · rename_i c next running
        split_ifs at taken with allowed
        cases taken
        have shown : ∀ time, sameClock time (time / 1000000) := fun _ => rfl
        exact .act t running ⟨attend_serves shown allowed.1 t site.state c, allowed.2⟩
      · cases taken

theorem turns_reaches {r : Redis} {job : Nat → Session.Job} {turns : List Turn} {site site' : Site}
    (taken : site.turns r job turns = some site') : (serverJobs r sameClock job).Reaches site site' := by
  induction turns generalizing site with
  | nil =>
      cases taken
      exact .refl
  | cons turn turns ih =>
      obtain ⟨between, first, rest⟩ := Option.bind_eq_some_iff.mp taken
      exact .head (turn_step first) (ih rest)

def sampleRedis : Redis := ⟨lit "gs:"⟩

def drawn (n : Nat) : GoString := encodeToString (List.replicate 32 (UInt8.ofNat n))

def beginResolve (t : Nat) : Session.Job :=
  ⟨Session.timedManager (1800 * second), if t = 0 then .begin else .resolve (drawn 2)⟩

def beginResolveTurns : List Turn :=
  [.start 0] ++ List.replicate 5 (.act 0 100000) ++
    [.start 1, .act 1 2000000] ++ List.replicate 5 (.act 1 100000)

theorem beginResolve_plain : PlainHandles beginResolve := by
  intro t l handled
  unfold beginResolve at handled
  split_ifs at handled <;> cases handled

end Gosestor
