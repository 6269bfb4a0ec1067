import Gosestor.Proof.Session.ApplyResponse
import Gosestor.Proof.Store.TableSteps

/-!
# The Memory store mirrors a table

Where time plays no part, a call does to the table of the Redis store what it does to the maps of
the Memory store, and answers the same.
-/

namespace Gosestor.Store

open Gosestor.Go Gosestor.Lib Gosestor.Lib.Redis

structure Mirrors (T : Table) (m : Memory) : Prop where
  session : ∀ id, m.sessions.get id = (T.sessions id).map Kept.row
  key : ∀ {keyID id}, m.keys.get keyID = some id ↔ T.KeyLeadsTo keyID id
  cookies : ∀ id, (m.getCookies id).get = (T.sessions id).elim (fun _ => none) Kept.cookies
  shas : ∀ id, (m.cookieSHAs id).get = (T.sessions id).elim (fun _ => none) Kept.shas
  owner : ∀ {o id}, InIndex m.owners o id ↔ id ∈ (T.owners o).members

inductive MapsAlike :
    Except StoreErr (GoMap GoString GoString) → Except StoreErr (GoMap GoString GoString) → Prop
  | error (e : StoreErr) : MapsAlike (.error e) (.error e)
  | ok {m m' : GoMap GoString GoString} (same : m.get = m'.get) : MapsAlike (.ok m) (.ok m')

theorem MapsAlike.refl (a : Except StoreErr (GoMap GoString GoString)) : MapsAlike a a := by
  cases a with
  | error e => exact .error e
  | ok m => exact .ok rfl

def AnswersAlike : (c : StoreCall) → c.Answer → c.Answer → Prop
  | .getCookies _, a, a' | .cookieSHAs _, a, a' => MapsAlike a a'
  | .ownerSessions _, .ok ids, .ok ids' => ids.Perm ids'
  | _, a, a' => a = a'

structure Kept.Exact (k : Kept) (now lastAccess ttl : Int) : Prop where
  bound : 0 < k.row.bound now lastAccess ttl
  access : reread k.row.lastAccess < double lastAccess ↔ k.row.lastAccess < lastAccess

structure Timeless (T : Table) (now : Int) (c : StoreCall) : Prop where
  row : ∀ {id k}, T.sessions id = some k → k.row.reparsed = k.row
  alive : ∀ {id k}, T.sessions id = some k → k.expiry.any (· ≤ millis now) = false
  touch : ∀ {id keyID lastAccess legacyRotation ttl k},
    c = .touchSession id keyID lastAccess legacyRotation ttl → T.sessions id = some k →
      k.Exact now lastAccess ttl.milliseconds ∧
      (tonumber (formatInt k.row.lastRotation) = some 0 ↔ k.row.lastRotation = 0)
  commit : ∀ {id ctl k}, c.controls = some (id, ctl) → T.sessions id = some k →
    0 < c.lifetime.milliseconds ∧ k.Exact now ctl.lastAccess c.lifetime.milliseconds ∧
      (reread k.row.lastRotation < double ctl.lastRotation ↔ k.row.lastRotation < ctl.lastRotation)
  owner : ∀ {o id}, c = .deleteSessionByOwner o id → o ≠ 0
  unlocked : ∀ id ttl, c ≠ .lock id ttl ∧ c ≠ .unlock id

namespace Mirrors

variable {T T' : Table} {m : Memory} {now : Int} {id keyID : GoString} {k k' : Kept}

theorem found (mirrors : Mirrors T m) (held : T.sessions id = some k) : m.sessions.get id = some k.row := by
  rw [mirrors.session, held]
  rfl

theorem absent (mirrors : Mirrors T m) : m.sessions.get id = none ↔ T.sessions id = none := by
  rw [mirrors.session]
  exact Option.map_eq_none_iff

theorem unheld (mirrors : Mirrors T m) : m.keys.get keyID = none ↔ ∀ id, ¬ T.KeyLeadsTo keyID id := by
  constructor
  · intro none id held
    rw [mirrors.key.mpr held] at none
    cases none
  · intro unheld
    cases held : m.keys.get keyID with
    | none => rfl
    | some id => exact absurd (mirrors.key.mp held) (unheld id)

theorem keyed (mirrors : Mirrors T m) (held : T.sessions id = some k) :
    m.keys.get keyID = some id ↔ k.key = some keyID := by
  rw [mirrors.key]
  constructor
  · rintro ⟨k', found, keyed⟩
    rw [held] at found
    cases found
    exact keyed
  · exact fun keyed => ⟨k, held, keyed⟩

theorem replace (mirrors : Mirrors T m) {m' : Memory} {new : Option Kept} {owners : Int → Cell GoString}
    (session : ∀ id', m'.sessions.get id' = if id' = id then new.map Kept.row else m.sessions.get id')
    (key : ∀ {keyID id'}, m'.keys.get keyID = some id' ↔
      (id' = id ∧ ∃ k, new = some k ∧ k.key = some keyID) ∨ (id' ≠ id ∧ m.keys.get keyID = some id'))
    (cookies : ∀ id', (m'.getCookies id').get =
      if id' = id then new.elim (fun _ => none) Kept.cookies else (m.getCookies id').get)
    (shas : ∀ id', (m'.cookieSHAs id').get =
      if id' = id then new.elim (fun _ => none) Kept.shas else (m.cookieSHAs id').get)
    (owner : ∀ {o id}, InIndex m'.owners o id ↔ id ∈ (owners o).members) :
    Mirrors { T.put id new with owners } m' where
  session id' := by
    rw [session]
    by_cases same : id' = id
    · simp [Table.put, same]
    · simp [Table.put, same, mirrors.session]
  key := by
    intro keyID id'
    rw [key, mirrors.key]
    by_cases same : id' = id
    · subst same
      simp [Table.KeyLeadsTo, Table.put]
    · simp [Table.KeyLeadsTo, Table.put, same]
  cookies id' := by
    rw [cookies]
    by_cases same : id' = id
    · simp [Table.put, same]
    · simp [Table.put, same, mirrors.cookies]
  shas id' := by
    rw [shas]
    by_cases same : id' = id
    · simp [Table.put, same]
    · simp [Table.put, same, mirrors.shas]
  owner := owner

theorem setRow (mirrors : Mirrors T m) (held : T.sessions id = some k) (key : k'.key = k.key)
    (cookies : k'.cookies = k.cookies) (shas : k'.shas = k.shas) :
    Mirrors (T.put id (some k')) { m with sessions := m.sessions.set id k'.row } := by
  refine mirrors.replace (fun id' => GoMap.get_set ..) ?_ ?_ ?_ mirrors.owner
  · intro keyID id'
    by_cases same : id' = id
    · subst same
      simp [mirrors.keyed held, key]
    · simp [same]
  · intro id'
    change (m.getCookies id').get = _
    split_ifs with same
    · simp [same, mirrors.cookies, held, cookies]
    · rfl
  · intro id'
    change (m.cookieSHAs id').get = _
    split_ifs with same
    · simp [same, mirrors.shas, held, shas]
    · rfl

theorem putSession (mirrors : Mirrors T m) {s : Session} (fresh : T.sessions s.id = none) (ttl : Int) :
    Mirrors (T.putSession now s ttl) (m.putSession s).2 := by
  refine mirrors.replace (fun id' => GoMap.get_set ..) ?_ ?_ ?_ mirrors.owner
  · intro keyID id'
    change m.keys.get keyID = some id' ↔ _
    by_cases same : id' = s.id
    · subst same
      simp [mirrors.key, Table.KeyLeadsTo, fresh]
    · simp [same]
  · intro id'
    change (m.getCookies id').get = _
    by_cases same : id' = s.id
    · simp [same, mirrors.cookies, fresh]
    · simp [same]
  · intro id'
    change (m.cookieSHAs id').get = _
    by_cases same : id' = s.id
    · simp [same, mirrors.shas, fresh]
    · simp [same]

theorem putKey (mirrors : Mirrors T m) (held : T.sessions id = some k) (keyless : k.key = none)
    (free : ∀ id, ¬ T.KeyLeadsTo keyID id) :
    Mirrors (T.put id (some { k with key := some keyID })) { m with keys := m.keys.set keyID id } := by
  refine mirrors.replace ?_ ?_ ?_ ?_ mirrors.owner
  · intro id'
    change m.sessions.get id' = _
    split_ifs with same
    · simp [same, mirrors.session, held]
    · rfl
  · intro keyID' id'
    change (m.keys.set keyID id).get keyID' = _ ↔ _
    rw [GoMap.get_set]
    by_cases named : keyID' = keyID
    · subst named
      simp [mirrors.unheld.mpr free, eq_comm]
    · rw [if_neg named]
      by_cases same : id' = id
      · subst same
        simp [mirrors.keyed held, keyless, Ne.symm named]
      · simp [same]
  · intro id'
    change (m.getCookies id').get = _
    split_ifs with same
    · simp [same, mirrors.cookies, held]
    · rfl
  · intro id'
    change (m.cookieSHAs id').get = _
    split_ifs with same
    · simp [same, mirrors.shas, held]
    · rfl

theorem foldl_mutate (entry : CookieMutation → GoString) (cookies : List CookieMutation)
    (map : GoMap GoString GoString) :
    (cookies.foldl (Memory.mutate entry) map).get = mutate entry map.get cookies := by
  unfold mutate
  induction cookies generalizing map with
  | nil => rfl
  | cons c cookies ih =>
      rw [List.foldl_cons, List.foldl_cons, ih]
      congr 1
      funext name
      simp only [Memory.mutate, Function.update_apply]
      split_ifs with deletes named
      all_goals simp_all [GoMap.get_set, GoMap.get_delete]

theorem cascade (mirrors : Mirrors T m) {owners : Int → Cell GoString}
    {index : GoMap Int (GoMap GoString Unit)}
    (owner : ∀ {o id}, InIndex index o id ↔ id ∈ (owners o).members) :
    Mirrors { T.put id none with owners } ({ m with owners := index }.cascade id) := by
  refine mirrors.replace (fun id' => GoMap.get_delete ..) ?_ ?_ ?_ owner
  · intro keyID id'
    simp only [Memory.cascade, GoMap.get_deleteIf, Option.filter_eq_some_iff]
    by_cases same : id' = id <;> simp [same]
  · intro id'
    simp only [Memory.cascade, Memory.getCookies, GoMap.get_delete]
    split_ifs
    · rfl
    · rfl
  · intro id'
    simp only [Memory.cascade, Memory.cookieSHAs, GoMap.get_delete]
    split_ifs
    · rfl
    · rfl

theorem commit (mirrors : Mirrors T m) {c : SessionControls} {ttlMs ownerTTL : Int}
    (held : T.sessions id = some k) (current : k.key = some c.oldKeyID)
    (free : c.rotate = true → ∀ id', ¬ T.KeyLeadsTo c.newKeyID id')
    (row : (k.controlled now c ttlMs).row = Memory.controlled k.row c) :
    Mirrors { T.put id (some (k.controlled now c ttlMs)) with
        owners := if c.setOwner ∧ k.row.ownerID ≠ c.ownerID
          then T.moveOwner now k.row.ownerID c.ownerID id ownerTTL else T.owners }
      (m.commit id k.row c) := by
  refine mirrors.replace (fun id' => ?_) ?_ (fun id' => ?_) (fun id' => ?_) ?_
  · rw [Memory.commit_sessions, GoMap.get_set, ← row]
    rfl
  · intro keyID id'
    rw [Memory.commit_keys]
    by_cases rotate : c.rotate = true
    case neg =>
      have key : (k.controlled now c ttlMs).key = k.key := if_neg rotate
      rw [if_neg rotate]
      by_cases same : id' = id
      · subst same
        simp [mirrors.keyed held, key]
      · simp [same]
    have key : (k.controlled now c ttlMs).key = some c.newKeyID := if_pos rotate
    have unused := mirrors.unheld.mpr (free rotate)
    have old := (mirrors.keyed held).mpr current
    have fresh : c.newKeyID ≠ c.oldKeyID := by
      intro equal
      rw [equal, old] at unused
      cases unused
    rw [if_pos rotate, GoMap.get_delete, GoMap.get_set]
    by_cases isNew : keyID = c.newKeyID
    · subst isNew
      simp [fresh, key, unused, eq_comm]
    by_cases isOld : keyID = c.oldKeyID
    · subst isOld
      simp [key, old, fresh, eq_comm (a := id')]
    by_cases same : id' = id
    · subst same
      simp [isNew, isOld, key, mirrors.keyed held, current, Ne.symm isNew, Ne.symm isOld]
    · simp [isNew, isOld, same]
  · split_ifs with same
    · subst same
      rw [(Memory.commit_cookies ..).1, foldl_mutate, mirrors.cookies, held]
      rfl
    · simp only [Memory.getCookies, (Memory.commit_cookies_other m id k.row c same).1]
  · split_ifs with same
    · subst same
      rw [(Memory.commit_cookies ..).2, foldl_mutate, mirrors.shas, held]
      rfl
    · simp only [Memory.cookieSHAs, (Memory.commit_cookies_other m id k.row c same).2]
  · intro o id'
    rw [Memory.commit_owners]
    by_cases moved : c.setOwner = true ∧ k.row.ownerID ≠ c.ownerID
    · rw [if_pos moved, if_pos ⟨moved.1, moved.2.symm⟩, Memory.inIndex_moveOwner, Table.mem_moveOwner,
        mirrors.owner]
      constructor
      · rintro (⟨rfl, rfl⟩ | ⟨member, stays⟩)
        · exact ⟨.inr ⟨rfl, rfl⟩, fun left => moved.2 left.2.1.symm⟩
        · exact ⟨.inl member, stays⟩
      · rintro ⟨member | joined, stays⟩
        · exact .inr ⟨member, stays⟩
        · exact .inl joined
    · rw [if_neg moved, if_neg fun both => moved ⟨both.1, both.2.symm⟩, mirrors.owner]

theorem touched_row (now : Int) {lastAccess : Int} (legacyRotation ttlMs : Int)
    (access : reread k.row.lastAccess < double lastAccess ↔ k.row.lastAccess < lastAccess)
    (rotation : tonumber (formatInt k.row.lastRotation) = some 0 ↔ k.row.lastRotation = 0) :
    (k.touched now lastAccess legacyRotation ttlMs).row =
      Memory.touched k.row lastAccess legacyRotation := by
  have dated : ∀ k₁ : Kept, k₁.row.lastRotation = k.row.lastRotation →
      (k₁.dated legacyRotation).row = { k₁.row with
        lastRotation := if k.row.lastRotation = 0 then legacyRotation else k.row.lastRotation } := by
    intro k₁ same
    unfold Kept.dated
    rw [same]
    by_cases zero : k.row.lastRotation = 0
    · rw [if_pos (rotation.mpr zero), if_pos zero]
    · rw [if_neg fun text => zero (rotation.mp text), if_neg zero, ← same]
  unfold Kept.touched Kept.accessed Memory.touched
  by_cases moved : k.row.lastAccess < lastAccess
  · rw [if_pos (access.mpr moved), if_pos moved]
    exact dated _ rfl
  · rw [if_neg fun text => moved (access.mp text), if_neg moved]
    exact dated _ rfl

theorem controlled_row {c : SessionControls} {ttlMs : Int}
    (access : reread k.row.lastAccess < double c.lastAccess ↔ k.row.lastAccess < c.lastAccess)
    (rotation : reread k.row.lastRotation < double c.lastRotation ↔ k.row.lastRotation < c.lastRotation) :
    (k.controlled now c ttlMs).row = Memory.controlled k.row c := by
  simp only [Kept.controlled, Memory.controlled, access, rotation, ne_comm (a := k.row.ownerID)]

theorem ownerSessions_perm (mirrors : Mirrors T m) {o : Int} {ids : List GoString} (nodup : ids.Nodup)
    (listed : ∀ id, id ∈ ids ↔ id ∈ (T.owners o).members) : ids.Perm (m.ownerSessions o) := by
  refine (List.perm_ext_iff_of_nodup nodup (GoMap.keys_nodup _)).mpr fun id => ?_
  rw [listed, ← mirrors.owner, GoMap.mem_keys, InIndex]
  cases ((m.owners.get o).getD ∅).get id <;> simp

/-- Where time plays no part, the two stores answer alike and stay in step. -/
theorem does (mirrors : Mirrors T m) {c : StoreCall} {a : c.Answer} (does : T.Does now c a T')
    (admits : T.Admits c) (timeless : Timeless T now c) :
    Mirrors T' (m.perform c).2 ∧ AnswersAlike c a (m.perform c).1 := by
  have committed : ∀ {id ctl ttl ownerTTL} {a : Except StoreErr Unit}, c.controls = some (id, ctl) →
      ttl = c.lifetime.milliseconds → (a, T') = T.applySessionControls now id ctl ttl ownerTTL →
      Mirrors T' (m.applySessionControls id ctl).2 ∧ a = (m.applySessionControls id ctl).1 := by
    rintro id ctl _ ownerTTL a asks rfl done
    unfold Table.applySessionControls at done
    unfold Memory.applySessionControls
    cases held : T.sessions id with
    | none =>
        rw [held] at done
        rw [mirrors.absent.mpr held]
        cases done
        exact ⟨mirrors, rfl⟩
    | some k =>
        obtain ⟨positive, ⟨left, access⟩, rotation⟩ := timeless.commit asks held
        rw [held] at done
        rw [mirrors.found held]
        dsimp only at done ⊢
        rw [if_neg (not_le.mpr positive)] at done
        by_cases current : k.key = some ctl.oldKeyID
        case neg =>
          rw [if_pos current] at done
          rw [if_pos fun keyed => current ((mirrors.keyed held).mp keyed)]
          cases done
          exact ⟨mirrors, rfl⟩
        rw [if_neg (not_not.mpr current)] at done
        rw [if_neg (not_not.mpr ((mirrors.keyed held).mpr current))]
        by_cases taken : ctl.rotate = true ∧ ∃ id, T.KeyLeadsTo ctl.newKeyID id
        · have busy : m.keys.get ctl.newKeyID ≠ none := by
            obtain ⟨-, id', holds⟩ := taken
            exact fun none => mirrors.unheld.mp none id' holds
          rw [if_pos taken] at done
          rw [if_pos ⟨taken.1, busy⟩]
          cases done
          exact ⟨mirrors, rfl⟩
        · rw [if_neg taken, if_neg (not_le.mpr left)] at done
          have free : ctl.rotate = true → ∀ id', ¬ T.KeyLeadsTo ctl.newKeyID id' :=
            fun rotate id' holds => taken ⟨rotate, id', holds⟩
          rw [if_neg fun both => both.2 (mirrors.unheld.mpr (free both.1))]
          cases done
          exact ⟨mirrors.commit held current free (controlled_row access rotation), rfl⟩
  cases c with
  | putSession s ttl =>
      obtain ⟨rfl, rfl⟩ := does
      exact ⟨mirrors.putSession admits _, rfl⟩
  | touchSession id keyID lastAccess legacyRotation ttl =>
      have done : (a, T') = T.touchSession now id keyID lastAccess legacyRotation ttl.milliseconds := does
      unfold Table.touchSession at done
      simp only [Memory.perform, Memory.touchSession]
      cases held : T.sessions id with
      | none =>
          rw [held] at done
          rw [mirrors.absent.mpr held]
          cases done
          exact ⟨mirrors, rfl⟩
      | some k =>
          obtain ⟨⟨left, access⟩, rotation⟩ := timeless.touch rfl held
          rw [held] at done
          rw [mirrors.found held]
          dsimp only at done ⊢
          by_cases current : k.key = some keyID
          · rw [if_neg (not_not.mpr current), if_neg (not_le.mpr left)] at done
            have row := touched_row now legacyRotation (k.row.bound now lastAccess ttl.milliseconds) access
              rotation
            rw [if_neg (not_not.mpr ((mirrors.keyed held).mpr current)), ← row]
            cases done
            refine ⟨mirrors.setRow held ?_ ?_ ?_, rfl⟩
            all_goals
              unfold Kept.touched Kept.dated Kept.accessed
              split_ifs <;> rfl
          · rw [if_pos current] at done
            rw [if_pos fun keyed => current ((mirrors.keyed held).mp keyed)]
            cases done
            exact ⟨mirrors, rfl⟩
  | applySessionControls id ctl ttl ownerTTL => exact committed rfl rfl does
  | rotateSessionKey id oldKeyID newKeyID lastRotation ttl => exact committed rfl rfl does
  | getSession id =>
      obtain ⟨rfl, rfl⟩ := does
      refine ⟨mirrors, ?_⟩
      simp only [Memory.perform, Memory.getSession, mirrors.session]
      cases held : T'.sessions id with
      | none => rfl
      | some k => exact congrArg Except.ok (timeless.row held)
  | getKey keyID =>
      obtain ⟨⟨rfl, unheld⟩ | ⟨id, rfl, holds⟩, rfl⟩ := does
      · refine ⟨mirrors, ?_⟩
        simp only [Memory.perform, Memory.getKey, mirrors.unheld.mpr unheld]
        rfl
      · refine ⟨mirrors, ?_⟩
        simp only [Memory.perform, Memory.getKey, mirrors.key.mpr holds]
        rfl
  | getCookies id =>
      obtain ⟨⟨map, rfl, looks⟩, rfl⟩ := does
      exact ⟨mirrors, .ok (looks.trans (mirrors.cookies id).symm)⟩
  | cookieSHAs id =>
      obtain ⟨⟨map, rfl, looks⟩, rfl⟩ := does
      exact ⟨mirrors, .ok (looks.trans (mirrors.shas id).symm)⟩
  | ownerSessions o =>
      obtain ⟨⟨ids, rfl, nodup, listed⟩, rfl⟩ := does
      exact ⟨mirrors, mirrors.ownerSessions_perm nodup listed⟩
  | putKey keyID id ttl =>
      have done : (a, T') = T.putKey now keyID id := does
      unfold Table.putKey at done
      simp only [Memory.perform, Memory.putKey]
      cases held : T.sessions id with
      | none =>
          rw [held] at done
          rw [if_pos (mirrors.absent.mpr held)]
          cases done
          exact ⟨mirrors, rfl⟩
      | some k =>
          rw [held] at done
          rw [if_neg (by simp [mirrors.found held])]
          dsimp only at done
          rw [timeless.alive held, if_neg (by decide)] at done
          cases done
          exact ⟨mirrors.putKey held (admits.2 k held) admits.1, rfl⟩
  | deleteSession id =>
      obtain ⟨rfl, rfl⟩ := does
      refine ⟨mirrors.cascade fun {o id'} => ?_, rfl⟩
      cases held : T.sessions id with
      | none => simp [Table.ownerOf, held, mirrors.absent.mpr held, mirrors.owner]
      | some k =>
          have owner : T.ownerOf id = k.row.ownerID := by simp [Table.ownerOf, held]
          rw [mirrors.found held, owner]
          dsimp only
          by_cases owned : k.row.ownerID ≠ 0
          · rw [if_pos owned, if_pos owned, Memory.inIndex_prune, Table.mem_unindex, mirrors.owner]
          · rw [if_neg owned, if_neg owned, mirrors.owner]
  | deleteSessionByOwner o id =>
      have done : (a, T') = T.deleteSessionByOwner o id := does
      have pruned : ∀ {o' id'}, InIndex (Memory.prune m.owners o id) o' id' ↔
          id' ∈ (T.unindex o id o').members := by
        intro o' id'
        rw [Memory.inIndex_prune, Table.mem_unindex, mirrors.owner]
      have kept : Mirrors { T with owners := T.unindex o id } { m with owners := Memory.prune m.owners o id } :=
        { mirrors with owner := pruned }
      unfold Table.deleteSessionByOwner Table.ownerOf at done
      simp only [Memory.perform, Memory.deleteSessionByOwner]
      cases held : T.sessions id with
      | none =>
          rw [held, Option.elim_none, if_neg (timeless.owner rfl).symm] at done
          rw [mirrors.absent.mpr held]
          cases done
          exact ⟨kept, rfl⟩
      | some k =>
          rw [held, Option.elim_some] at done
          rw [mirrors.found held]
          dsimp only
          by_cases owns : k.row.ownerID = o
          · rw [if_pos owns] at done
            rw [if_neg (not_not.mpr owns)]
            cases done
            exact ⟨mirrors.cascade pruned, rfl⟩
          · rw [if_neg owns] at done
            rw [if_pos owns]
            cases done
            exact ⟨kept, rfl⟩
  | lock id ttl => exact absurd rfl (timeless.unlocked id ttl).1
  | unlock id => exact absurd rfl (timeless.unlocked id 0).2

end Mirrors

end Gosestor.Store
