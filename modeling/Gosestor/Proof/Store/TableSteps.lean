import Gosestor.Proof.Store.Integrity
import Gosestor.Proof.Store.Table

/-!
# What a call changes in the table

Every change of a session is one of five, and every new member of an owner set is a session of that
owner. What holds of the table over whole runs is shown with these.
-/

namespace Gosestor.Store

open Gosestor.Go Gosestor.Lib Gosestor.Lib.Redis

def StoreCall.lifetime : StoreCall → Duration
  | .putSession _ ttl | .touchSession _ _ _ _ ttl | .applySessionControls _ _ ttl _
  | .rotateSessionKey _ _ _ _ ttl => ttl
  | _ => 0

namespace Table

variable {T T' : Table} {now : Int} {c : StoreCall} {a : c.Answer} {id : GoString} {k k' : Kept}

/-- `k'` is what a call makes of the session `k`. -/
inductive Changes (T : Table) (now : Int) (id : GoString) (k : Kept) : StoreCall → Kept → Prop
  | touched {keyID : GoString} {lastAccess legacyRotation : Int} {ttl : Duration}
      (keyed : k.key = some keyID) (left : 0 < k.row.bound now lastAccess ttl.milliseconds) :
      Changes T now id k (.touchSession id keyID lastAccess legacyRotation ttl)
        (k.touched now lastAccess legacyRotation (k.row.bound now lastAccess ttl.milliseconds))
  | controlled {call : StoreCall} {c : SessionControls} (asks : call.controls = some (id, c))
      (keyed : k.key = some c.oldKeyID) (free : c.rotate = true → ∀ id', ¬ T.KeyLeadsTo c.newKeyID id')
      (positive : 0 < call.lifetime.milliseconds)
      (left : 0 < k.row.bound now c.lastAccess call.lifetime.milliseconds) :
      Changes T now id k call
        (k.controlled now c (k.row.bound now c.lastAccess call.lifetime.milliseconds))
  | keyed {keyID : GoString} {ttl : Duration} (alive : k.expiry.any (· ≤ millis now) = false) :
      Changes T now id k (.putKey keyID id ttl) { k with key := some keyID }

theorem Changes.key {call : StoreCall} (changes : Changes T now id k call k') {keyID : GoString}
    (keyed : k'.key = some keyID) : k.key = some keyID ∨ call.newName = some keyID ∧
      (k.key ≠ none ∨ ∃ ttl, call = .putKey keyID id ttl) := by
  cases changes with
  | touched old left =>
      refine .inl (Eq.trans ?_ keyed)
      unfold Kept.touched Kept.dated Kept.accessed
      split_ifs <;> rfl
  | @controlled call c asks old free positive left =>
      simp only [Kept.controlled] at keyed
      split_ifs at keyed with rotate
      case neg => exact .inl keyed
      cases keyed
      refine .inr ⟨?_, .inl (by simp [old])⟩
      cases call with
      | applySessionControls id₁ c₁ ttl ownerTTL =>
          cases asks
          exact if_pos rotate
      | rotateSessionKey id₁ oldKeyID newKeyID lastRotation ttl =>
          cases asks
          rfl
      | _ => cases asks
  | @keyed keyID' ttl alive =>
      cases keyed
      exact .inr ⟨rfl, .inr ⟨ttl, rfl⟩⟩

theorem applySessionControls_cases (T : Table) (now : Int) (id : GoString) (c : SessionControls)
    (ttl ownerTTL : Int) :
    (∃ e, T.applySessionControls now id c ttl ownerTTL = (.error e, T)) ∨
    ∃ k, T.sessions id = some k ∧ k.key = some c.oldKeyID ∧
      (c.rotate = true → ∀ id', ¬ T.KeyLeadsTo c.newKeyID id') ∧ 0 < ttl ∧
      0 < k.row.bound now c.lastAccess ttl ∧
      T.applySessionControls now id c ttl ownerTTL =
        (.ok (), { T.put id (some (k.controlled now c (k.row.bound now c.lastAccess ttl))) with
          owners := if c.setOwner ∧ k.row.ownerID ≠ c.ownerID
            then T.moveOwner now k.row.ownerID c.ownerID id ownerTTL else T.owners }) := by
  unfold applySessionControls
  cases found : T.sessions id with
  | none => exact .inl ⟨_, rfl⟩
  | some k =>
      dsimp only
      by_cases spent : ttl ≤ 0
      · exact .inl ⟨_, if_pos spent⟩
      by_cases keyed : k.key = some c.oldKeyID
      case neg => exact .inl ⟨_, (if_neg spent).trans (if_pos keyed)⟩
      by_cases taken : c.rotate = true ∧ ∃ id, T.KeyLeadsTo c.newKeyID id
      · exact .inl ⟨_, (if_neg spent).trans ((if_neg (not_not.mpr keyed)).trans (if_pos taken))⟩
      by_cases late : k.row.bound now c.lastAccess ttl ≤ 0
      · exact .inl ⟨_, (if_neg spent).trans ((if_neg (not_not.mpr keyed)).trans
          ((if_neg taken).trans (if_pos late)))⟩
      · exact .inr ⟨k, rfl, keyed, fun rotates id' held => taken ⟨rotates, id', held⟩, by omega, by omega,
          (if_neg spent).trans ((if_neg (not_not.mpr keyed)).trans ((if_neg taken).trans (if_neg late)))⟩

theorem touchSession_cases (T : Table) (now : Int) (id keyID : GoString)
    (lastAccess legacyRotation ttl : Int) :
    (∃ e, T.touchSession now id keyID lastAccess legacyRotation ttl = (.error e, T)) ∨
    ∃ k, T.sessions id = some k ∧ k.key = some keyID ∧ 0 < k.row.bound now lastAccess ttl ∧
      T.touchSession now id keyID lastAccess legacyRotation ttl = (.ok (), T.put id
        (some (k.touched now lastAccess legacyRotation (k.row.bound now lastAccess ttl)))) := by
  unfold touchSession
  cases found : T.sessions id with
  | none => exact .inl ⟨_, rfl⟩
  | some k =>
      dsimp only
      by_cases keyed : k.key = some keyID
      case neg => exact .inl ⟨_, if_pos keyed⟩
      by_cases late : k.row.bound now lastAccess ttl ≤ 0
      · exact .inl ⟨_, (if_neg (not_not.mpr keyed)).trans (if_pos late)⟩
      · exact .inr ⟨k, rfl, keyed, by omega, (if_neg (not_not.mpr keyed)).trans (if_neg late)⟩

theorem putKey_cases (T : Table) (now : Int) (keyID id : GoString) :
    (∃ e, T.putKey now keyID id = (.error e, T)) ∨
    ∃ k, T.sessions id = some k ∧ k.expiry.any (· ≤ millis now) = false ∧
      T.putKey now keyID id = (.ok (), T.put id (some { k with key := some keyID })) := by
  unfold putKey
  cases found : T.sessions id with
  | none => exact .inl ⟨_, rfl⟩
  | some k =>
      dsimp only
      cases ended : k.expiry.any (· ≤ millis now) with
      | true => exact .inl ⟨_, rfl⟩
      | false => exact .inr ⟨k, rfl, ended, rfl⟩

theorem put_eq_some {new : Option Kept} {id' : GoString} (found : (T.put id' new).sessions id = some k) :
    (id = id' ∧ new = some k) ∨ (id ≠ id' ∧ T.sessions id = some k) := by
  simp only [put, Function.update_apply] at found
  split_ifs at found with same
  · exact .inl ⟨same, found⟩
  · exact .inr ⟨same, found⟩

/-- A session in the table was there before, was created by the call, or was changed by it. -/
theorem Does.kept (does : T.Does now c a T') (found : T'.sessions id = some k') :
    T.sessions id = some k' ∨
    (∃ s ttl, c = .putSession s ttl ∧ s.id = id ∧ k' =
      { row := s, expiry := if 0 < ttl.milliseconds then some (millis now + ttl.milliseconds) else none }) ∨
    ∃ k, T.sessions id = some k ∧ Changes T now id k c k' := by
  have committed : ∀ {id₁ ctl ttl ownerTTL}, c.controls = some (id₁, ctl) → ttl = c.lifetime.milliseconds →
      T' = (T.applySessionControls now id₁ ctl ttl ownerTTL).2 →
      T.sessions id = some k' ∨ ∃ k, T.sessions id = some k ∧ Changes T now id k c k' := by
    rintro id₁ ctl _ ownerTTL asks rfl rfl
    obtain ⟨e, refused⟩ | ⟨k, held, keyed, free, positive, left, done⟩ :=
      T.applySessionControls_cases now id₁ ctl c.lifetime.milliseconds ownerTTL
    · rw [refused] at found
      exact .inl found
    · rw [done] at found
      obtain ⟨rfl, same⟩ | ⟨-, same⟩ := put_eq_some found
      · cases same
        exact .inr ⟨k, held, .controlled asks keyed free positive left⟩
      · exact .inl same
  cases c with
  | putSession s ttl =>
      obtain ⟨-, rfl⟩ := does
      obtain ⟨rfl, same⟩ | ⟨-, same⟩ := put_eq_some found
      · exact .inr (.inl ⟨s, ttl, rfl, rfl, (Option.some.inj same).symm⟩)
      · exact .inl same
  | touchSession id₁ keyID lastAccess legacyRotation ttl =>
      have after : T' = (T.touchSession now id₁ keyID lastAccess legacyRotation ttl.milliseconds).2 :=
        congrArg Prod.snd does
      obtain ⟨e, refused⟩ | ⟨k, held, keyed, left, done⟩ :=
        T.touchSession_cases now id₁ keyID lastAccess legacyRotation ttl.milliseconds
      · rw [after, refused] at found
        exact .inl found
      · rw [after, done] at found
        obtain ⟨rfl, same⟩ | ⟨-, same⟩ := put_eq_some found
        · cases same
          exact .inr (.inr ⟨k, held, .touched keyed left⟩)
        · exact .inl same
  | applySessionControls id₁ ctl ttl ownerTTL =>
      exact (committed rfl rfl (congrArg Prod.snd does)).imp_right .inr
  | rotateSessionKey id₁ oldKeyID newKeyID lastRotation ttl =>
      exact (committed rfl rfl (congrArg Prod.snd does)).imp_right .inr
  | deleteSession id₁ =>
      obtain ⟨-, rfl⟩ := does
      obtain ⟨-, gone⟩ | ⟨-, same⟩ := put_eq_some found
      · cases gone
      · exact .inl same
  | putKey keyID id₁ ttl =>
      have after : T' = (T.putKey now keyID id₁).2 := congrArg Prod.snd does
      obtain ⟨e, refused⟩ | ⟨k, held, alive, done⟩ := T.putKey_cases now keyID id₁
      · rw [after, refused] at found
        exact .inl found
      · rw [after, done] at found
        obtain ⟨rfl, same⟩ | ⟨-, same⟩ := put_eq_some found
        · cases same
          exact .inr (.inr ⟨k, held, .keyed alive⟩)
        · exact .inl same
  | deleteSessionByOwner o id₁ =>
      have after : T' = (T.deleteSessionByOwner o id₁).2 := congrArg Prod.snd does
      rw [after, deleteSessionByOwner] at found
      split_ifs at found
      · obtain ⟨-, gone⟩ | ⟨-, same⟩ := put_eq_some found
        · cases gone
        · exact .inl same
      · exact .inl found
  | getSession id₁ | getKey keyID | getCookies id₁ | cookieSHAs id₁ | ownerSessions o =>
      obtain ⟨-, rfl⟩ := does
      exact .inl found
  | lock id₁ ttl | unlock id₁ =>
      obtain rfl := does
      exact .inl found

theorem unindex_of_ne {o o' : Int} (other : o ≠ o') (id : GoString) : T.unindex o' id o = T.owners o :=
  Function.update_of_ne other ..

theorem mem_unindex {o o' : Int} {x : GoString} :
    x ∈ (T.unindex o' id o).members ↔ x ∈ (T.owners o).members ∧ ¬ (o = o' ∧ x = id) := by
  by_cases same : o = o'
  · subst same
    simp [unindex]
  · simp [unindex_of_ne same, same]

theorem mem_index {o o' ownerTTL : Int} {x : GoString} :
    x ∈ ((T.index now o' id ownerTTL).owners o).members ↔
      x ∈ (T.owners o).members ∨ (o = o' ∧ x = id) := by
  by_cases same : o = o'
  · subst same
    simp [index, Cell.members, or_comm]
  · simp [index, same]

theorem mem_moveOwner {previous o o' ownerTTL : Int} {x : GoString} :
    x ∈ (T.moveOwner now previous o' id ownerTTL o).members ↔
      (x ∈ (T.owners o).members ∨ (o = o' ∧ x = id)) ∧ ¬ (previous ≠ 0 ∧ o = previous ∧ x = id) := by
  unfold moveOwner
  split_ifs with owned
  · rw [mem_unindex, mem_index]
    simp [owned]
  · rw [mem_index]
    simp [not_not.mp owned]

/-- A member of an owner set was there before, or is the session of the call. -/
theorem Does.indexed (does : T.Does now c a T') {o : Int} (member : id ∈ (T'.owners o).members) :
    id ∈ (T.owners o).members ∨ ∃ k, T'.sessions id = some k ∧ k.row.ownerID = o := by
  have committed : ∀ {id₁ ctl ttl ownerTTL}, T' = (T.applySessionControls now id₁ ctl ttl ownerTTL).2 →
      id ∈ (T.owners o).members ∨ ∃ k, T'.sessions id = some k ∧ k.row.ownerID = o := by
    rintro id₁ ctl ttl ownerTTL rfl
    obtain ⟨e, refused⟩ | ⟨k, held, keyed, free, positive, left, done⟩ :=
      T.applySessionControls_cases now id₁ ctl ttl ownerTTL
    · rw [refused] at member
      exact .inl member
    · rw [done] at member ⊢
      dsimp only at member ⊢
      split_ifs at member with moved
      · obtain earlier | ⟨rfl, rfl⟩ := (mem_moveOwner.mp member).1
        · exact .inl earlier
        · exact .inr ⟨_, Function.update_self .., if_pos moved⟩
      · exact .inl member
  cases c with
  | putSession s ttl =>
      obtain ⟨-, rfl⟩ := does
      exact .inl member
  | touchSession id₁ keyID lastAccess legacyRotation ttl =>
      have after : T' = (T.touchSession now id₁ keyID lastAccess legacyRotation ttl.milliseconds).2 :=
        congrArg Prod.snd does
      obtain ⟨e, refused⟩ | ⟨k, held, keyed, left, done⟩ :=
        T.touchSession_cases now id₁ keyID lastAccess legacyRotation ttl.milliseconds
      · rw [after, refused] at member
        exact .inl member
      · rw [after, done] at member
        exact .inl member
  | applySessionControls id₁ ctl ttl ownerTTL => exact committed (congrArg Prod.snd does)
  | rotateSessionKey id₁ oldKeyID newKeyID lastRotation ttl => exact committed (congrArg Prod.snd does)
  | deleteSession id₁ =>
      obtain ⟨-, rfl⟩ := does
      simp only [deleteSession] at member
      split_ifs at member
      · exact .inl (mem_unindex.mp member).1
      · exact .inl member
  | putKey keyID id₁ ttl =>
      have after : T' = (T.putKey now keyID id₁).2 := congrArg Prod.snd does
      obtain ⟨e, refused⟩ | ⟨k, held, alive, done⟩ := T.putKey_cases now keyID id₁
      · rw [after, refused] at member
        exact .inl member
      · rw [after, done] at member
        exact .inl member
  | deleteSessionByOwner o' id₁ =>
      have after : T' = (T.deleteSessionByOwner o' id₁).2 := congrArg Prod.snd does
      rw [after, deleteSessionByOwner] at member
      split_ifs at member
      · exact .inl (mem_unindex.mp member).1
      · exact .inl (mem_unindex.mp member).1
  | getSession id₁ | getKey keyID | getCookies id₁ | cookieSHAs id₁ | ownerSessions o' =>
      obtain ⟨-, rfl⟩ := does
      exact .inl member
  | lock id₁ ttl | unlock id₁ =>
      obtain rfl := does
      exact .inl member

end Table

end Gosestor.Store
