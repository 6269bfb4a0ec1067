import Gosestor.Store.Memory

/-!
# What the Memory operations write, and the invariant they keep
-/

namespace Gosestor.Store

open Gosestor.Go Gosestor.Lib

/-! ## The owner index -/

def InIndex (owners : GoMap Int (GoMap GoString Unit)) (owner : Int) (id : GoString) : Prop :=
  ((owners.get owner).getD ∅).get id = some ()

namespace Memory

theorem inIndex_index (owners : GoMap Int (GoMap GoString Unit)) (owner o : Int)
    (id s : GoString) :
    InIndex (index owners owner id) o s ↔ (o = owner ∧ s = id) ∨ InIndex owners o s := by
  unfold InIndex index
  rw [GoMap.get_set]
  by_cases same : o = owner
  · subst same
    simp only [if_true, Option.getD_some, GoMap.get_set, true_and]
    by_cases it : s = id <;> simp [it]
  · simp [same]

theorem inIndex_prune (owners : GoMap Int (GoMap GoString Unit)) (owner o : Int)
    (id s : GoString) :
    InIndex (prune owners owner id) o s ↔ InIndex owners o s ∧ ¬ (o = owner ∧ s = id) := by
  unfold InIndex prune
  cases found : owners.get owner with
  | none =>
      by_cases same : o = owner
      · subst same
        simp [found]
      · simp [same]
  | some set =>
      simp only [GoMap.get_set]
      by_cases same : o = owner
      · subst same
        simp only [if_true, Option.getD_some, found, GoMap.get_delete, true_and]
        by_cases it : s = id <;> simp [it]
      · simp [same]

theorem inIndex_unindex (owners : GoMap Int (GoMap GoString Unit)) (owner o : Int)
    (id s : GoString) :
    InIndex (unindex owners owner id) o s ↔ InIndex owners o s ∧ ¬ (o = owner ∧ s = id) := by
  rw [← inIndex_prune]
  unfold InIndex unindex prune
  cases found : owners.get owner with
  | none => rfl
  | some set =>
      simp only
      split_ifs with empty
      · rw [GoMap.len_eq_zero_iff] at empty
        simp only [GoMap.get_set, GoMap.get_delete]
        by_cases same : o = owner
        · simp [same, empty s]
        · simp [same]
      · rfl

theorem inIndex_moveOwner (owners : GoMap Int (GoMap GoString Unit)) (previous next o : Int)
    (id s : GoString) :
    InIndex (moveOwner owners id previous next) o s ↔ (o = next ∧ s = id) ∨
      (InIndex owners o s ∧ ¬ (previous ≠ 0 ∧ o = previous ∧ s = id)) := by
  unfold moveOwner
  rw [inIndex_index]
  by_cases zero : previous = 0
  · simp [zero]
  · simp [zero, inIndex_unindex]

/-! ## The writes of a commit -/

section Cookies

variable (id : GoString) (cookies : List CookieMutation) (m : Memory)

theorem foldl_applyCookie_sessions :
    (cookies.foldl (applyCookie id) m).sessions = m.sessions := by
  induction cookies generalizing m with
  | nil => rfl
  | cons c cs ih => rw [List.foldl_cons, ih]; unfold applyCookie; split_ifs <;> rfl

theorem foldl_applyCookie_keys : (cookies.foldl (applyCookie id) m).keys = m.keys := by
  induction cookies generalizing m with
  | nil => rfl
  | cons c cs ih => rw [List.foldl_cons, ih]; unfold applyCookie; split_ifs <;> rfl

theorem foldl_applyCookie_owners : (cookies.foldl (applyCookie id) m).owners = m.owners := by
  induction cookies generalizing m with
  | nil => rfl
  | cons c cs ih => rw [List.foldl_cons, ih]; unfold applyCookie; split_ifs <;> rfl

theorem CookieTable.put_of_ne {table : CookieTable} {id x name value : GoString} (ne : x ≠ id) :
    (CookieTable.put table id name value).get x = table.get x :=
  GoMap.get_set_of_ne ne

theorem CookieTable.drop_of_ne {table : CookieTable} {id x name : GoString} (ne : x ≠ id) :
    (CookieTable.drop table id name).get x = table.get x := by
  unfold CookieTable.drop
  cases table.get id with
  | none => rfl
  | some cookies => exact GoMap.get_set_of_ne ne

theorem foldl_applyCookie_other {x : GoString} (ne : x ≠ id) :
    (cookies.foldl (applyCookie id) m).cookies.get x = m.cookies.get x ∧
      (cookies.foldl (applyCookie id) m).shas.get x = m.shas.get x := by
  induction cookies generalizing m with
  | nil => exact ⟨rfl, rfl⟩
  | cons c cs ih =>
      rw [List.foldl_cons]
      refine ⟨(ih _).1.trans ?_, (ih _).2.trans ?_⟩
      all_goals unfold applyCookie; split_ifs
      · exact CookieTable.drop_of_ne ne
      · exact CookieTable.put_of_ne ne
      · exact CookieTable.drop_of_ne ne
      · exact CookieTable.put_of_ne ne

end Cookies

section Commit

variable (m : Memory) (id : GoString) (s : Session) (c : SessionControls)

theorem commit_sessions : (m.commit id s c).sessions = m.sessions.set id (controlled s c) := by
  simp only [commit, foldl_applyCookie_sessions]

theorem commit_keys : (m.commit id s c).keys =
    if c.rotate then (m.keys.set c.newKeyID id).delete c.oldKeyID else m.keys := by
  simp only [commit, foldl_applyCookie_keys]

theorem commit_owners : (m.commit id s c).owners =
    if c.setOwner ∧ c.ownerID ≠ s.ownerID then moveOwner m.owners id s.ownerID c.ownerID
    else m.owners := by
  simp only [commit, foldl_applyCookie_owners]

theorem commit_cookies_other {x : GoString} (ne : x ≠ id) :
    (m.commit id s c).cookies.get x = m.cookies.get x ∧
      (m.commit id s c).shas.get x = m.shas.get x := by
  simp only [commit]
  exact foldl_applyCookie_other id c.cookies _ ne

end Commit

/-- What `ApplySessionControls` did: nothing, with an error, or its commit. -/
theorem applySessionControls_cases (m : Memory) (id : GoString) (c : SessionControls) :
    ((m.applySessionControls id c).2 = m ∧ ∃ e, (m.applySessionControls id c).1 = .error e) ∨
    ∃ s, m.sessions.get id = some s ∧ m.keys.get c.oldKeyID = some id ∧
      (c.rotate → m.keys.get c.newKeyID = none) ∧
      m.applySessionControls id c = (.ok (), m.commit id s c) := by
  unfold applySessionControls
  cases row : m.sessions.get id with
  | none => exact .inl ⟨rfl, _, rfl⟩
  | some s =>
      simp only
      split_ifs with stale taken
      · exact .inl ⟨rfl, _, rfl⟩
      · exact .inl ⟨rfl, _, rfl⟩
      · refine .inr ⟨s, rfl, not_not.mp stale, fun rotate => ?_, rfl⟩
        by_contra occupied
        exact taken ⟨rotate, occupied⟩

theorem touchSession_cases (m : Memory) (id keyID : GoString) (lastAccess legacy : Int) :
    ((m.touchSession id keyID lastAccess legacy).2 = m ∧
      ∃ e, (m.touchSession id keyID lastAccess legacy).1 = .error e) ∨
    ∃ s, m.sessions.get id = some s ∧ m.keys.get keyID = some id ∧
      m.touchSession id keyID lastAccess legacy =
        (.ok (), { m with sessions := m.sessions.set id (touched s lastAccess legacy) }) := by
  unfold touchSession
  cases row : m.sessions.get id with
  | none => exact .inl ⟨rfl, _, rfl⟩
  | some s =>
      simp only
      split_ifs with stale
      · exact .inl ⟨rfl, _, rfl⟩
      · exact .inr ⟨s, rfl, not_not.mp stale, rfl⟩

theorem perform_error {m : Memory} {c : StoreCall} {e : StoreErr}
    (failed : (m.perform c).1 = .error e) : (m.perform c).2 = m := by
  cases c with
  | touchSession id keyID lastAccess legacy ttl =>
      rcases touchSession_cases m id keyID lastAccess legacy with ⟨same, -⟩ | ⟨s, -, -, done⟩
      · exact same
      · simp [perform, done] at failed
  | applySessionControls id controls sessionTTL ownerTTL =>
      rcases applySessionControls_cases m id controls with ⟨same, -⟩ | ⟨s, -, -, -, done⟩
      · exact same
      · simp [perform, done] at failed
  | rotateSessionKey id oldKeyID newKeyID lastRotation ttl =>
      rcases applySessionControls_cases m id
        { lastRotation, oldKeyID, newKeyID, rotate := true } with ⟨same, -⟩ | ⟨s, -, -, -, done⟩
      · exact same
      · simp [perform, rotateSessionKey, done] at failed
  | putKey keyID sessionID ttl =>
      by_cases row : m.sessions.get sessionID = none
      · simp [perform, putKey, row]
      · simp [perform, putKey, row] at failed
  | deleteSessionByOwner owner id =>
      simp only [perform, deleteSessionByOwner] at failed
      split at failed
      · cases failed
      · split_ifs at failed
  | lock id ttl =>
      simp only [perform, lock] at failed
      split_ifs at failed
  | putSession s ttl | deleteSession id | unlock id => cases failed
  | _ => rfl

/-! ## The invariant -/

def Timely (m : Memory) : Prop := ∀ {s row}, m.sessions.get s = some row → 0 ≤ row.lastRotation

structure WF (m : Memory) : Prop where
  keyLive : ∀ {k s}, m.keys.get k = some s → m.sessions.get s ≠ none
  keyUnique : ∀ {k k' s}, m.keys.get k = some s → m.keys.get k' = some s → k = k'
  cookiesLive : ∀ {s}, m.cookies.get s ≠ none → m.sessions.get s ≠ none
  shasLive : ∀ {s}, m.shas.get s ≠ none → m.sessions.get s ≠ none
  ownerNonneg : ∀ {s row}, m.sessions.get s = some row → 0 ≤ row.ownerID
  indexed : ∀ {o s}, InIndex m.owners o s ↔
    ∃ row, m.sessions.get s = some row ∧ row.ownerID = o ∧ 0 < o
  timely : m.Timely

theorem newMemory_wf : newMemory.WF where
  keyLive h := by cases h
  keyUnique h := by cases h
  cookiesLive h := (h rfl).elim
  shasLive h := (h rfl).elim
  ownerNonneg h := by cases h
  indexed := by
    intro o s
    constructor
    · intro h
      cases h
    · rintro ⟨row, h, -⟩
      cases h
  timely h := by cases h

theorem WF.setRow {m : Memory} (wf : m.WF) {id : GoString} {s s' : Session}
    (row : m.sessions.get id = some s) (owner : s'.ownerID = s.ownerID)
    (epoch : 0 ≤ s'.lastRotation) :
    ({ m with sessions := m.sessions.set id s' } : Memory).WF where
  keyLive := by
    intro k x h
    simp only [GoMap.get_set]
    split_ifs with same
    · simp
    · exact wf.keyLive h
  keyUnique := wf.keyUnique
  cookiesLive := by
    intro x h
    simp only [GoMap.get_set]
    split_ifs with same
    · simp
    · exact wf.cookiesLive h
  shasLive := by
    intro x h
    simp only [GoMap.get_set]
    split_ifs with same
    · simp
    · exact wf.shasLive h
  ownerNonneg := by
    intro x r h
    simp only [GoMap.get_set] at h
    split_ifs at h with same
    · cases h
      rw [owner]
      exact wf.ownerNonneg row
    · exact wf.ownerNonneg h
  indexed := by
    intro o x
    rw [wf.indexed]
    simp only [GoMap.get_set]
    split_ifs with same
    · subst same
      simp [row, owner]
    · rfl
  timely := by
    intro x r h
    simp only [GoMap.get_set] at h
    split_ifs at h with same
    · cases h
      exact epoch
    · exact wf.timely h

theorem WF.putSession {m : Memory} (wf : m.WF) {s : Session} (fresh : m.sessions.get s.id = none)
    (owner : s.ownerID = 0) (epoch : 0 ≤ s.lastRotation) : (m.putSession s).2.WF where
  keyLive := by
    intro k x h
    simp only [Memory.putSession, GoMap.get_set]
    split_ifs with same
    · simp
    · exact wf.keyLive h
  keyUnique := wf.keyUnique
  cookiesLive := by
    intro x h
    simp only [Memory.putSession, GoMap.get_set]
    split_ifs with same
    · simp
    · exact wf.cookiesLive h
  shasLive := by
    intro x h
    simp only [Memory.putSession, GoMap.get_set]
    split_ifs with same
    · simp
    · exact wf.shasLive h
  ownerNonneg := by
    intro x r h
    simp only [Memory.putSession, GoMap.get_set] at h
    split_ifs at h with same
    · cases h
      exact owner.ge
    · exact wf.ownerNonneg h
  indexed := by
    intro o x
    simp only [Memory.putSession]
    rw [wf.indexed]
    simp only [GoMap.get_set]
    split_ifs with same
    · subst same
      simp only [fresh, Option.some.injEq, exists_eq_left', owner, reduceCtorEq, false_and,
        exists_false, false_iff, not_and]
      rintro rfl
      exact lt_irrefl 0
    · rfl
  timely := by
    intro x r h
    simp only [Memory.putSession, GoMap.get_set] at h
    split_ifs at h with same
    · cases h
      exact epoch
    · exact wf.timely h

theorem WF.putKey {m : Memory} (wf : m.WF) {k s : GoString}
    (keyless : ∀ k', m.keys.get k' ≠ some s) : (m.putKey k s).2.WF := by
  unfold Memory.putKey
  split_ifs with absent
  · exact wf
  · refine { wf with keyLive := ?_, keyUnique := ?_ }
    · intro k' x h
      simp only [GoMap.get_set] at h
      split_ifs at h with same
      · cases h
        exact absent
      · exact wf.keyLive h
    · intro k₁ k₂ x h₁ h₂
      simp only [GoMap.get_set] at h₁ h₂
      split_ifs at h₁ h₂ with first second second
      · exact first.trans second.symm
      · cases h₁
        exact (keyless k₂ h₂).elim
      · cases h₂
        exact (keyless k₁ h₁).elim
      · exact wf.keyUnique h₁ h₂

theorem WF.commit {m : Memory} (wf : m.WF) {id : GoString} {s : Session} {c : SessionControls}
    (row : m.sessions.get id = some s) (held : m.keys.get c.oldKeyID = some id)
    (owner : c.setOwner → 0 < c.ownerID) :
    (m.commit id s c).WF where
  keyLive := by
    intro k x h
    rw [commit_keys] at h
    rw [commit_sessions, GoMap.get_set]
    split_ifs with same
    · simp
    · split_ifs at h with rotate
      · simp only [GoMap.get_delete, GoMap.get_set] at h
        split_ifs at h with old new
        · cases h
          exact (same rfl).elim
        · exact wf.keyLive h
      · exact wf.keyLive h
  keyUnique := by
    intro k₁ k₂ x h₁ h₂
    rw [commit_keys] at h₁ h₂
    split_ifs at h₁ h₂ with rotate
    · simp only [GoMap.get_delete, GoMap.get_set] at h₁ h₂
      -- Apart from the new key, only the old one mapped to the session, and it is gone.
      have other : ∀ {k}, k ≠ c.oldKeyID → m.keys.get k ≠ some id :=
        fun ne h => ne (wf.keyUnique h held)
      split_ifs at h₁ h₂ with old₁ new₁ old₂ new₂ old₂ new₂
      · exact new₁.trans new₂.symm
      · cases h₁
        exact (other old₂ h₂).elim
      · cases h₂
        exact (other old₁ h₁).elim
      · exact wf.keyUnique h₁ h₂
    · exact wf.keyUnique h₁ h₂
  cookiesLive := by
    intro x h
    rw [commit_sessions, GoMap.get_set]
    split_ifs with same
    · simp
    · rw [(commit_cookies_other m id s c same).1] at h
      exact wf.cookiesLive h
  shasLive := by
    intro x h
    rw [commit_sessions, GoMap.get_set]
    split_ifs with same
    · simp
    · rw [(commit_cookies_other m id s c same).2] at h
      exact wf.shasLive h
  ownerNonneg := by
    intro x r h
    rw [commit_sessions, GoMap.get_set] at h
    split_ifs at h with same
    · cases h
      simp only [controlled]
      split_ifs with changed
      · exact (owner changed.1).le
      · exact wf.ownerNonneg row
    · exact wf.ownerNonneg h
  indexed := by
    intro o x
    rw [commit_owners, commit_sessions, GoMap.get_set]
    by_cases changed : c.setOwner ∧ c.ownerID ≠ s.ownerID
    · rw [if_pos changed, inIndex_moveOwner, wf.indexed]
      have positive := owner changed.1
      have nonneg := wf.ownerNonneg row
      by_cases same : x = id
      · subst same
        simp only [row, Option.some.injEq, exists_eq_left', if_true, controlled, if_pos changed,
          and_true]
        constructor
        · rintro (rfl | ⟨⟨rfl, pos⟩, gone⟩)
          · exact ⟨rfl, positive⟩
          · exact (gone ⟨pos.ne', rfl⟩).elim
        · rintro ⟨rfl, -⟩
          exact .inl rfl
      · simp [same]
    · rw [if_neg changed, wf.indexed]
      split_ifs with same
      · subst same
        simp [row, controlled, changed]
      · rfl
  timely := by
    intro x r h
    rw [commit_sessions, GoMap.get_set] at h
    split_ifs at h with same
    · cases h
      have epoch := wf.timely row
      simp only [controlled]
      split_ifs <;> omega
    · exact wf.timely h

theorem WF.deleted {m : Memory} (wf : m.WF) {id : GoString}
    {owners : GoMap Int (GoMap GoString Unit)}
    (pruned : ∀ {o s}, InIndex owners o s ↔ InIndex m.owners o s ∧ s ≠ id) :
    ({ m with owners }.cascade id).WF where
  keyLive := by
    intro k x h
    simp only [cascade, GoMap.get_deleteIf, Option.filter_eq_some_iff] at h
    obtain ⟨held, ne⟩ := h
    simp only [cascade]
    rw [GoMap.get_delete_of_ne (by simpa using ne)]
    exact wf.keyLive held
  keyUnique := by
    intro k₁ k₂ x h₁ h₂
    simp only [cascade, GoMap.get_deleteIf, Option.filter_eq_some_iff] at h₁ h₂
    exact wf.keyUnique h₁.1 h₂.1
  cookiesLive := by
    intro x h
    simp only [cascade, GoMap.get_delete] at h ⊢
    split_ifs at h ⊢ with same
    · exact (h rfl).elim
    · exact wf.cookiesLive h
  shasLive := by
    intro x h
    simp only [cascade, GoMap.get_delete] at h ⊢
    split_ifs at h ⊢ with same
    · exact (h rfl).elim
    · exact wf.shasLive h
  ownerNonneg := by
    intro x r h
    simp only [cascade, GoMap.get_delete] at h
    split_ifs at h with same
    exact wf.ownerNonneg h
  indexed := by
    intro o x
    simp only [cascade, GoMap.get_delete]
    rw [pruned, wf.indexed]
    by_cases same : x = id <;> simp [same]
  timely := by
    intro x r h
    simp only [cascade, GoMap.get_delete] at h
    split_ifs at h with same
    exact wf.timely h

theorem WF.deleteSession {m : Memory} (wf : m.WF) (id : GoString) : (m.deleteSession id).2.WF := by
  unfold Memory.deleteSession
  apply wf.deleted
  intro o s
  -- A row under owner 0 has no index entry to prune.
  have unowned : (∀ row, m.sessions.get id = some row → row.ownerID = 0) →
      (InIndex m.owners o s ↔ InIndex m.owners o s ∧ s ≠ id) := by
    intro anonymous
    refine ⟨fun h => ⟨h, ?_⟩, And.left⟩
    rintro rfl
    obtain ⟨row, found, rfl, positive⟩ := wf.indexed.mp h
    exact positive.ne' (anonymous row found)
  cases row : m.sessions.get id with
  | none => exact unowned (by simp [row])
  | some r =>
      simp only
      split_ifs with anonymous
      · rw [inIndex_prune]
        refine and_congr_right fun h => not_congr ⟨And.right, ?_⟩
        rintro rfl
        obtain ⟨r', found, rfl, -⟩ := wf.indexed.mp h
        rw [row] at found
        cases found
        exact ⟨rfl, rfl⟩
      · exact unowned (by simpa [row] using anonymous)

theorem WF.deleteSessionByOwner {m : Memory} (wf : m.WF) (owner : Int) (id : GoString) :
    (m.deleteSessionByOwner owner id).2.WF := by
  -- A pruned index entry was the owner's own or was not there.
  have stay : (∀ row, m.sessions.get id = some row → row.ownerID ≠ owner) →
      ({ m with owners := prune m.owners owner id } : Memory).WF := by
    intro foreign
    refine { wf with indexed := ?_ }
    intro o s
    rw [inIndex_prune, wf.indexed, and_iff_left_iff_imp]
    rintro ⟨row, found, rfl, -⟩ ⟨same, rfl⟩
    exact foreign row found same
  unfold Memory.deleteSessionByOwner
  simp only
  cases row : m.sessions.get id with
  | none => exact stay (by simp [row])
  | some r =>
      simp only
      split_ifs with foreign
      · exact stay (by simpa [row] using foreign)
      · apply wf.deleted
        intro o s
        rw [inIndex_prune]
        refine and_congr_right fun h => not_congr ⟨And.right, ?_⟩
        rintro rfl
        obtain ⟨r', found, rfl, -⟩ := wf.indexed.mp h
        rw [row] at found
        cases found
        exact ⟨not_not.mp foreign, rfl⟩

end Memory

/-! ## Every call -/

def StoreCall.newName : StoreCall → Option GoString
  | .putSession session _ => some session.id
  | .putKey keyID _ _ => some keyID
  | .applySessionControls _ c _ _ => if c.rotate then some c.newKeyID else none
  | .rotateSessionKey _ _ newKeyID _ _ => some newKeyID
  | _ => none

def StoreCall.Safe (m : Memory) : StoreCall → Prop
  | .putSession session _ =>
      m.sessions.get session.id = none ∧ session.ownerID = 0 ∧ 0 ≤ session.lastRotation
  | .touchSession _ _ _ legacyRotation _ => 0 ≤ legacyRotation
  | .putKey _ sessionID _ => ∀ k, m.keys.get k ≠ some sessionID
  | .applySessionControls _ c _ _ => c.setOwner → 0 < c.ownerID
  | _ => True

namespace Memory

variable {m : Memory} {c : StoreCall}

theorem WF.applySessionControls (wf : m.WF) (id : GoString) {c : SessionControls}
    (owner : c.setOwner → 0 < c.ownerID) : (m.applySessionControls id c).2.WF := by
  obtain ⟨same, -⟩ | ⟨s, row, held, -, done⟩ := applySessionControls_cases m id c
  · rw [same]
    exact wf
  · rw [done]
    exact wf.commit row held owner

theorem WF.perform (wf : m.WF) (safe : c.Safe m) : (m.perform c).2.WF := by
  cases c with
  | putSession session ttl => exact wf.putSession safe.1 safe.2.1 safe.2.2
  | touchSession id keyID lastAccess legacy ttl =>
      obtain ⟨same, -⟩ | ⟨s, row, -, done⟩ := touchSession_cases m id keyID lastAccess legacy
      · simp only [Memory.perform, same]
        exact wf
      · simp only [Memory.perform, done]
        refine wf.setRow row rfl ?_
        simp only [touched]
        split_ifs
        · exact safe
        · exact wf.timely row
  | applySessionControls id controls sessionTTL ownerTTL => exact wf.applySessionControls id safe
  | rotateSessionKey id oldKeyID newKeyID lastRotation ttl =>
      exact wf.applySessionControls id (fun set => by cases set)
  | deleteSession id => exact wf.deleteSession id
  | putKey keyID id ttl => exact wf.putKey safe
  | deleteSessionByOwner owner id => exact wf.deleteSessionByOwner owner id
  | lock id ttl =>
      simp only [Memory.perform, Memory.lock]
      split_ifs
      · exact wf
      · exact { wf with }
  | unlock id => exact { wf with }
  | _ => exact wf

theorem commit_sessions_live {id x : GoString} {s : Session} {c : SessionControls}
    (row : m.sessions.get id = some s) :
    (m.commit id s c).sessions.get x ≠ none ↔ m.sessions.get x ≠ none := by
  rw [commit_sessions, GoMap.get_set]
  split_ifs with same
  · subst same
    simp [row]
  · rfl

theorem cascade_sessions {id x : GoString} :
    (m.cascade id).sessions.get x ≠ none → m.sessions.get x ≠ none := by
  simp only [cascade, GoMap.get_delete]
  split_ifs
  · exact fun h => absurd rfl h
  · exact fun h => h

theorem applySessionControls_sessions {id x : GoString} {c : SessionControls} :
    (m.applySessionControls id c).2.sessions.get x ≠ none ↔ m.sessions.get x ≠ none := by
  obtain ⟨same, -⟩ | ⟨s, row, -, -, done⟩ := applySessionControls_cases m id c
  · rw [same]
  · rw [done]
    exact commit_sessions_live row

/-- Only `PutSession` creates a row. -/
theorem perform_sessions {x : GoString} (live : (m.perform c).2.sessions.get x ≠ none) :
    m.sessions.get x ≠ none ∨ c.newName = some x := by
  cases c with
  | putSession session ttl =>
      simp only [Memory.perform, Memory.putSession, GoMap.get_set] at live
      split_ifs at live with same
      · exact .inr (congrArg some same.symm)
      · exact .inl live
  | touchSession id keyID lastAccess legacy ttl =>
      obtain ⟨same, -⟩ | ⟨s, row, -, done⟩ := touchSession_cases m id keyID lastAccess legacy
      · simp only [Memory.perform, same] at live
        exact .inl live
      · simp only [Memory.perform, done, GoMap.get_set] at live
        split_ifs at live with same
        · subst same
          simp [row]
        · exact .inl live
  | applySessionControls id controls sessionTTL ownerTTL =>
      exact .inl (applySessionControls_sessions.mp live)
  | rotateSessionKey id oldKeyID newKeyID lastRotation ttl =>
      exact .inl (applySessionControls_sessions.mp live)
  | deleteSession id => exact .inl (cascade_sessions live)
  | putKey keyID id ttl =>
      simp only [Memory.perform, Memory.putKey] at live
      split_ifs at live
      all_goals exact .inl live
  | deleteSessionByOwner owner id =>
      simp only [Memory.perform, Memory.deleteSessionByOwner] at live
      split at live
      · exact .inl live
      · split_ifs at live
        · exact .inl live
        · exact .inl (cascade_sessions live)
  | lock id ttl =>
      simp only [Memory.perform, Memory.lock] at live
      split_ifs at live
      all_goals exact .inl live
  | _ => exact .inl live

theorem cascade_keys {id k s : GoString} (held : (m.cascade id).keys.get k = some s) :
    m.keys.get k = some s := by
  simp only [cascade, GoMap.get_deleteIf, Option.filter_eq_some_iff] at held
  exact held.1

theorem applySessionControls_keys {id k s : GoString} {c : SessionControls}
    (held : (m.applySessionControls id c).2.keys.get k = some s) :
    m.keys.get k = some s ∨
      (c.rotate ∧ c.newKeyID = k ∧ s = id ∧ m.keys.get c.oldKeyID = some s) := by
  obtain ⟨same, -⟩ | ⟨row, -, current, -, done⟩ := applySessionControls_cases m id c
  · rw [same] at held
    exact .inl held
  · rw [done, commit_keys] at held
    split_ifs at held with rotate
    · simp only [GoMap.get_delete, GoMap.get_set] at held
      split_ifs at held with old new
      · cases held
        exact .inr ⟨rotate, new.symm, rfl, current⟩
      · exact .inl held
    · exact .inl held

theorem cascade_row {id x : GoString} {row : Session}
    (after : (m.cascade id).sessions.get x = some row) : m.sessions.get x = some row := by
  simp only [cascade, GoMap.get_delete] at after
  split_ifs at after
  exact after

/-- A row keeps its labels, unless it is put anew or `ApplySessionControls` sets them. -/
theorem perform_labels {x : GoString} {row row' : Session} (before : m.sessions.get x = some row)
    (after : (m.perform c).2.sessions.get x = some row') :
    row'.labels = row.labels ∨ c.newName = some x ∨
      ∃ controls ttl ownerTTL, c = .applySessionControls x controls ttl ownerTTL ∧
        controls.setLabels = true ∧ m.keys.get controls.oldKeyID = some x ∧
        (controls.rotate = true → (m.perform c).2.keys.get controls.oldKeyID = none) := by
  have still : ∀ {row' : Session}, m.sessions.get x = some row' → row'.labels = row.labels := by
    intro row' same
    rw [before] at same
    cases same
    rfl
  cases c with
  | putSession session ttl =>
      simp only [Memory.perform, Memory.putSession, GoMap.get_set] at after
      split_ifs at after with same
      · exact .inr (.inl (congrArg some same.symm))
      · exact .inl (still after)
  | touchSession id keyID lastAccess legacy ttl =>
      obtain ⟨same, -⟩ | ⟨s, found, -, done⟩ := touchSession_cases m id keyID lastAccess legacy
      · simp only [Memory.perform, same] at after
        exact .inl (still after)
      · simp only [Memory.perform, done, GoMap.get_set] at after
        split_ifs at after with same
        · subst same
          cases after
          have kept : s.labels = row.labels := still found
          exact .inl kept
        · exact .inl (still after)
  | applySessionControls id controls ttl ownerTTL =>
      obtain ⟨same, -⟩ | ⟨s, found, current, -, done⟩ := applySessionControls_cases m id controls
      · simp only [Memory.perform, same] at after
        exact .inl (still after)
      · simp only [Memory.perform, done, commit_sessions, GoMap.get_set] at after
        split_ifs at after with same
        · subst same
          cases after
          by_cases set : controls.setLabels = true
          · refine .inr (.inr ⟨controls, ttl, ownerTTL, rfl, set, current, fun rotate => ?_⟩)
            simp only [Memory.perform, done, commit_keys, rotate, ↓reduceIte,
              GoMap.get_delete_self]
          · have kept : s.labels = row.labels := still found
            refine .inl ?_
            rw [Memory.controlled, if_neg set]
            exact kept
        · exact .inl (still after)
  | rotateSessionKey id oldKeyID newKeyID lastRotation ttl =>
      simp only [Memory.perform, Memory.rotateSessionKey] at after
      obtain ⟨same, -⟩ | ⟨s, found, -, -, done⟩ := applySessionControls_cases m id
        { lastRotation, oldKeyID, newKeyID, rotate := true }
      · rw [same] at after
        exact .inl (still after)
      · simp only [done, commit_sessions, GoMap.get_set] at after
        split_ifs at after with same
        · subst same
          cases after
          have kept : s.labels = row.labels := still found
          exact .inl kept
        · exact .inl (still after)
  | deleteSession id => exact .inl (still (cascade_row after))
  | putKey keyID id ttl =>
      simp only [Memory.perform, Memory.putKey] at after
      split_ifs at after
      all_goals exact .inl (still after)
  | deleteSessionByOwner owner id =>
      simp only [Memory.perform, Memory.deleteSessionByOwner] at after
      split at after
      · exact .inl (still after)
      · split_ifs at after
        · exact .inl (still after)
        · exact .inl (still (cascade_row after))
  | lock id ttl =>
      simp only [Memory.perform, Memory.lock] at after
      split_ifs at after
      all_goals exact .inl (still after)
  | _ => exact .inl (still after)

/-- A new key maps to a session that had a key before, or is put by `PutKey`. -/
theorem perform_keys {k s : GoString} (held : (m.perform c).2.keys.get k = some s) :
    m.keys.get k = some s ∨ (c.newName = some k ∧
      ((∃ k', m.keys.get k' = some s) ∨ ∃ ttl, c = .putKey k s ttl)) := by
  cases c with
  | touchSession id keyID lastAccess legacy ttl =>
      obtain ⟨same, -⟩ | ⟨row, -, -, done⟩ := touchSession_cases m id keyID lastAccess legacy
      · simp only [Memory.perform, same] at held
        exact .inl held
      · simp only [Memory.perform, done] at held
        exact .inl held
  | applySessionControls id controls sessionTTL ownerTTL =>
      obtain earlier | ⟨rotate, new, -, current⟩ := applySessionControls_keys held
      · exact .inl earlier
      · exact .inr ⟨by simp [StoreCall.newName, rotate, new], .inl ⟨_, current⟩⟩
  | rotateSessionKey id oldKeyID newKeyID lastRotation ttl =>
      obtain earlier | ⟨-, new, -, current⟩ := applySessionControls_keys held
      · exact .inl earlier
      · exact .inr ⟨congrArg some new, .inl ⟨_, current⟩⟩
  | deleteSession id => exact .inl (cascade_keys held)
  | putKey keyID id ttl =>
      simp only [Memory.perform, Memory.putKey] at held
      split_ifs at held
      · exact .inl held
      · simp only [GoMap.get_set] at held
        split_ifs at held with same
        · cases held
          subst same
          exact .inr ⟨rfl, .inr ⟨ttl, rfl⟩⟩
        · exact .inl held
  | deleteSessionByOwner owner id =>
      simp only [Memory.perform, Memory.deleteSessionByOwner] at held
      split at held
      · exact .inl held
      · split_ifs at held
        · exact .inl held
        · exact .inl (cascade_keys held)
  | lock id ttl =>
      simp only [Memory.perform, Memory.lock] at held
      split_ifs at held
      all_goals exact .inl held
  | _ => exact .inl held

end Memory

end Gosestor.Store
