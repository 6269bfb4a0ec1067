import Gosestor.Proof.Store.Memory
import Mathlib.Data.Option.Basic

/-!
# The five maps of the Memory store agree

`Change` says what a call can do to the store. From it: the cookie and hash maps stay side by
side, and a call on one session leaves every other session alone.
-/

namespace Gosestor.Store

open Gosestor.Go Gosestor.Lib

def StoreCall.subject : StoreCall → Option GoString
  | .putSession session _ => some session.id
  | .touchSession id _ _ _ _ | .applySessionControls id _ _ _ | .rotateSessionKey id _ _ _ _
  | .deleteSession id | .putKey _ id _ | .deleteSessionByOwner _ id => some id
  | _ => none

def StoreCall.controls : StoreCall → Option (GoString × SessionControls)
  | .applySessionControls id c _ _ => some (id, c)
  | .rotateSessionKey id oldKeyID newKeyID lastRotation _ =>
      some (id, { lastRotation, oldKeyID, newKeyID, rotate := true })
  | _ => none

theorem StoreCall.subject_of_controls {c : StoreCall} {id : GoString} {ctl : SessionControls}
    (asks : c.controls = some (id, ctl)) : c.subject = some id := by
  cases c <;> simp_all [StoreCall.controls, StoreCall.subject]

def StoreCall.Related (R : GoString → GoString → Prop) (c : StoreCall) : Prop :=
  ∀ id ctl, c.controls = some (id, ctl) → ∀ cookie ∈ ctl.cookies, cookie.delete = false →
    R cookie.value cookie.sha

namespace Memory

inductive Change (m : Memory) : StoreCall → Memory → Prop
  | kept {c : StoreCall} (locks : GoMap GoString Unit) : Change m c { m with locks }
  | put (s : Session) (ttl : Duration) :
      Change m (.putSession s ttl) { m with sessions := m.sessions.set s.id s }
  | touch {id keyID : GoString} {lastAccess legacy : Int} {ttl : Duration} {s : Session}
      (row : m.sessions.get id = some s) (held : m.keys.get keyID = some id) :
      Change m (.touchSession id keyID lastAccess legacy ttl)
        { m with sessions := m.sessions.set id (touched s lastAccess legacy) }
  | commit {c : StoreCall} {id : GoString} {s : Session} {ctl : SessionControls}
      (asks : c.controls = some (id, ctl)) (row : m.sessions.get id = some s)
      (held : m.keys.get ctl.oldKeyID = some id)
      (free : ctl.rotate → m.keys.get ctl.newKeyID = none) :
      Change m c (m.commit id s ctl)
  | key {keyID id : GoString} {ttl : Duration} (row : m.sessions.get id ≠ none) :
      Change m (.putKey keyID id ttl) { m with keys := m.keys.set keyID id }
  | delete {id : GoString} {owners : GoMap Int (GoMap GoString Unit)}
      (pruned : owners = m.owners ∨
        ∃ s, m.sessions.get id = some s ∧ owners = prune m.owners s.ownerID id) :
      Change m (.deleteSession id) ({ m with owners }.cascade id)
  | prune {owner : Int} {id : GoString}
      (foreign : ∀ s, m.sessions.get id = some s → s.ownerID ≠ owner) :
      Change m (.deleteSessionByOwner owner id) { m with owners := prune m.owners owner id }
  | revoke {id : GoString} {s : Session} (row : m.sessions.get id = some s) :
      Change m (.deleteSessionByOwner s.ownerID id)
        ({ m with owners := prune m.owners s.ownerID id }.cascade id)

theorem applySessionControls_change (m : Memory) {c : StoreCall} {id : GoString}
    {ctl : SessionControls} (asks : c.controls = some (id, ctl)) :
    Change m c (m.applySessionControls id ctl).2 := by
  rcases applySessionControls_cases m id ctl with ⟨same, -⟩ | ⟨s, row, held, free, done⟩
  · rw [same]
    exact .kept m.locks
  · rw [done]
    exact .commit asks row held free

theorem deleteSession_change (m : Memory) (id : GoString) :
    Change m (.deleteSession id) (m.deleteSession id).2 := by
  apply Change.delete
  cases row : m.sessions.get id with
  | none => exact .inl rfl
  | some s =>
      by_cases anonymous : s.ownerID = 0
      · simp [anonymous]
      · right
        exact ⟨s, rfl, by simp [anonymous]⟩

theorem deleteSessionByOwner_change (m : Memory) (owner : Int) (id : GoString) :
    Change m (.deleteSessionByOwner owner id) (m.deleteSessionByOwner owner id).2 := by
  cases row : m.sessions.get id with
  | none =>
      simp only [deleteSessionByOwner, row]
      apply Change.prune
      simp [row]
  | some s =>
      by_cases owned : s.ownerID = owner
      · subst owned
        simpa [deleteSessionByOwner, row] using Change.revoke row
      · simp only [deleteSessionByOwner, row, ne_eq, owned, not_false_eq_true, if_true]
        apply Change.prune
        simpa [row] using owned

theorem perform_change (m : Memory) (c : StoreCall) : Change m c (m.perform c).2 := by
  cases c with
  | putSession s ttl => exact .put s ttl
  | touchSession id keyID lastAccess legacy ttl =>
      rcases touchSession_cases m id keyID lastAccess legacy with ⟨same, -⟩ | ⟨s, row, held, done⟩
      · simp only [perform, same]
        exact .kept m.locks
      · simp only [perform, done]
        exact .touch row held
  | applySessionControls id ctl sessionTTL ownerTTL => exact applySessionControls_change m rfl
  | rotateSessionKey id oldKeyID newKeyID lastRotation ttl =>
      exact applySessionControls_change m rfl
  | deleteSession id => exact deleteSession_change m id
  | putKey keyID id ttl =>
      by_cases row : m.sessions.get id = none
      · simp only [perform, putKey, row, if_true]
        exact .kept m.locks
      · simp only [perform, putKey, row, if_false]
        exact .key row
  | deleteSessionByOwner owner id => exact deleteSessionByOwner_change m owner id
  | lock id ttl =>
      by_cases held : m.locks.get id = none
      · simp only [perform, lock, held, ne_eq, not_true_eq_false, if_false]
        exact .kept _
      · simp only [perform, lock, held, ne_eq, not_false_eq_true, if_true]
        exact .kept m.locks
  | unlock id => exact .kept _
  | _ => exact .kept m.locks

/-! ## Other sessions -/

/-- What the store holds for session `s` is the same in both stores. -/
structure SameEntries (m m' : Memory) (s : GoString) : Prop where
  row : m'.sessions.get s = m.sessions.get s
  keys : ∀ k, m'.keys.get k = some s ↔ m.keys.get k = some s
  cookies : m'.cookies.get s = m.cookies.get s
  shas : m'.shas.get s = m.shas.get s
  index : ∀ o, InIndex m'.owners o s ↔ InIndex m.owners o s

theorem SameEntries.refl (m : Memory) (s : GoString) : SameEntries m m s :=
  ⟨rfl, fun _ => Iff.rfl, rfl, rfl, fun _ => Iff.rfl⟩

theorem SameEntries.trans {m₁ m₂ m₃ : Memory} {s : GoString} (first : SameEntries m₁ m₂ s)
    (second : SameEntries m₂ m₃ s) : SameEntries m₁ m₃ s where
  row := second.row.trans first.row
  keys k := (second.keys k).trans (first.keys k)
  cookies := second.cookies.trans first.cookies
  shas := second.shas.trans first.shas
  index o := (second.index o).trans (first.index o)

variable {m m' : Memory} {c : StoreCall} {s : GoString}

theorem commit_keys_other {id : GoString} {row : Session} {ctl : SessionControls}
    (held : m.keys.get ctl.oldKeyID = some id)
    (free : ctl.rotate → m.keys.get ctl.newKeyID = none) (other : s ≠ id) (k : GoString) :
    (m.commit id row ctl).keys.get k = some s ↔ m.keys.get k = some s := by
  rw [commit_keys]
  split_ifs with rotate
  · rw [GoMap.get_delete, GoMap.get_set]
    split_ifs with old new
    · simp [old, held, other.symm]
    · simp [new, free rotate, other.symm]
    · rfl
  · rfl

theorem cascade_other {id : GoString} (other : s ≠ id) : SameEntries m (m.cascade id) s where
  row := GoMap.get_delete_of_ne other
  keys k := by
    simp only [cascade, GoMap.get_deleteIf, Option.filter_eq_some_iff]
    simp [other]
  cookies := GoMap.get_delete_of_ne other
  shas := GoMap.get_delete_of_ne other
  index o := Iff.rfl

theorem prune_other {id : GoString} {owner : Int} (other : s ≠ id) :
    SameEntries m { m with owners := prune m.owners owner id } s where
  row := rfl
  keys k := Iff.rfl
  cookies := rfl
  shas := rfl
  index o := by simp [inIndex_prune, other]

theorem commit_other {id : GoString} {row : Session} {ctl : SessionControls}
    (held : m.keys.get ctl.oldKeyID = some id)
    (free : ctl.rotate → m.keys.get ctl.newKeyID = none) (other : s ≠ id) :
    SameEntries m (m.commit id row ctl) s where
  row := by
    rw [commit_sessions]
    exact GoMap.get_set_of_ne other
  keys := commit_keys_other held free other
  cookies := (commit_cookies_other m id row ctl other).1
  shas := (commit_cookies_other m id row ctl other).2
  index o := by
    rw [commit_owners]
    split_ifs with changed
    · simp [inIndex_moveOwner, other]
    · rfl

/-- A call on another session changes nothing, unless `PutKey` takes over a key. -/
theorem Change.other (change : Change m c m') (other : c.subject ≠ some s)
    (free : ∀ k id ttl, c = .putKey k id ttl → m.keys.get k = none) : SameEntries m m' s := by
  cases change with
  | kept locks => exact ⟨rfl, fun _ => Iff.rfl, rfl, rfl, fun _ => Iff.rfl⟩
  | put row ttl =>
      have ne : s ≠ row.id := fun same => other (by simp [StoreCall.subject, same])
      exact ⟨GoMap.get_set_of_ne ne, fun _ => Iff.rfl, rfl, rfl, fun _ => Iff.rfl⟩
  | @touch id =>
      have ne : s ≠ id := fun same => other (by simp [StoreCall.subject, same])
      exact ⟨GoMap.get_set_of_ne ne, fun _ => Iff.rfl, rfl, rfl, fun _ => Iff.rfl⟩
  | @commit _ id row ctl asks live held free =>
      have ne : s ≠ id := by
        rintro rfl
        exact other (StoreCall.subject_of_controls asks)
      exact commit_other held free ne
  | @key keyID id ttl live =>
      have ne : s ≠ id := fun same => other (by simp [StoreCall.subject, same])
      refine ⟨rfl, fun k => ?_, rfl, rfl, fun _ => Iff.rfl⟩
      rw [GoMap.get_set]
      split_ifs with same
      · simp [same, free _ _ _ rfl, ne.symm]
      · rfl
  | @delete id owners pruned =>
      have ne : s ≠ id := fun same => other (by simp [StoreCall.subject, same])
      rcases pruned with rfl | ⟨row, -, rfl⟩
      · exact cascade_other ne
      · exact (prune_other ne).trans (cascade_other ne)
  | @prune owner id foreign =>
      have ne : s ≠ id := fun same => other (by simp [StoreCall.subject, same])
      exact prune_other ne
  | @revoke id row live =>
      have ne : s ≠ id := fun same => other (by simp [StoreCall.subject, same])
      exact (prune_other ne).trans (cascade_other ne)

/-- What can become of a row that stays. -/
theorem Change.rewrites (change : Change m c m') {row row' : Session}
    (found : m.sessions.get s = some row) (found' : m'.sessions.get s = some row') :
    row' = row ∨ (∃ ttl, c = .putSession row' ttl ∧ row'.id = s) ∨
    (∃ keyID lastAccess legacy ttl, c = .touchSession s keyID lastAccess legacy ttl ∧
      row' = touched row lastAccess legacy) ∨
    ∃ ctl, c.controls = some (s, ctl) ∧ m.keys.get ctl.oldKeyID = some s ∧
      m' = m.commit s row ctl ∧ row' = controlled row ctl := by
  have unchanged : m.sessions.get s = some row' → row' = row := fun same => by
    cases found.symm.trans same
    rfl
  cases change with
  | put session ttl =>
      rw [GoMap.get_set] at found'
      split_ifs at found' with same
      · cases found'
        exact .inr (.inl ⟨ttl, rfl, same.symm⟩)
      · exact .inl (unchanged found')
  | @touch id keyID lastAccess legacy ttl session live held =>
      rw [GoMap.get_set] at found'
      split_ifs at found' with same
      · subst same
        cases live.symm.trans found
        cases found'
        exact .inr (.inr (.inl ⟨keyID, lastAccess, legacy, ttl, rfl, rfl⟩))
      · exact .inl (unchanged found')
  | @commit _ id session ctl asks live held free =>
      rw [commit_sessions, GoMap.get_set] at found'
      split_ifs at found' with same
      · subst same
        cases live.symm.trans found
        cases found'
        exact .inr (.inr (.inr ⟨ctl, asks, held, rfl, rfl⟩))
      · exact .inl (unchanged found')
  | delete pruned =>
      simp only [cascade, GoMap.get_delete] at found'
      split_ifs at found' with same
      exact .inl (unchanged found')
  | revoke live =>
      simp only [cascade, GoMap.get_delete] at found'
      split_ifs at found' with same
      exact .inl (unchanged found')
  | _ => exact .inl (unchanged found')

theorem Change.creates (change : Change m c m') {row : Session}
    (absent : m.sessions.get s = none) (found : m'.sessions.get s = some row) :
    ∃ ttl, c = .putSession row ttl ∧ row.id = s := by
  have never : m.sessions.get s ≠ some row := by simp [absent]
  cases change with
  | put session ttl =>
      rw [GoMap.get_set] at found
      split_ifs at found with same
      · cases found
        exact ⟨ttl, rfl, same.symm⟩
      · exact absurd found never
  | @touch id keyID lastAccess legacy ttl session live held =>
      rw [GoMap.get_set] at found
      split_ifs at found with same
      · simp [same, live] at absent
      · exact absurd found never
  | @commit _ id session ctl asks live held free =>
      rw [commit_sessions, GoMap.get_set] at found
      split_ifs at found with same
      · simp [same, live] at absent
      · exact absurd found never
  | delete pruned | revoke live =>
      simp only [cascade, GoMap.get_delete] at found
      split_ifs at found with same
      exact absurd found never
  | _ => exact absurd found never

/-! ## Cookies and their hashes -/

section Tables

variable {R : GoString → GoString → Prop} {cookies shas cookies' shas' : CookieTable}
  {id name value sha : GoString}

/-- Both maps of a session are nil or neither is, they have the same names, and `R` relates each
value to its hash. -/
abbrev Beside (R : GoString → GoString → Prop) (cookies shas : CookieTable) : Prop :=
  GoMap.Beside (GoMap.Beside R) cookies shas

theorem beside_put (beside : Beside R cookies shas) (related : R value sha) :
    Beside R (CookieTable.put cookies id name value) (CookieTable.put shas id name sha) :=
  GoMap.Beside.set beside id (GoMap.Beside.set (.getD_empty (beside id)) name related)

theorem beside_drop (beside : Beside R cookies shas) :
    Beside R (CookieTable.drop cookies id name) (CookieTable.drop shas id name) := by
  have both := beside id
  unfold CookieTable.drop
  cases left : cookies.get id with
  | none => simpa [(GoMap.Beside.get_eq_none beside id).mp left] using beside
  | some values =>
      cases right : shas.get id with
      | none => simp [(GoMap.Beside.get_eq_none beside id).mpr right] at left
      | some hashes =>
          rw [left, right, Option.rel_some_some] at both
          exact GoMap.Beside.set beside id (both.delete name)

theorem beside_assign (beside : Beside R cookies shas) (name value sha : GoString)
    (related : R value sha) (there : cookies.get id ≠ none) : ∃ cookies' shas',
      CookieTable.assign cookies id name value = some cookies' ∧
      CookieTable.assign shas id name sha = some shas' ∧ Beside R cookies' shas' := by
  obtain ⟨values, left⟩ := Option.ne_none_iff_exists'.mp there
  have there' : shas.get id ≠ none := fun absent =>
    there ((GoMap.Beside.get_eq_none beside id).mpr absent)
  obtain ⟨hashes, right⟩ := Option.ne_none_iff_exists'.mp there'
  have both := GoMap.Beside.related beside left right
  simp only [CookieTable.assign, left, right, Option.map_some, Option.some.injEq]
  exact ⟨_, _, rfl, rfl, GoMap.Beside.set beside id (both.set name related)⟩

theorem beside_foldl (mutations : List CookieMutation)
    (related : ∀ c ∈ mutations, c.delete = false → R c.value c.sha)
    (beside : Beside R m.cookies m.shas) :
    Beside R (mutations.foldl (applyCookie id) m).cookies
      (mutations.foldl (applyCookie id) m).shas := by
  induction mutations generalizing m with
  | nil => exact beside
  | cons c cs ih =>
      rw [List.foldl_cons]
      apply ih (fun c' member => related c' (List.mem_cons_of_mem _ member))
      unfold applyCookie
      split_ifs with deletes
      · exact beside_drop beside
      · exact beside_put beside (related c List.mem_cons_self (by simpa using deletes))

end Tables

/-- What every method keeps, whatever its arguments. -/
structure Intact (R : GoString → GoString → Prop) (m : Memory) : Prop where
  keyLive : ∀ {k s}, m.keys.get k = some s → m.sessions.get s ≠ none
  beside : Beside R m.cookies m.shas

theorem newMemory_intact {R : GoString → GoString → Prop} : newMemory.Intact R where
  keyLive h := by cases h
  beside := .empty

section Intact

variable {R : GoString → GoString → Prop}

theorem Intact.sessions (intact : m.Intact R) {id : GoString} {row : Session}
    {sessions : GoMap GoString Session} (set : sessions = m.sessions.set id row) :
    ({ m with sessions } : Memory).Intact R where
  keyLive := by
    intro k s held
    have live := intact.keyLive held
    simp only [set, GoMap.get_set]
    split_ifs <;> simp_all
  beside := intact.beside

theorem Intact.cascade (intact : m.Intact R) (id : GoString) : (m.cascade id).Intact R where
  keyLive := by
    intro k s held
    simp only [Memory.cascade, GoMap.get_deleteIf, Option.filter_eq_some_iff] at held
    obtain ⟨held, ne⟩ := held
    simp only [Memory.cascade]
    rw [GoMap.get_delete_of_ne (by simpa using ne)]
    exact intact.keyLive held
  beside := GoMap.Beside.delete intact.beside id

theorem Change.intact (change : Change m c m') (intact : m.Intact R) (related : c.Related R) :
    m'.Intact R := by
  cases change with
  | kept locks => exact { intact with }
  | put row ttl => exact intact.sessions rfl
  | touch row held => exact intact.sessions rfl
  | @commit _ id row ctl asks live held free =>
      refine ⟨?_, ?_⟩
      · intro k s mapped
        rw [commit_sessions_live live]
        rw [commit_keys] at mapped
        split_ifs at mapped with rotate
        · rw [GoMap.get_delete, GoMap.get_set] at mapped
          split_ifs at mapped with old new
          · cases mapped
            simp [live]
          · exact intact.keyLive mapped
        · exact intact.keyLive mapped
      · simp only [Memory.commit]
        exact beside_foldl ctl.cookies (related id ctl asks) intact.beside
  | @key keyID id ttl live =>
      refine ⟨?_, intact.beside⟩
      intro k s mapped
      rw [GoMap.get_set] at mapped
      split_ifs at mapped with same
      · cases mapped
        exact live
      · exact intact.keyLive mapped
  | @delete id owners pruned =>
      have same : ({ m with owners } : Memory).Intact R := { intact with }
      exact same.cascade id
  | prune foreign => exact { intact with }
  | @revoke id row live =>
      have same : ({ m with owners := Memory.prune m.owners row.ownerID id } : Memory).Intact R :=
        { intact with }
      exact same.cascade id

end Intact

/-! ## What is stored -/

/-- Every stored cookie meets `P`, and the labels of every session meet `L`. -/
structure Stocked (P : GoString → GoString → Prop) (L : GoString → Prop) (m : Memory) : Prop where
  cookies : ∀ {id cookies}, m.cookies.get id = some cookies →
    ∀ {name value}, cookies.get name = some value → P name value
  labels : ∀ {id row}, m.sessions.get id = some row → L row.labels

section Stocked

variable {P : GoString → GoString → Prop} {L : GoString → Prop}

theorem newMemory_stocked : newMemory.Stocked P L where
  cookies h := by cases h
  labels h := by cases h

theorem Stocked.indexed (stocked : m.Stocked P L) (owners : GoMap Int (GoMap GoString Unit))
    (keys : GoMap GoString GoString) : ({ m with owners, keys } : Memory).Stocked P L :=
  ⟨stocked.cookies, stocked.labels⟩

theorem Stocked.applyCookie (stocked : m.Stocked P L) (id : GoString) {c : CookieMutation}
    (meets : c.delete = false → P c.name c.value) : (applyCookie id m c).Stocked P L where
  cookies := by
    intro x cookies found name value held
    unfold Memory.applyCookie at found
    split_ifs at found with deletes
    · simp only [CookieTable.drop] at found
      cases before : m.cookies.get id with
      | none =>
          rw [before] at found
          exact stocked.cookies found held
      | some old =>
          simp only [before, GoMap.get_set] at found
          split_ifs at found with same
          · cases found
            rw [GoMap.get_delete] at held
            split_ifs at held
            exact stocked.cookies before held
          · exact stocked.cookies found held
    · simp only [CookieTable.put, GoMap.get_set] at found
      split_ifs at found with same
      · cases found
        rw [GoMap.get_set] at held
        split_ifs at held with named
        · cases held
          rw [named]
          exact meets (by simpa using deletes)
        · cases before : m.cookies.get id with
          | none => simp [before] at held
          | some old =>
              rw [before] at held
              exact stocked.cookies before held
      · exact stocked.cookies found held
  labels := by
    intro x row found
    unfold Memory.applyCookie at found
    split_ifs at found <;> exact stocked.labels found

theorem Stocked.foldl (stocked : m.Stocked P L) (id : GoString) {mutations : List CookieMutation}
    (meets : ∀ c ∈ mutations, c.delete = false → P c.name c.value) :
    (mutations.foldl (Memory.applyCookie id) m).Stocked P L := by
  induction mutations generalizing m with
  | nil => exact stocked
  | cons c mutations ih =>
      apply ih (stocked.applyCookie id (meets c List.mem_cons_self))
      exact fun c' member => meets c' (List.mem_cons_of_mem c member)

theorem Stocked.setRow (stocked : m.Stocked P L) (id : GoString) {row : Session}
    (meets : L row.labels) : ({ m with sessions := m.sessions.set id row } : Memory).Stocked P L where
  cookies := stocked.cookies
  labels := by
    intro x row' found
    rw [GoMap.get_set] at found
    split_ifs at found
    · cases found
      exact meets
    · exact stocked.labels found

theorem Stocked.cascade (stocked : m.Stocked P L) (id : GoString) : (m.cascade id).Stocked P L where
  cookies := by
    intro x cookies found
    simp only [Memory.cascade, GoMap.get_delete] at found
    split_ifs at found
    exact stocked.cookies found
  labels := by
    intro x row found
    simp only [Memory.cascade, GoMap.get_delete] at found
    split_ifs at found
    exact stocked.labels found

/-- What a call brings into the store. -/
structure Supplies (P : GoString → GoString → Prop) (L : GoString → Prop) (c : StoreCall) :
    Prop where
  row : ∀ {row ttl}, c = .putSession row ttl → L row.labels
  cookies : ∀ {id ctl}, c.controls = some (id, ctl) → ∀ cookie ∈ ctl.cookies,
    cookie.delete = false → P cookie.name cookie.value
  labels : ∀ {id ctl}, c.controls = some (id, ctl) → ctl.setLabels = true → L ctl.labels

theorem Change.stocked (change : Change m c m') (stocked : m.Stocked P L)
    (supplies : Supplies P L c) : m'.Stocked P L := by
  cases change with
  | kept locks => exact { stocked with }
  | put row ttl => exact stocked.setRow row.id (supplies.row rfl)
  | @touch id _ _ _ _ _ found held =>
      have meets := stocked.labels found
      exact stocked.setRow id meets
  | @commit _ id row ctl asks found held free =>
      have kept := (stocked.indexed (if ctl.setOwner ∧ ctl.ownerID ≠ row.ownerID
          then moveOwner m.owners id row.ownerID ctl.ownerID else m.owners)
        (if ctl.rotate then (m.keys.set ctl.newKeyID id).delete ctl.oldKeyID else m.keys)).foldl
          id (supplies.cookies asks)
      apply kept.setRow id
      unfold controlled
      dsimp only
      split_ifs with set
      · exact supplies.labels asks set
      · exact stocked.labels found
  | key live => exact stocked.indexed m.owners _
  | @delete id owners pruned => exact (stocked.indexed owners m.keys).cascade id
  | prune foreign => exact stocked.indexed _ m.keys
  | @revoke id row live => exact (stocked.indexed _ m.keys).cascade id

end Stocked

/-! ## Every method of the interface -/

abbrev Sound (m : Memory) : Prop := m.Intact fun _ _ => True

theorem Intact.keys (sound : m.Sound) {keys : GoMap GoString GoString}
    (live : ∀ {k s}, keys.get k = some s → m.sessions.get s ≠ none) :
    ({ m with keys } : Memory).Sound where
  keyLive := live
  beside := sound.beside

theorem replaceKey_sound (sound : m.Sound) (oldKeyID newKeyID id : GoString) :
    (m.replaceKey oldKeyID newKeyID id).2.Sound := by
  unfold replaceKey
  split_ifs with gone stale taken
  · exact sound
  · exact sound
  · exact sound
  · apply sound.keys
    intro k s mapped
    rw [GoMap.get_delete, GoMap.get_set] at mapped
    split_ifs at mapped with old new
    · cases mapped
      exact gone
    · exact sound.keyLive mapped

theorem deleteKey_sound (sound : m.Sound) (keyID : GoString) : (m.deleteKey keyID).2.Sound := by
  apply sound.keys
  intro k s mapped
  rw [GoMap.get_delete] at mapped
  split_ifs at mapped with same
  exact sound.keyLive mapped

theorem openCookies_sound (sound : m.Sound) (id : GoString) :
    (m.openCookies id).Sound ∧ (m.openCookies id).cookies.get id ≠ none := by
  unfold openCookies
  split_ifs with empty
  · exact ⟨⟨sound.keyLive, GoMap.Beside.set sound.beside id .empty⟩, by simp⟩
  · exact ⟨sound, empty⟩

theorem putCookie_sound (sound : m.Sound) (id name value sha : GoString) :
    ∃ r m', m.putCookie id name value sha = some (r, m') ∧ m'.Sound := by
  unfold putCookie
  split_ifs with gone
  · exact ⟨_, m, rfl, sound⟩
  · obtain ⟨opened, there⟩ := openCookies_sound sound id
    obtain ⟨cookies, shas, left, right, beside⟩ :=
      beside_assign opened.beside name value sha trivial there
    simp only [left, right]
    exact ⟨_, _, rfl, opened.keyLive, beside⟩

theorem reassignOwner_sound (sound : m.Sound) (s : Session) : (m.reassignOwner s).2.Sound := by
  unfold reassignOwner
  cases row : m.sessions.get s.id with
  | none => exact sound
  | some previous =>
      have rows : ({ m with sessions := m.sessions.set s.id (reassigned previous s) } : Memory).Sound :=
        sound.sessions rfl
      exact { rows with }

theorem invoke_sound (sound : m.Sound) (c : StoreMethod) :
    ∃ r m', m.invoke c = some (r, m') ∧ m'.Sound := by
  cases c with
  | call c => exact ⟨_, _, rfl, (perform_change m c).intact sound fun _ _ _ _ _ _ => trivial⟩
  | replaceKey oldKeyID newKeyID id ttl => exact ⟨_, _, rfl, replaceKey_sound sound _ _ _⟩
  | deleteKey keyID => exact ⟨_, _, rfl, deleteKey_sound sound _⟩
  | putCookie id name value sha => exact putCookie_sound sound _ _ _ _
  | deleteCookie id name => exact ⟨_, _, rfl, sound.keyLive, beside_drop sound.beside⟩
  | addOwnerIndex owner id ttl => exact ⟨_, _, rfl, { sound with }⟩
  | removeOwnerIndex owner id => exact ⟨_, _, rfl, { sound with }⟩
  | reassignOwner s sessionTTL ownerTTL => exact ⟨_, _, rfl, reassignOwner_sound sound s⟩

theorem invokeAll_sound (sound : m.Sound) (calls : List StoreMethod) :
    ∃ m', m.invokeAll calls = some m' ∧ m'.Sound := by
  induction calls generalizing m with
  | nil => exact ⟨m, rfl, sound⟩
  | cons c calls ih =>
      obtain ⟨r, next, done, kept⟩ := invoke_sound sound c
      obtain ⟨m', rest, last⟩ := ih kept
      refine ⟨m', ?_, last⟩
      simp only [invokeAll, List.foldlM_cons, done, Option.map_some, Option.bind_eq_bind,
        Option.bind_some]
      exact rest

end Memory

end Gosestor.Store
