import Gosestor.Proof.Store.Slots

/-!
# Sessions that expire as a whole

What the Redis store keeps of its sessions, as a table: a session has one expiration for its row,
its key, its cookies and their hashes. A keyspace represents a table when every name of the store
holds what the table says, with that expiration. Lua numbers are still doubles here.
-/

namespace Gosestor.Store

open Gosestor.Go Gosestor.Lib Gosestor.Lib.Redis

def Session.look (s : Session) (field : GoString) : Option GoString :=
  if field = lit "creation" then some (formatInt s.creation)
  else if field = lit "last_access" then some (formatInt s.lastAccess)
  else if field = lit "inactive_timeout" then some (formatInt s.inactiveTimeout)
  else if field = lit "final_timeout" then some (formatInt s.finalTimeout)
  else if field = lit "owner_id" then some (formatInt s.ownerID)
  else if field = lit "last_rotation" then some (formatInt s.lastRotation)
  else if field = lit "labels" then some s.labels
  else none

def reparse (n : Int) : Int := (parseInt (formatInt n)).getD 0

def reread (n : Int) : Int := (tonumber (formatInt n)).getD 0

def Session.reparsed (s : Session) : Session :=
  { s with
    creation := reparse s.creation
    lastAccess := reparse s.lastAccess
    inactiveTimeout := reparse s.inactiveTimeout
    finalTimeout := reparse s.finalTimeout
    ownerID := reparse s.ownerID
    lastRotation := reparse s.lastRotation }

def Session.bound (s : Session) (now lastAccess ttl : Int) : Int :=
  let effectiveAccess := max (reread s.lastAccess) (double lastAccess)
  let inactiveMs := double (reread s.inactiveTimeout * 1000)
  let nowMs := double (double (double (now / 1000000) * 1000) + now % 1000000 / 1000)
  let finalMs :=
    double (double (double (reread s.creation + reread s.finalTimeout) * 1000) - nowMs)
  let inactiveDeadlineMs := double (double (double (effectiveAccess * 1000) + inactiveMs) - nowMs)
  let ttlMs := double ttl
  let ttlMs := if 0 < inactiveMs ∧ inactiveDeadlineMs < ttlMs then inactiveDeadlineMs else ttlMs
  if 0 < reread s.finalTimeout ∧ finalMs < ttlMs then finalMs else ttlMs

/-- A session with its one expiration. It has no key before `PutKey`. -/
structure Kept where
  row : Session
  expiry : Option Int
  key : Option GoString := none
  cookies : GoString → Option GoString := fun _ => none
  shas : GoString → Option GoString := fun _ => none

structure Table where
  sessions : GoString → Option Kept := fun _ => none
  owners : Int → Cell GoString := fun _ => none

noncomputable def Kept.cell (k : Kept) : Part → Cell GoString
  | .row => some (.hash k.row.look, k.expiry)
  | .attr => .ofLook k.cookies k.expiry
  | .sha => .ofLook k.shas k.expiry
  | .keys => k.key.map fun keyID => (.set {keyID}, k.expiry)

namespace Table

variable (T : Table)

def KeyLeadsTo (keyID id : GoString) : Prop := ∃ k, T.sessions id = some k ∧ k.key = some keyID

def asOf (now : Int) : Table where
  sessions id := (T.sessions id).filter fun k => k.expiry.all (millis now ≤ ·)
  owners o := (T.owners o).asOf now

def put (id : GoString) (k : Option Kept) : Table :=
  { T with sessions := Function.update T.sessions id k }

end Table

/-- The cells of the store hold the table and nothing else. -/
structure Represents (κ : Slot → Cell GoString) (T : Table) : Prop where
  named : ∀ {id k}, T.sessions id = some k → Plain id ∧ k.row.id = id
  part : ∀ p (id : PlainID), κ (.part p id) = (T.sessions id).bind (Kept.cell · p)
  key : ∀ {id k keyID}, T.sessions id = some k → k.key = some keyID →
    κ (.key keyID) = some (.text id, k.expiry)
  only : ∀ {keyID}, (κ (.key keyID)).isSome → ∃ id, T.KeyLeadsTo keyID id
  owner : ∀ o, κ (.owner (formatInt o)) = T.owners o

def mutate (value : CookieMutation → GoString) (look : GoString → Option GoString)
    (cookies : List CookieMutation) : GoString → Option GoString :=
  cookies.foldl (fun look c =>
    Function.update look c.name (if c.delete then none else some (value c))) look

namespace Kept

variable (k : Kept) (now : Int)

def accessed (lastAccess ttlMs : Int) : Kept :=
  if reread k.row.lastAccess < double lastAccess then
    { k with row := { k.row with lastAccess }, expiry := some (millis now + ttlMs) }
  else k

def dated (legacyRotation : Int) : Kept :=
  if tonumber (formatInt k.row.lastRotation) = some 0 then
    { k with row := { k.row with lastRotation := legacyRotation } }
  else k

def touched (lastAccess legacyRotation ttlMs : Int) : Kept :=
  (k.accessed now lastAccess ttlMs).dated legacyRotation

def controlled (c : SessionControls) (ttlMs : Int) : Kept :=
  let moved := reread k.row.lastAccess < double c.lastAccess
  let turned := reread k.row.lastRotation < double c.lastRotation
  { row := { k.row with
      ownerID := if c.setOwner ∧ k.row.ownerID ≠ c.ownerID then c.ownerID else k.row.ownerID
      labels := if c.setLabels then c.labels else k.row.labels
      lastAccess := if moved then c.lastAccess else k.row.lastAccess
      lastRotation := if turned then c.lastRotation else k.row.lastRotation }
    expiry := if c.rotate ∨ c.cookies ≠ [] ∨ moved ∨ turned then some (millis now + ttlMs)
      else k.expiry
    key := if c.rotate then some c.newKeyID else k.key
    cookies := mutate (·.value) k.cookies c.cookies
    shas := mutate (·.sha) k.shas c.cookies }

end Kept

namespace Table

variable (T : Table) (now : Int)

noncomputable def unindex (o : Int) (id : GoString) : Int → Cell GoString :=
  Function.update T.owners o (.ofMembers ((T.owners o).members \ {id}) (T.owners o).expiry)

def index (o : Int) (id : GoString) (ownerTTL : Int) : Table :=
  { T with owners := Function.update T.owners o (some (.set (insert id (T.owners o).members),
      if 0 < ownerTTL then some (millis now + ownerTTL) else (T.owners o).expiry)) }

noncomputable def moveOwner (previous o : Int) (id : GoString) (ownerTTL : Int) :
    Int → Cell GoString :=
  if previous ≠ 0 then (T.index now o id ownerTTL).unindex previous id
  else (T.index now o id ownerTTL).owners

def putSession (s : Session) (ttl : Int) : Table :=
  T.put s.id (some { row := s, expiry := if 0 < ttl then some (millis now + ttl) else none })

def touchSession (id keyID : GoString) (lastAccess legacyRotation ttl : Int) :
    Except StoreErr Unit × Table :=
  match T.sessions id with
  | none => (.error .notFound, T)
  | some k =>
      if k.key ≠ some keyID then (.error .conflict, T)
      else
        let ttlMs := k.row.bound now lastAccess ttl
        if ttlMs ≤ 0 then (.error .notFound, T)
        else (.ok (), T.put id (some (k.touched now lastAccess legacyRotation ttlMs)))

open Classical in
noncomputable def applySessionControls (id : GoString) (c : SessionControls) (ttl ownerTTL : Int) :
    Except StoreErr Unit × Table :=
  match T.sessions id with
  | none => (.error .notFound, T)
  | some k =>
      if ttl ≤ 0 then (.error .notFound, T)
      else if k.key ≠ some c.oldKeyID then (.error .conflict, T)
      else if c.rotate ∧ ∃ id, T.KeyLeadsTo c.newKeyID id then (.error .conflict, T)
      else
        let ttlMs := k.row.bound now c.lastAccess ttl
        if ttlMs ≤ 0 then (.error .notFound, T)
        else (.ok (), { T.put id (some (k.controlled now c ttlMs)) with
          owners := if c.setOwner ∧ k.row.ownerID ≠ c.ownerID
            then T.moveOwner now k.row.ownerID c.ownerID id ownerTTL else T.owners })

def ownerOf (id : GoString) : Int := (T.sessions id).elim 0 (·.row.ownerID)

noncomputable def deleteSession (id : GoString) : Table :=
  { T.put id none with
    owners := if T.ownerOf id ≠ 0 then T.unindex (T.ownerOf id) id else T.owners }

def putKey (keyID id : GoString) : Except StoreErr Unit × Table :=
  match T.sessions id with
  | none => (.error .notFound, T)
  | some k =>
      if k.expiry.any (· ≤ millis now) then (.error .notFound, T)
      else (.ok (), T.put id (some { k with key := some keyID }))

noncomputable def deleteSessionByOwner (o : Int) (id : GoString) : Except StoreErr Bool × Table :=
  if T.ownerOf id = o
  then (.ok true, { T.put id none with owners := T.unindex o id })
  else (.ok false, { T with owners := T.unindex o id })

/-- What a call answers and leaves. The order of a map and of an owner's sessions is open. -/
def Does (T : Table) (now : Int) : (c : StoreCall) → c.Answer → Table → Prop
  | .putSession s ttl, a, T' => a = .ok () ∧ T' = T.putSession now s ttl.milliseconds
  | .touchSession id keyID lastAccess legacyRotation ttl, a, T' =>
      (a, T') = T.touchSession now id keyID lastAccess legacyRotation ttl.milliseconds
  | .applySessionControls id c ttl ownerTTL, a, T' =>
      (a, T') = T.applySessionControls now id c ttl.milliseconds ownerTTL.milliseconds
  | .rotateSessionKey id oldKeyID newKeyID lastRotation ttl, a, T' =>
      (a, T') = T.applySessionControls now id { lastRotation, oldKeyID, newKeyID, rotate := true }
        ttl.milliseconds 0
  | .deleteSession id, a, T' => a = .ok () ∧ T' = T.deleteSession id
  | .putKey keyID id _, a, T' => (a, T') = T.putKey now keyID id
  | .deleteSessionByOwner o id, a, T' => (a, T') = T.deleteSessionByOwner o id
  | .getSession id, a, T' =>
      a = (T.sessions id).elim (.error .notFound) (fun k => .ok k.row.reparsed) ∧ T' = T
  | .getKey keyID, a, T' =>
      ((a = .error .notFound ∧ ∀ id, ¬ T.KeyLeadsTo keyID id) ∨ ∃ id, a = .ok id ∧ T.KeyLeadsTo keyID id) ∧
        T' = T
  | .getCookies id, a, T' =>
      (∃ m : GoMap GoString GoString, a = .ok m ∧
        m.get = (T.sessions id).elim (fun _ => none) Kept.cookies) ∧ T' = T
  | .cookieSHAs id, a, T' =>
      (∃ m : GoMap GoString GoString, a = .ok m ∧
        m.get = (T.sessions id).elim (fun _ => none) Kept.shas) ∧ T' = T
  | .ownerSessions o, a, T' =>
      (∃ ids : List GoString, a = .ok ids ∧ ids.Nodup ∧ ∀ id, id ∈ ids ↔ id ∈ (T.owners o).members) ∧
        T' = T
  | .lock _ _, _, T' | .unlock _, _, T' => T' = T

def Admits (T : Table) : StoreCall → Prop
  | .putSession s _ => T.sessions s.id = none
  | .putKey keyID id _ => (∀ id, ¬ T.KeyLeadsTo keyID id) ∧ ∀ k, T.sessions id = some k → k.key = none
  | _ => True

end Table

theorem Kept.cell_asOf (k : Kept) (p : Part) (now : Int) :
    (k.cell p).asOf now = if k.expiry.all (millis now ≤ ·) then k.cell p else none := by
  cases p with
  | row => simp [Kept.cell, Cell.asOf, Option.filter]
  | attr | sha =>
      simp only [Kept.cell, Cell.ofLook]
      split_ifs <;> simp_all [Cell.asOf, Option.filter]
  | keys =>
      simp only [Kept.cell]
      cases k.key <;> simp [Cell.asOf, Option.filter]

theorem Table.asOf_eq_some {T : Table} {now : Int} {id : GoString} {k : Kept} :
    (T.asOf now).sessions id = some k ↔
      T.sessions id = some k ∧ k.expiry.all (millis now ≤ ·) = true := by
  simp [Table.asOf, Option.filter_eq_some_iff]

namespace Represents

variable {κ : Slot → Cell GoString} {T : Table} (rep : Represents κ T)

include rep

theorem asOf (now : Int) : Represents (fun s => (κ s).asOf now) (T.asOf now) where
  named := fun found => rep.named (Table.asOf_eq_some.mp found).1
  part := by
    intro p id
    rw [rep.part]
    cases found : T.sessions id with
    | none => simp [Table.asOf, found, Cell.asOf]
    | some k =>
        simp only [Table.asOf, found, Option.bind_some, Kept.cell_asOf, Option.filter]
        split_ifs <;> rfl
  key := by
    intro id k keyID found keyed
    obtain ⟨found, alive⟩ := Table.asOf_eq_some.mp found
    simp [rep.key found keyed, Cell.asOf, alive]
  only := by
    intro keyID there
    obtain ⟨c, kept⟩ := Option.isSome_iff_exists.mp there
    obtain ⟨found, alive⟩ := Option.filter_eq_some_iff.mp kept
    obtain ⟨id, k, held, keyed⟩ := rep.only (Option.isSome_iff_exists.mpr ⟨c, found⟩)
    rw [rep.key held keyed] at found
    cases found
    exact ⟨id, k, Table.asOf_eq_some.mpr ⟨held, alive⟩, keyed⟩
  owner := fun o => congrArg (Cell.asOf · now) (rep.owner o)

theorem isSome_row (id : PlainID) : (κ (.part .row id)).isSome = (T.sessions id).isSome := by
  rw [rep.part]
  cases T.sessions id <;> rfl

theorem text_key {keyID id : GoString} : (κ (.key keyID)).text = some id ↔ T.KeyLeadsTo keyID id := by
  constructor
  · intro text
    have there : (κ (.key keyID)).isSome := by
      cases cell : κ (.key keyID) with
      | none => simp [cell, Cell.text] at text
      | some c => rfl
    obtain ⟨id', k, found, keyed⟩ := rep.only there
    rw [rep.key found keyed] at text
    cases text
    exact ⟨k, found, keyed⟩
  · rintro ⟨k, found, keyed⟩
    rw [rep.key found keyed]
    rfl

theorem isSome_key {keyID : GoString} : (κ (.key keyID)).isSome ↔ ∃ id, T.KeyLeadsTo keyID id := by
  refine ⟨rep.only, ?_⟩
  rintro ⟨id, k, found, keyed⟩
  simp [rep.key found keyed]

theorem keyLeadsTo_unique {keyID id id' : GoString} (held : T.KeyLeadsTo keyID id)
    (held' : T.KeyLeadsTo keyID id') : id = id' :=
  Option.some.inj ((rep.text_key.mpr held).symm.trans (rep.text_key.mpr held'))

theorem replace {κ' : Slot → Cell GoString} {id : PlainID} {k : Option Kept}
    {owners : Int → Cell GoString} (named : ∀ new, k = some new → new.row.id = id)
    (own : ∀ p, κ' (.part p id) = k.bind (Kept.cell · p))
    (others : ∀ p id', id' ≠ id → κ' (.part p id') = κ (.part p id'))
    (ownKey : ∀ new keyID, k = some new → new.key = some keyID →
      κ' (.key keyID) = some (.text id, new.expiry))
    (otherKeys : ∀ keyID id', id' ≠ id.1 → T.KeyLeadsTo keyID id' → κ' (.key keyID) = κ (.key keyID))
    (noMore : ∀ keyID, (κ' (.key keyID)).isSome → (∃ new, k = some new ∧ new.key = some keyID) ∨
      ∃ id', id' ≠ id.1 ∧ T.KeyLeadsTo keyID id')
    (owned : ∀ o, κ' (.owner (formatInt o)) = owners o) :
    Represents κ' { T.put id k with owners } := by
  have put : ∀ {id'}, id' ≠ id.1 → Function.update T.sessions id.1 k id' = T.sessions id' :=
    fun other => Function.update_of_ne other _ _
  refine ⟨fun {id' new} found => ?_, fun p id' => ?_, fun {id' new keyID} found keyed => ?_,
    fun {keyID} there => ?_, owned⟩
  · by_cases same : id' = id.1
    · subst same
      exact ⟨id.2, named new (by simpa [Table.put] using found)⟩
    · exact rep.named ((put same).symm.trans found)
  · by_cases same : id' = id
    · subst same
      simp [Table.put, own]
    · rw [others p id' same, rep.part]
      exact congrArg (Option.bind · _) (put (Subtype.coe_injective.ne same)).symm
  · by_cases same : id' = id.1
    · subst same
      exact ownKey new keyID (by simpa [Table.put] using found) keyed
    · have found : T.sessions id' = some new := (put same).symm.trans found
      rw [otherKeys keyID id' same ⟨new, found, keyed⟩]
      exact rep.key found keyed
  · obtain ⟨new, stored, keyed⟩ | ⟨id', other, new, found, keyed⟩ := noMore keyID there
    · exact ⟨id, new, by simpa [Table.put] using stored, keyed⟩
    · exact ⟨id', new, (put other).trans found, keyed⟩

end Represents

end Gosestor.Store
