import Gosestor.Proof.Store.ScriptEffects

/-!
# The scripts on the table

On a keyspace that represents a table, a script answers what the table says and leaves a keyspace
that represents the table after the call.
-/

namespace Gosestor.Store

open Gosestor.Go Gosestor.Lib Gosestor.Lib.Redis

/-! ## Changing one session -/

def refreshSlots (id : PlainID) (active : GoString) : List Slot :=
  [.part .row id, .key active, .part .attr id, .part .sha id, .part .keys id]

theorem mem_refreshSlots {id : PlainID} {active : GoString} {n : Slot} :
    n ∈ refreshSlots id active ↔ (∃ p, n = .part p id) ∨ n = .key active := by
  constructor
  · simp only [refreshSlots, List.mem_cons, List.not_mem_nil, or_false]
    rintro (rfl | rfl | rfl | rfl | rfl)
    · exact .inl ⟨_, rfl⟩
    · exact .inr rfl
    · exact .inl ⟨_, rfl⟩
    · exact .inl ⟨_, rfl⟩
    · exact .inl ⟨_, rfl⟩
  · rintro (⟨p, rfl⟩ | rfl)
    · cases p <;> simp [refreshSlots]
    · simp [refreshSlots]

theorem Table.put_self {T : Table} {id : GoString} {k : Kept} (found : T.sessions id = some k) :
    T.put id (some k) = T := by
  rw [Table.put, ← found, Function.update_eq_self]

theorem Table.put_put (T : Table) (id : GoString) (k k' : Option Kept) :
    (T.put id k).put id k' = T.put id k' := by
  simp only [Table.put, Function.update_idem]

theorem Table.sessions_put (T : Table) (id : GoString) (k : Option Kept) :
    (T.put id k).sessions id = k :=
  Function.update_self ..

namespace Represents

variable {κ κ' : Slot → Cell GoString} {T : Table} {id : PlainID} {k : Kept}

theorem own (rep : Represents κ T) (found : T.sessions id = some k) (p : Part) :
    κ (.part p id) = k.cell p := by
  rw [rep.part, found]
  rfl

theorem row (rep : Represents κ T) (found : T.sessions id = some k) :
    κ (.part .row id) = some (.hash k.row.look, k.expiry) :=
  rep.own found .row

theorem reverse (rep : Represents κ T) (found : T.sessions id = some k) {keyID : GoString}
    (keyed : k.key = some keyID) : κ (.part .keys id) = some (.set {keyID}, k.expiry) := by
  rw [rep.own found, Kept.cell, keyed]
  rfl

theorem stage (rep : Represents κ T) (found : T.sessions id = some k) :
    Stage κ κ id k.row k.expiry T.owners :=
  ⟨rep.row found, rep.owner, fun _ _ _ => rfl⟩

theorem rewrite (rep : Represents κ T) (found : T.sessions id = some k) {s : Session}
    {owners : Int → Cell GoString} (stage : Stage κ κ' id s k.expiry owners) (named : s.id = id) :
    Represents κ' { T.put id (some { k with row := s }) with owners } := by
  have keys : ∀ keyID, κ' (.key keyID) = κ (.key keyID) := fun keyID => stage.rest _ (by simp) (by simp)
  apply rep.replace
  · rintro new ⟨⟩
    exact named
  · intro p
    cases p with
    | row => exact stage.row
    | attr | sha | keys =>
        rw [stage.rest _ (by simp) (by simp), rep.own found]
        rfl
  · intro p id' other
    exact stage.rest _ (by simp [other]) (by simp)
  · rintro new keyID ⟨⟩ keyed
    rw [keys]
    exact rep.key (k := k) found keyed
  · exact fun keyID _ _ _ => keys keyID
  · intro keyID there
    rw [keys] at there
    obtain ⟨id', k', found', keyed⟩ := rep.only there
    by_cases same : id' = id.1
    · subst same
      cases found.symm.trans found'
      exact .inl ⟨_, rfl, keyed⟩
    · exact .inr ⟨id', same, k', found', keyed⟩
  · exact stage.owner

end Represents

/-- `κ'` holds the session `new`, with whatever expirations, in place of one with the key `old`. -/
structure Loose (κ κ' : Slot → Cell GoString) (id : PlainID) (old active : GoString) (new : Kept)
    (owners : Int → Cell GoString) : Prop where
  keyed : new.key = some active
  row : ∃ x, κ' (.part .row id) = some (.hash new.row.look, x)
  attr : ∃ x, κ' (.part .attr id) = .ofLook new.cookies x
  sha : ∃ x, κ' (.part .sha id) = .ofLook new.shas x
  reverse : ∃ x, κ' (.part .keys id) = some (.set {active}, x)
  key : ∃ x, κ' (.key active) = some (.text id, x)
  others : ∀ p id', id' ≠ id → κ' (.part p id') = κ (.part p id')
  otherKeys : ∀ keyID, keyID ≠ active →
    κ' (.key keyID) = if keyID = old then none else κ (.key keyID)
  owned : ∀ o, κ' (.owner (formatInt o)) = owners o

namespace Represents

variable {κ κ' : Slot → Cell GoString} {T : Table} {id : PlainID} {k : Kept}

theorem loose (rep : Represents κ T) (found : T.sessions id = some k) {keyID : GoString}
    (keyed : k.key = some keyID) {s : Session} {owners : Int → Cell GoString}
    (stage : Stage κ κ' id s k.expiry owners) : Loose κ κ' id keyID keyID { k with row := s } owners := by
  have rest : ∀ p, p ≠ .row → κ' (.part p id) = k.cell p := by
    intro p other
    rw [stage.rest _ (by simp [other]) (by simp), rep.own found]
  have keys : ∀ keyID, κ' (.key keyID) = κ (.key keyID) := fun keyID => stage.rest _ (by simp) (by simp)
  refine ⟨keyed, ⟨_, stage.row⟩, ⟨_, rest .attr (by simp)⟩, ⟨_, rest .sha (by simp)⟩, ⟨k.expiry, ?_⟩,
    ⟨k.expiry, ?_⟩, ?_, ?_, stage.owner⟩
  · rw [rest .keys (by simp), ← rep.own found, rep.reverse found keyed]
  · rw [keys, rep.key found keyed]
  · exact fun p id' other => stage.rest _ (by simp [other]) (by simp)
  · intro keyID' other
    rw [keys, if_neg other]

theorem refresh (rep : Represents κ T) (found : T.sessions id = some k) {old active : GoString}
    (keyed : k.key = some old) {new : Kept} {owners : Int → Cell GoString}
    (loose : Loose κ κ' id old active new owners) (named : new.row.id = id)
    (free : active = old ∨ ∀ id', ¬ T.KeyLeadsTo active id') (expiry : Int) :
    Represents
      (fun n => if n ∈ refreshSlots id active then (κ' n).expireAt expiry else κ' n)
      { T.put id (some { new with expiry := some expiry }) with owners } := by
  have held : T.KeyLeadsTo old id := ⟨k, found, keyed⟩
  have foreign : ∀ keyID id', id' ≠ id.1 → T.KeyLeadsTo keyID id' → keyID ≠ active ∧ keyID ≠ old := by
    intro keyID id' other held'
    have notOld : keyID ≠ old := by
      rintro rfl
      exact other (rep.keyLeadsTo_unique held' held)
    refine ⟨?_, notOld⟩
    rintro rfl
    exact free.elim notOld fun none => none id' held'
  apply rep.replace
  · rintro new' ⟨⟩
    exact named
  · intro p
    simp only [if_pos (mem_refreshSlots.mpr (.inl ⟨p, rfl⟩)), Option.bind_some]
    cases p with
    | row =>
        obtain ⟨x, row⟩ := loose.row
        rw [row]
        rfl
    | attr =>
        obtain ⟨x, attr⟩ := loose.attr
        rw [attr, Cell.expireAt_ofLook]
        rfl
    | sha =>
        obtain ⟨x, sha⟩ := loose.sha
        rw [sha, Cell.expireAt_ofLook]
        rfl
    | keys =>
        obtain ⟨x, reverse⟩ := loose.reverse
        rw [reverse, Kept.cell, loose.keyed]
        rfl
  · intro p id' other
    rw [if_neg, loose.others p id' other]
    simp [mem_refreshSlots, other]
  · rintro new' keyID ⟨⟩ same
    obtain rfl : active = keyID := Option.some.inj (loose.keyed.symm.trans same)
    obtain ⟨x, key⟩ := loose.key
    rw [if_pos (mem_refreshSlots.mpr (.inr rfl)), key]
    rfl
  · intro keyID id' other held'
    obtain ⟨notActive, notOld⟩ := foreign keyID id' other held'
    rw [if_neg (by simp [mem_refreshSlots, notActive]), loose.otherKeys keyID notActive, if_neg notOld]
  · intro keyID there
    by_cases isActive : keyID = active
    · subst isActive
      exact .inl ⟨_, rfl, loose.keyed⟩
    · rw [if_neg (by simp [mem_refreshSlots, isActive]), loose.otherKeys keyID isActive] at there
      split_ifs at there with isOld
      · cases there
      · obtain ⟨id', k', found', keyed'⟩ := rep.only there
        refine .inr ⟨id', ?_, k', found', keyed'⟩
        rintro rfl
        cases found.symm.trans found'
        exact isOld (Option.some.inj (keyed'.symm.trans keyed))
  · intro o
    rw [if_neg (by simp [mem_refreshSlots])]
    exact loose.owned o

end Represents

/-! ## The scripts -/

section Scripts

variable {r : Redis} {now : Int} {db : Keyspace GoString} {T : Table}

namespace Loose

variable {κ : Slot → Cell GoString} {id : PlainID} {old active : GoString} {new : Kept}
  {owners : Int → Cell GoString}

theorem swap (loose : Loose κ (db.cells r.name) id old old new owners) (now ttlMs : Int)
    {newKeyID : GoString} (fresh : newKeyID ≠ old) :
    Loose κ (((swapKey (r.name (.key old)) (r.name (.key newKeyID)) (r.name (.part .keys id)) id old
      newKeyID ttlMs).eval (Cmd.total now) db).2.cells r.name) id old newKeyID
      { new with key := some newKeyID } owners := by
  obtain ⟨x, reverse⟩ := loose.reverse
  rw [eval_swapKey r reverse]
  refine ⟨rfl, ?_, ?_, ?_, ⟨none, by simp⟩, ⟨some (millis now + ttlMs), by simp [fresh]⟩, ?_, ?_, ?_⟩
  · simpa using loose.row
  · simpa using loose.attr
  · simpa using loose.sha
  · intro p id' other
    simpa [other] using loose.others p id' other
  · intro keyID other
    by_cases same : keyID = old
    · simp [same]
    · simpa [same, other] using loose.otherKeys keyID same
  · simpa using loose.owned

theorem cookies (loose : Loose κ (db.cells r.name) id old active new owners) (now : Int)
    (mutations : List CookieMutation) :
    Loose κ (((applyCookies (r.name (.part .attr id)) (r.name (.part .sha id)) mutations).eval
      (Cmd.total now) db).2.cells r.name) id old active
      { new with
        cookies := mutate (·.value) new.cookies mutations
        shas := mutate (·.sha) new.shas mutations } owners := by
  obtain ⟨x, attr⟩ := loose.attr
  obtain ⟨y, sha⟩ := loose.sha
  obtain ⟨values, hashes, kept⟩ := eval_applyCookies r now (by simp) mutations attr sha
  refine ⟨loose.keyed, ?_, values, hashes, ?_, ?_, ?_, ?_, ?_⟩
  · rw [kept _ (by simp) (by simp)]
    exact loose.row
  · rw [kept _ (by simp) (by simp)]
    exact loose.reverse
  · rw [kept _ (by simp) (by simp)]
    exact loose.key
  · intro p id' other
    rw [kept _ (by simp [other]) (by simp [other])]
    exact loose.others p id' other
  · intro keyID other
    rw [kept _ (by simp) (by simp)]
    exact loose.otherKeys keyID other
  · intro o
    rw [kept _ (by simp) (by simp)]
    exact loose.owned o

end Loose

theorem Redis.fits (laid : Laid r.layout db) (slots : List Slot) :
    ∀ d ∈ slots.map fun n => (r.name n, n.kind), db.fit d.1 d.2 = true := by
  intro d listed
  obtain ⟨n, -, rfl⟩ := List.mem_map.mp listed
  exact laid.fit (r.layout_name n)

theorem isSome_row (rep : Represents (db.cells r.name) T) (id : PlainID) :
    (db (r.name (.part .row id))).isSome = (T.sessions id).isSome :=
  Keyspace.isSome_cells.symm.trans (rep.isSome_row id)

theorem text_key (rep : Represents (db.cells r.name) T) {id keyID : GoString} {k : Kept}
    (found : T.sessions id = some k) :
    db.text (r.name (.key keyID)) = some id ↔ k.key = some keyID := by
  rw [← Keyspace.text_cells, rep.text_key, Table.KeyLeadsTo, found]
  simp

theorem accessed_does (now : Int) (rep : Represents (db.cells r.name) T) {id : PlainID} {k : Kept}
    (found : T.sessions id = some k) {keyID : GoString} (keyed : k.key = some keyID)
    (lastAccess : Int) {ttlMs : Int} (positive : 0 < ttlMs) :
    Represents (((onlyIf (reread k.row.lastAccess < double lastAccess) do
      call (.hset (r.name (.part .row id)) [(lit "last_access", formatInt lastAccess)])
      refreshTTL ttlMs ((refreshSlots id keyID).map r.name)).eval (Cmd.total now) db).2.cells r.name)
      (T.put id (some (k.accessed now lastAccess ttlMs))) := by
  rw [eval_onlyIf, Kept.accessed]
  by_cases later : reread k.row.lastAccess < double lastAccess
  · simp only [later, decide_true, if_true, Prog.eval_bind, eval_hset, eval_refreshTTL r positive]
    have stage := (rep.stage found).hset r (k.row.look_lastAccess lastAccess)
    exact rep.refresh found keyed (rep.loose found keyed stage) (rep.named found).2 (.inl rfl) _
  · simp only [later, decide_false, Bool.false_eq_true, if_false]
    rw [Table.put_self found]
    exact rep

theorem dated_does (now : Int) (rep : Represents (db.cells r.name) T) {id : PlainID} {k : Kept}
    (found : T.sessions id = some k) (legacyRotation : Int) :
    Represents (((onlyIf (((db.fields (r.name (.part .row id))).get (lit "last_rotation")).all
        fun text => tonumber text = some 0)
      (call (.hset (r.name (.part .row id)) [(lit "last_rotation", formatInt legacyRotation)]))).eval
        (Cmd.total now) db).2.cells r.name) (T.put id (some (k.dated legacyRotation))) := by
  have read : (db.fields (r.name (.part .row id))).get (lit "last_rotation") =
      some (formatInt k.row.lastRotation) := by
    rw [← Keyspace.look_cells, rep.row found]
    rfl
  rw [eval_onlyIf, read, Option.all_some, Kept.dated]
  by_cases zero : tonumber (formatInt k.row.lastRotation) = some 0
  · simp only [zero, decide_true, if_true, eval_hset]
    exact rep.rewrite found ((rep.stage found).hset r (k.row.look_lastRotation legacyRotation))
      (rep.named found).2
  · simp only [zero, decide_false, Bool.false_eq_true, if_false]
    rw [Table.put_self found]
    exact rep

theorem touchCommit_does (rep : Represents (db.cells r.name) T) {id : PlainID} {k : Kept}
    (found : T.sessions id = some k) {keyID : GoString} (keyed : k.key = some keyID)
    (lastAccess legacyRotation : Int) {ttlMs : Int} (positive : 0 < ttlMs) :
    let out := (touchCommit (r.name (.part .row id)) (r.name (.key keyID)) (r.name (.part .attr id))
      (r.name (.part .sha id)) (r.name (.part .keys id)) lastAccess legacyRotation
      (reread k.row.lastAccess) (double lastAccess) ttlMs).eval (Cmd.total now) db
    out.1 = .int 1 ∧ Represents (out.2.cells r.name)
      (T.put id (some (k.touched now lastAccess legacyRotation ttlMs))) := by
  have accessed := accessed_does now rep found keyed lastAccess positive
  have dated := dated_does now accessed (T.sessions_put id _) legacyRotation
  rw [Table.put_put] at dated
  simp only [touchCommit, Prog.eval_bind, eval_hget]
  exact ⟨rfl, dated⟩

theorem evalTouchSession_does (laid : Laid r.layout db) (rep : Represents (db.cells r.name) T)
    (id : PlainID) (keyID : GoString) (lastAccess legacyRotation : Int) (ttl : Duration) :
    let out := (r.evalTouchSession id keyID lastAccess legacyRotation ttl).eval (Cmd.total now) db
    let said := T.touchSession now id keyID lastAccess legacyRotation ttl.milliseconds
    Redis.casOf out.1 = said.1 ∧ Represents (out.2.cells r.name) said.2 := by
  have script : r.evalTouchSession id keyID lastAccess legacyRotation ttl =
      touchSessionScript (r.name (.part .row id)) (r.name (.key keyID)) (r.name (.part .attr id))
        (r.name (.part .sha id)) (r.name (.part .keys id)) lastAccess legacyRotation ttl.milliseconds
        id := by
    rw [← r.sessKey_name]
    rfl
  have fit : ∀ d ∈ [(r.name (.part .row id), Kind.hash), (r.name (.key keyID), .string),
      (r.name (.part .attr id), .hash), (r.name (.part .sha id), .hash),
      (r.name (.part .keys id), .set)], db.fit d.1 d.2 = true :=
    Redis.fits laid [.part .row id, .key keyID, .part .attr id, .part .sha id, .part .keys id]
  simp only [script, touchSessionScript, eval_checked fit, Prog.eval_bind, eval_existsKey,
    isSome_row rep, Table.touchSession]
  cases found : T.sessions id with
  | none => exact ⟨rfl, rep⟩
  | some k =>
      have bounded : (boundedTTL (r.name (.part .row id)) lastAccess ttl.milliseconds).eval
          (Cmd.total now) db = ((reread k.row.lastAccess, double lastAccess,
            k.row.bound now lastAccess ttl.milliseconds), db) :=
        eval_boundedTTL r (congrArg Cell.look (rep.row found)) _ _
      simp only [Option.isSome_some, Bool.not_true, Bool.false_eq_true, if_false, Prog.eval_bind,
        eval_get, ne_eq, text_key rep found]
      by_cases keyed : k.key = some keyID
      · simp only [keyed, not_true, if_false, Prog.eval_bind, bounded]
        split_ifs with late
        · exact ⟨rfl, rep⟩
        · obtain ⟨done, rep'⟩ := touchCommit_does rep found keyed lastAccess legacyRotation
            (not_le.mp late)
          exact ⟨congrArg Redis.casOf done, rep'⟩
      · simp only [keyed, not_false_eq_true, if_true]
        exact ⟨rfl, rep⟩

theorem applyRow_does (now : Int) (rep : Represents (db.cells r.name) T) {id : PlainID} {k : Kept}
    (found : T.sessions id = some k) (c : SessionControls) (ttlMs : Int) {ownerTTL : Int}
    (small : double ownerTTL = ownerTTL) :
    let moved := ((onlyIf (c.setOwner && formatInt k.row.ownerID ≠ formatInt c.ownerID)
      (moveOwnerSet (r.name (.part .row id)) r.ownerPrefix (formatInt k.row.ownerID)
        (formatInt c.ownerID) id ownerTTL)).eval (Cmd.total now) db).2
    let labeled := ((onlyIf c.setLabels
      (call (.hset (r.name (.part .row id)) [(lit "labels", c.labels)]))).eval (Cmd.total now) moved).2
    let accessed := ((onlyIf (reread k.row.lastAccess < double c.lastAccess)
      (call (.hset (r.name (.part .row id)) [(lit "last_access", formatInt c.lastAccess)]))).eval
        (Cmd.total now) labeled).2
    let rotated := ((onlyIf (reread k.row.lastRotation < double c.lastRotation)
      (call (.hset (r.name (.part .row id)) [(lit "last_rotation", formatInt c.lastRotation)]))).eval
        (Cmd.total now) accessed).2
    (numberField (r.name (.part .row id)) (lit "last_rotation")).eval (Cmd.total now) accessed =
      (reread k.row.lastRotation, accessed) ∧
    Stage (db.cells r.name) (rotated.cells r.name) id (k.controlled now c ttlMs).row k.expiry
      (if c.setOwner ∧ k.row.ownerID ≠ c.ownerID
        then T.moveOwner now k.row.ownerID c.ownerID id ownerTTL else T.owners) := by
  intro moved labeled accessed rotated
  have atMove : Stage (db.cells r.name) (moved.cells r.name) id
      { k.row with
        ownerID := if c.setOwner ∧ k.row.ownerID ≠ c.ownerID then c.ownerID else k.row.ownerID }
      k.expiry (if c.setOwner ∧ k.row.ownerID ≠ c.ownerID
        then T.moveOwner now k.row.ownerID c.ownerID id ownerTTL else T.owners) := by
    have stage := rep.stage found
    simp only [moved, eval_onlyIf, Bool.and_eq_true, decide_eq_true_eq, formatInt_injective.ne_iff]
    split_ifs
    · exact stage.moveOwner r c.ownerID small
    · exact stage
  have atLabels := atMove.onlyIf r now c.setLabels (Session.look_labels _ c.labels)
  have atAccess := atLabels.onlyIf r now (reread k.row.lastAccess < double c.lastAccess)
    (Session.look_lastAccess _ c.lastAccess)
  have atRotation := atAccess.onlyIf r now (reread k.row.lastRotation < double c.lastRotation)
    (Session.look_lastRotation _ c.lastRotation)
  constructor
  · rw [eval_numberField, atAccess.row]
    have read : ∀ s : Session, Cell.look (some (.hash s.look, k.expiry)) (lit "last_rotation") =
        some (formatInt s.lastRotation) := fun _ => rfl
    rw [read]
    split_ifs <;> rfl
  · convert atRotation using 1
    simp only [Kept.controlled, decide_eq_true_eq]
    split_ifs <;> rfl

theorem applyRest_does (now : Int) (rep : Represents (db.cells r.name) T) {id : PlainID} {k : Kept}
    (found : T.sessions id = some k) {c : SessionControls} (keyed : k.key = some c.oldKeyID)
    (free : c.rotate → ∀ id', ¬ T.KeyLeadsTo c.newKeyID id') {ttlMs : Int} (positive : 0 < ttlMs)
    {written : Keyspace GoString} {s : Session} {owners : Int → Cell GoString}
    (stage : Stage (db.cells r.name) (written.cells r.name) id s k.expiry owners) (named : s.id = id)
    (advanced : Bool) (advances : c.rotate = true ∨ c.cookies ≠ [] → advanced = true) :
    let newKeyID := if c.rotate then c.newKeyID else c.oldKeyID
    let swapped := ((onlyIf c.rotate (swapKey (r.name (.key c.oldKeyID)) (r.name (.key newKeyID))
      (r.name (.part .keys id)) id c.oldKeyID newKeyID ttlMs)).eval (Cmd.total now) written).2
    let mutated := ((applyCookies (r.name (.part .attr id)) (r.name (.part .sha id)) c.cookies).eval
      (Cmd.total now) swapped).2
    Represents (((onlyIf advanced (refreshTTL ttlMs ((refreshSlots id newKeyID).map r.name))).eval
      (Cmd.total now) mutated).2.cells r.name)
      { T.put id (some
          { row := s
            expiry := if advanced then some (millis now + ttlMs) else k.expiry
            key := if c.rotate then some c.newKeyID else k.key
            cookies := mutate (·.value) k.cookies c.cookies
            shas := mutate (·.sha) k.shas c.cookies }) with
        owners } := by
  intro newKeyID swapped mutated
  rw [eval_onlyIf]
  cases advanced with
  | false =>
      have still : c.rotate = false ∧ c.cookies = [] := by
        constructor
        · by_contra rotates
          exact Bool.false_ne_true (advances (.inl (by simpa using rotates)))
        · by_contra changes
          exact Bool.false_ne_true (advances (.inr changes))
      have same : mutated = written := by
        simp only [mutated, swapped, eval_onlyIf, still.1, still.2, applyCookies]
        rfl
      simp only [same, still.1, still.2, Bool.false_eq_true, if_false]
      exact rep.rewrite found stage named
  | true =>
      have atKey : Loose (db.cells r.name) (swapped.cells r.name) id c.oldKeyID newKeyID
          { k with row := s, key := if c.rotate then some c.newKeyID else k.key } owners := by
        have loose := rep.loose found keyed stage
        simp only [swapped, newKeyID, eval_onlyIf]
        cases rotates : c.rotate with
        | false => exact loose
        | true =>
            apply loose.swap
            intro (same : c.newKeyID = c.oldKeyID)
            exact free rotates id ⟨k, found, keyed.trans (congrArg some same.symm)⟩
      have atCookies := atKey.cookies now c.cookies
      rw [if_pos rfl, eval_refreshTTL r positive]
      refine rep.refresh found keyed atCookies named ?_ _
      simp only [newKeyID]
      cases rotates : c.rotate with
      | false => exact .inl rfl
      | true => exact .inr (free rotates)

theorem applyCommit_does (rep : Represents (db.cells r.name) T) {id : PlainID} {k : Kept}
    (found : T.sessions id = some k) {c : SessionControls} (keyed : k.key = some c.oldKeyID)
    (free : c.rotate → ∀ id', ¬ T.KeyLeadsTo c.newKeyID id') {ttlMs ownerTTL : Int} (positive : 0 < ttlMs)
    (small : double ownerTTL = ownerTTL) :
    let newKeyID := if c.rotate then c.newKeyID else c.oldKeyID
    let out := (applyCommit (r.name (.part .row id)) (r.name (.key c.oldKeyID))
      (r.name (.key newKeyID)) (r.name (.part .attr id)) (r.name (.part .sha id))
      (r.name (.part .keys id)) r.ownerPrefix id c newKeyID (formatInt k.row.ownerID)
      (reread k.row.lastAccess) (double c.lastAccess) ttlMs ownerTTL).eval (Cmd.total now) db
    out.1 = .int 1 ∧ Represents (out.2.cells r.name)
      { T.put id (some (k.controlled now c ttlMs)) with
        owners := if c.setOwner ∧ k.row.ownerID ≠ c.ownerID
          then T.moveOwner now k.row.ownerID c.ownerID id ownerTTL else T.owners } := by
  obtain ⟨rotation, stage⟩ := applyRow_does now rep found c ttlMs small
  have active : (if c.rotate then r.name (.key (if c.rotate then c.newKeyID else c.oldKeyID))
      else r.name (.key c.oldKeyID)) = r.name (.key (if c.rotate then c.newKeyID else c.oldKeyID)) := by
    split_ifs <;> rfl
  have advances : c.rotate = true ∨ c.cookies ≠ [] →
      (c.rotate || !c.cookies.isEmpty || decide (reread k.row.lastAccess < double c.lastAccess) ||
        decide (reread k.row.lastRotation < double c.lastRotation)) = true := by
    rintro (rotates | changes)
    · simp [rotates]
    · simp [changes]
  have rest := applyRest_does now rep found keyed free positive stage (rep.named found).2 _ advances
  simp only [refreshSlots, List.map_cons, List.map_nil] at rest
  simp only [applyCommit, Prog.eval_bind, rotation, active, Prog.pure_eq, eval_ret, true_and]
  convert rest using 4
  simp only [Kept.controlled, Bool.or_eq_true, Bool.not_eq_true', decide_eq_true_eq, or_assoc,
    List.isEmpty_eq_false_iff]

theorem eval_keyTaken (oldKey newKey : GoString) (rotate : Bool) :
    (keyTaken oldKey newKey rotate).eval (Cmd.total now) db =
      (rotate && decide (newKey ≠ oldKey) && (db newKey).isSome, db) := by
  unfold keyTaken
  split_ifs with asks
  · rw [eval_existsKey, asks, Bool.true_and]
  · rw [Bool.not_eq_true] at asks
    rw [asks, Bool.false_and]
    rfl

theorem eval_refusals (rep : Represents (db.cells r.name) T) {id : GoString} {c : SessionControls}
    (held : T.KeyLeadsTo c.oldKeyID id) (rest : LuaScript) :
    let newKeyID := if c.rotate then c.newKeyID else c.oldKeyID
    ((if c.rotate && decide (c.oldKeyID = newKeyID) then pure (.int (-1))
      else do
        if ← keyTaken (r.name (.key c.oldKeyID)) (r.name (.key newKeyID)) c.rotate then
          return .int (-1)
        else rest : LuaScript).eval (Cmd.total now) db) =
      open Classical in
      if c.rotate ∧ ∃ id', T.KeyLeadsTo c.newKeyID id' then (.int (-1), db)
      else rest.eval (Cmd.total now) db := by
  cases rotates : c.rotate with
  | false => simp [keyTaken]
  | true =>
      simp only [Bool.true_and, if_true, decide_eq_true_eq]
      by_cases same : c.oldKeyID = c.newKeyID
      · rw [if_pos same, if_pos ⟨rfl, id, same ▸ held⟩]
        rfl
      · have used : (db (r.name (.key c.newKeyID))).isSome = true ↔ ∃ id', T.KeyLeadsTo c.newKeyID id' := by
          rw [← Keyspace.isSome_cells, rep.isSome_key]
        have apart : r.name (.key c.newKeyID) ≠ r.name (.key c.oldKeyID) :=
          r.name_injective.ne (by simpa using Ne.symm same)
        rw [if_neg same, Prog.eval_bind, eval_keyTaken]
        by_cases there : (db (r.name (.key c.newKeyID))).isSome = true
        · have taken := used.mp there
          simp [there, apart, taken]
        · have untaken := mt used.mpr there
          simp [there, untaken]

theorem evalApplySessionControls_does (laid : Laid r.layout db)
    (rep : Represents (db.cells r.name) T) (id : PlainID) (c : SessionControls)
    {ttl ownerTTL : Duration} (small : double ttl.milliseconds = ttl.milliseconds)
    (smallOwner : double ownerTTL.milliseconds = ownerTTL.milliseconds) :
    let out := (r.evalApplySessionControls id c ttl ownerTTL).eval (Cmd.total now) db
    let said := T.applySessionControls now id c ttl.milliseconds ownerTTL.milliseconds
    Redis.casOf out.1 = said.1 ∧ Represents (out.2.cells r.name) said.2 := by
  have script : r.evalApplySessionControls id c ttl ownerTTL =
      applySessionControlsScript (r.name (.part .row id)) (r.name (.key c.oldKeyID))
        (r.name (.key (if c.rotate then c.newKeyID else c.oldKeyID))) (r.name (.part .attr id))
        (r.name (.part .sha id)) (r.name (.part .keys id)) r.ownerPrefix id c
        (if c.rotate then c.newKeyID else c.oldKeyID) ttl.milliseconds ownerTTL.milliseconds := by
    rw [← r.sessKey_name]
    rfl
  have fit : ∀ d ∈ [(r.name (.part .row id), Kind.hash), (r.name (.key c.oldKeyID), .string),
      (r.name (.key (if c.rotate then c.newKeyID else c.oldKeyID)), .string),
      (r.name (.part .attr id), .hash), (r.name (.part .sha id), .hash),
      (r.name (.part .keys id), .set)], db.fit d.1 d.2 = true :=
    Redis.fits laid [.part .row id, .key c.oldKeyID, .key (if c.rotate then c.newKeyID else c.oldKeyID),
      .part .attr id, .part .sha id, .part .keys id]
  simp only [script, applySessionControlsScript, eval_checked fit, Prog.eval_bind, eval_existsKey,
    isSome_row rep, Table.applySessionControls, small]
  cases found : T.sessions id with
  | none => exact ⟨rfl, rep⟩
  | some k =>
      simp only [Option.isSome_some, Bool.not_true, Bool.false_eq_true, if_false]
      by_cases spent : ttl.milliseconds ≤ 0
      · simp only [spent, if_true]
        exact ⟨rfl, rep⟩
      simp only [spent, if_false, Prog.eval_bind, eval_get, ne_eq, text_key rep found]
      by_cases keyed : k.key = some c.oldKeyID
      case neg =>
        simp only [keyed, not_false_eq_true, if_true]
        exact ⟨rfl, rep⟩
      simp only [keyed, not_true, if_false]
      rw [eval_refusals rep ⟨k, found, keyed⟩]
      by_cases taken : c.rotate ∧ ∃ id', T.KeyLeadsTo c.newKeyID id'
      · simp only [if_pos taken]
        exact ⟨rfl, rep⟩
      have bounded : (boundedTTL (r.name (.part .row id)) c.lastAccess ttl.milliseconds).eval
          (Cmd.total now) db = ((reread k.row.lastAccess, double c.lastAccess,
            k.row.bound now c.lastAccess ttl.milliseconds), db) :=
        eval_boundedTTL r (congrArg Cell.look (rep.row found)) _ _
      have owner : (db.fields (r.name (.part .row id))).get (lit "owner_id") =
          some (formatInt k.row.ownerID) := by
        rw [← Keyspace.look_cells, rep.row found]
        rfl
      simp only [if_neg taken, Prog.eval_bind, bounded]
      by_cases late : k.row.bound now c.lastAccess ttl.milliseconds ≤ 0
      · simp only [late, if_true]
        exact ⟨rfl, rep⟩
      have fit : ∀ d ∈ ownerSets r.ownerPrefix (formatInt k.row.ownerID) c, db.fit d.1 d.2 = true := by
        intro d listed
        unfold ownerSets at listed
        split_ifs at listed
        · cases listed
        · simp only [List.mem_cons, List.not_mem_nil, or_false] at listed
          obtain rfl | rfl := listed
          · exact laid.fit (r.layout_owner _)
          · exact laid.fit (r.layout_owner _)
        · obtain rfl := List.mem_singleton.mp listed
          exact laid.fit (r.layout_owner _)
      simp only [late, if_false, Prog.eval_bind, eval_hget, owner, Option.getD_some, eval_checked fit]
      obtain ⟨done, rep'⟩ := applyCommit_does rep found keyed
        (fun rotates id' held => taken ⟨rotates, id', held⟩) (not_le.mp late) smallOwner
      exact ⟨congrArg Redis.casOf done, rep'⟩

end Scripts

end Gosestor.Store
