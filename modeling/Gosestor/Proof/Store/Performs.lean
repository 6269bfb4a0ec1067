import Gosestor.Proof.Store.Representation

/-!
# Calls on the Redis store as calls on the table

Sessions and keys are created and removed, and the calls that only read answer from the table. With
the scripts that rewrite a session, that is every call of the manager.
-/

namespace Gosestor.Store

open Gosestor.Go Gosestor.Lib Gosestor.Lib.Redis

namespace Represents

variable {κ : Slot → Cell GoString} {T : Table} {id : PlainID}

theorem own_none (rep : Represents κ T) (absent : T.sessions id = none) (p : Part) :
    κ (.part p id) = none := by
  rw [rep.part, absent]
  rfl

theorem create (rep : Represents κ T) (absent : T.sessions id = none) {s : Session} (named : s.id = id)
    (expiry : Option Int) :
    Represents (Function.update κ (.part .row id) (some (.hash s.look, expiry)))
      (T.put id (some { row := s, expiry })) := by
  apply rep.replace
  · rintro new ⟨⟩
    exact named
  · intro p
    cases p with
    | row => exact Function.update_self ..
    | attr | sha =>
        rw [Function.update_of_ne (by simp), rep.own_none absent]
        exact (if_pos rfl).symm
    | keys =>
        rw [Function.update_of_ne (by simp), rep.own_none absent]
        rfl
  · exact fun p id' other => Function.update_of_ne (by simp [other]) ..
  · rintro new keyID ⟨⟩ keyed
    cases keyed
  · exact fun keyID id' other held => Function.update_of_ne (by simp) ..
  · intro keyID there
    rw [Function.update_of_ne (by simp)] at there
    obtain ⟨id', k, found, keyed⟩ := rep.only there
    refine .inr ⟨id', ?_, k, found, keyed⟩
    rintro rfl
    cases absent.symm.trans found
  · intro o
    rw [Function.update_of_ne (by simp)]
    exact rep.owner o

theorem addKey (rep : Represents κ T) {k : Kept} (found : T.sessions id = some k)
    (keyless : k.key = none) {keyID : GoString} (free : ∀ id', ¬ T.KeyLeadsTo keyID id') :
    Represents (Function.update (Function.update κ (.key keyID) (some (.text id, k.expiry)))
      (.part .keys id) (some (.set {keyID}, k.expiry)))
      (T.put id (some { k with key := some keyID })) := by
  apply rep.replace
  · rintro new ⟨⟩
    exact (rep.named found).2
  · intro p
    cases p with
    | keys => exact Function.update_self ..
    | row | attr | sha =>
        rw [Function.update_of_ne (by simp), Function.update_of_ne (by simp), rep.own found]
        rfl
  · intro p id' other
    rw [Function.update_of_ne (by simp [other]), Function.update_of_ne (by simp)]
  · rintro new x ⟨⟩ keyed
    cases keyed
    rw [Function.update_of_ne (by simp), Function.update_self]
  · intro x id' other held
    have apart : x ≠ keyID := by
      rintro rfl
      exact free id' held
    rw [Function.update_of_ne (by simp), Function.update_of_ne (by simp [apart])]
  · intro x there
    by_cases same : x = keyID
    · exact .inl ⟨_, rfl, congrArg some same.symm⟩
    · rw [Function.update_of_ne (by simp), Function.update_of_ne (by simp [same])] at there
      obtain ⟨id', k', found', keyed⟩ := rep.only there
      refine .inr ⟨id', ?_, k', found', keyed⟩
      rintro rfl
      cases found.symm.trans found'
      cases keyless.symm.trans keyed
  · intro o
    rw [Function.update_of_ne (by simp), Function.update_of_ne (by simp)]
    exact rep.owner o

theorem remove {κ' : Slot → Cell GoString} (rep : Represents κ T) (own : ∀ p, κ' (.part p id) = none)
    (others : ∀ p id', id' ≠ id → κ' (.part p id') = κ (.part p id'))
    (keys : ∀ keyID, T.KeyLeadsTo keyID id → κ' (.key keyID) = none)
    (otherKeys : ∀ keyID, ¬ T.KeyLeadsTo keyID id → κ' (.key keyID) = κ (.key keyID))
    (owned : ∀ o, κ' (.owner (formatInt o)) = κ (.owner (formatInt o))) :
    Represents κ' (T.put id none) := by
  apply rep.replace
  · rintro new ⟨⟩
  · exact own
  · exact others
  · rintro new keyID ⟨⟩
  · intro keyID id' other held
    exact otherKeys keyID fun held' => other (rep.keyLeadsTo_unique held held')
  · intro keyID there
    by_cases held : T.KeyLeadsTo keyID id
    · rw [keys keyID held] at there
      cases there
    · rw [otherKeys keyID held] at there
      obtain ⟨id', held'⟩ := rep.only there
      exact .inr ⟨id', fun same => held (same ▸ held'), held'⟩
  · exact fun o => (owned o).trans (rep.owner o)

theorem setOwner (rep : Represents κ T) (o : Int) (cell : Cell GoString) :
    Represents (Function.update κ (.owner (formatInt o)) cell)
      { T with owners := Function.update T.owners o cell } where
  named := rep.named
  part := fun p id => (Function.update_of_ne (by simp) ..).trans (rep.part p id)
  key := fun found keyed => (Function.update_of_ne (by simp) ..).trans (rep.key found keyed)
  only := by
    intro keyID there
    rw [Function.update_of_ne (by simp)] at there
    exact rep.only there
  owner := update_owner rep.owner o cell

end Represents

section Scripts

variable {r : Redis} {now : Int} {db : Keyspace GoString} {T : Table}

theorem evalPutSession_does (laid : Laid r.layout db) (rep : Represents (db.cells r.name) T)
    {s : Session} (plain : Plain s.id) (absent : T.sessions s.id = none) {ttl : Duration}
    (small : double ttl.milliseconds = ttl.milliseconds) :
    let out := (r.evalPutSession s ttl).eval (Cmd.total now) db
    Redis.errOf out.1 = .ok () ∧ Represents (out.2.cells r.name) (T.putSession now s ttl.milliseconds) := by
  let id : PlainID := ⟨s.id, plain⟩
  have script : r.evalPutSession s ttl = putSessionScript (r.name (.part .row id)) s ttl.milliseconds := by
    rw [← r.sessKey_name]
    rfl
  have fit : ∀ d ∈ [(r.name (.part .row id), Kind.hash)], db.fit d.1 d.2 = true :=
    Redis.fits laid [.part .row id]
  have fields : ((db.cells r.name (.part .row id)).look, (db.cells r.name (.part .row id)).expiry) =
      (fun _ => none, none) := by
    rw [rep.own_none absent]
    rfl
  simp only [Prod.mk.injEq] at fields
  simp only [script, putSessionScript, eval_checked fit, Prog.eval_bind, eval_hset, small,
    Prog.pure_eq, eval_ret, eval_expire, Keyspace.cells_hset r.name_injective, Function.update_self,
    Function.update_idem, fields, Session.look_fields]
  refine ⟨rfl, ?_⟩
  have created : Represents (Function.update (db.cells r.name) (.part .row id) (some (.hash s.look,
      if 0 < ttl.milliseconds then some (millis now + ttl.milliseconds) else none))) _ :=
    rep.create absent rfl _
  convert created using 2
  · split_ifs <;> rfl
  · rfl

theorem eval_storeKey (now ttl : Int) {id : PlainID} (empty : db.cells r.name (.part .keys id) = none)
    (keyID : GoString) :
    let set := ((setKey (r.name (.key keyID)) id ttl).eval (Cmd.total now) db).2
    ((onlyIf (0 < ttl) (call (.pexpire (r.name (.part .keys id)) ttl))).eval (Cmd.total now)
      (set.sadd (r.name (.part .keys id)) keyID)).2.cells r.name =
      let expiry := if 0 < ttl then some (millis now + ttl) else none
      Function.update (Function.update (db.cells r.name) (.key keyID) (some (.text id, expiry)))
        (.part .keys id) (some (.set {keyID}, expiry)) := by
  intro set
  have cells : set.cells r.name = Function.update (db.cells r.name) (.key keyID)
      (some (.text id, if 0 < ttl then some (millis now + ttl) else none)) := by
    simp only [set, setKey]
    split_ifs
    · exact Keyspace.cells_setText r.name_injective _ _
    · exact Keyspace.cells_setText r.name_injective _ _
  have reverse : set.cells r.name (.part .keys id) = none := by
    rw [cells, Function.update_of_ne (by simp), empty]
  rw [eval_expire, Keyspace.cells_sadd r.name_injective, Function.update_self, Function.update_idem,
    reverse, cells]
  congr 1
  split_ifs <;> simp [Cell.expireAt, Cell.members, Cell.expiry]

theorem pttl_spec {expiry : Option Int} {now ttl : Int}
    (told : ttl = expiry.elim (-1) fun e => max 0 (e - now)) :
    (ttl = 0 ↔ expiry.any (· ≤ now) = true) ∧
    (ttl ≠ 0 → (if 0 < ttl then some (now + ttl) else none) = expiry) := by
  cases expiry with
  | none =>
      subst told
      simp
  | some e =>
      simp only [Option.elim_some] at told
      simp only [Option.any_some, decide_eq_true_eq]
      refine ⟨by omega, fun left => ?_⟩
      rw [if_pos (by omega), Option.some.injEq]
      omega

theorem evalPutKey_does (laid : Laid r.layout db) (rep : Represents (db.cells r.name) T)
    {keyID : GoString} (id : PlainID) (free : ∀ id', ¬ T.KeyLeadsTo keyID id')
    (keyless : ∀ k, T.sessions id = some k → k.key = none) :
    let out := (r.evalPutKey keyID id).eval (Cmd.total now) db
    let said := T.putKey now keyID id
    Redis.foundOf out.1 = said.1 ∧ Represents (out.2.cells r.name) said.2 := by
  have script : r.evalPutKey keyID id = putKeyScript (r.name (.part .row id)) (r.name (.key keyID))
      (r.name (.part .keys id)) id keyID := by
    rw [← r.sessKey_name]
    rfl
  have fit : ∀ d ∈ [(r.name (.part .row id), Kind.hash), (r.name (.key keyID), .string),
      (r.name (.part .keys id), .set)], db.fit d.1 d.2 = true :=
    Redis.fits laid [.part .row id, .key keyID, .part .keys id]
  simp only [script, putKeyScript, eval_checked fit, Prog.eval_bind, eval_existsKey, isSome_row rep,
    Table.putKey]
  cases found : T.sessions id with
  | none => exact ⟨rfl, rep⟩
  | some k =>
      have reverse : db.cells r.name (.part .keys id) = none := by
        rw [rep.own found, Kept.cell, keyless k found]
        rfl
      have added := rep.addKey found (keyless k found) free
      obtain ⟨ttl, told⟩ : ∃ ttl, ttl = k.expiry.elim (-1) fun e => max 0 (e - millis now) := ⟨_, rfl⟩
      have read : Prog.eval (α := Int) (Cmd.total now) (call (.pttl (r.name (.part .row id)))) db =
          (ttl, db) := by
        rw [eval_pttl, Keyspace.pttl_cells, rep.row found, told]
        rfl
      obtain ⟨ended, left⟩ := pttl_spec told
      simp only [Option.isSome_some, Bool.not_true, Bool.false_eq_true, if_false, Prog.eval_bind]
      rw [read]
      by_cases none : ttl = 0
      · simp only [none, if_true, ended.mp none]
        exact ⟨rfl, rep⟩
      · simp only [none, if_false, mt ended.mpr none, Prog.eval_bind, eval_sadd, Prog.pure_eq, eval_ret,
          eval_storeKey now ttl reverse, left none]
        exact ⟨rfl, added⟩

theorem eval_delEach (now : Int) (slots : List Slot) :
    ((delEach (slots.map r.name)).eval (Cmd.total now) db).2.cells r.name =
      fun n => if n ∈ slots then none else db.cells r.name n := by
  induction slots generalizing db with
  | nil => rfl
  | cons n slots ih =>
      simp only [List.map_cons, delEach, Prog.eval_bind, eval_del]
      rw [ih, Keyspace.cells_remove r.name_injective]
      funext m
      by_cases same : m = n
      · simp [same]
      · simp [same]

theorem removeSession_does (now : Int) (rep : Represents (db.cells r.name) T) (id : PlainID) :
    Represents (((removeSession (r.name (.part .row id)) (r.name (.part .attr id))
      (r.name (.part .sha id)) (r.name (.part .keys id)) r.keyPrefix).eval (Cmd.total now) db).2.cells
        r.name) (T.put id none) := by
  have listed : ∀ keyID, keyID ∈ (db.members (r.name (.part .keys id))).keys ↔ T.KeyLeadsTo keyID id := by
    intro keyID
    rw [← Keyspace.mem_members_cells, rep.part, Table.KeyLeadsTo]
    cases T.sessions id with
    | none => simp [Cell.members]
    | some k =>
        cases keyed : k.key with
        | none => simp [Kept.cell, Cell.members, keyed]
        | some own => simp [Kept.cell, Cell.members, keyed, eq_comm]
  have keyNames : (db.members (r.name (.part .keys id))).keys.map (r.keyPrefix ++ ·) =
      ((db.members (r.name (.part .keys id))).keys.map Slot.key).map r.name := by
    rw [List.map_map]
    rfl
  have cells : ((removeSession (r.name (.part .row id)) (r.name (.part .attr id))
      (r.name (.part .sha id)) (r.name (.part .keys id)) r.keyPrefix).eval (Cmd.total now) db).2.cells
        r.name = fun n =>
      if n ∈ [Slot.part .row id, .part .attr id, .part .sha id, .part .keys id] then none
      else if n ∈ (db.members (r.name (.part .keys id))).keys.map Slot.key then none
      else db.cells r.name n := by
    simp only [removeSession, Prog.eval_bind, eval_smembers, keyNames]
    exact (eval_delEach now [Slot.part .row id, .part .attr id, .part .sha id, .part .keys id]).trans
      (by rw [eval_delEach])
  rw [cells]
  apply rep.remove
  · intro p
    cases p <;> simp
  · intro p id' other
    simp [other]
  · intro keyID held
    simp [(listed keyID).mpr held]
  · intro keyID untouched
    simp [mt (listed keyID).mp untouched]
  · simp

theorem srem_does (rep : Represents (db.cells r.name) T) (o : Int) (id : GoString) :
    Represents ((db.srem (r.ownerPrefix ++ formatInt o) id).cells r.name)
      { T with owners := T.unindex o id } := by
  rw [Redis.ownerPrefix_name, Keyspace.cells_srem r.name_injective, rep.owner]
  exact rep.setOwner o _

theorem owner_field (rep : Represents (db.cells r.name) T) (id : PlainID) :
    ((db.fields (r.name (.part .row id))).get (lit "owner_id")).getD (lit "0") =
      formatInt (T.ownerOf id) := by
  rw [← Keyspace.look_cells, Table.ownerOf]
  cases found : T.sessions id with
  | none =>
      rw [rep.own_none found]
      rfl
  | some k =>
      rw [rep.row found]
      rfl

theorem evalDeleteSession_does (laid : Laid r.layout db) (rep : Represents (db.cells r.name) T)
    (id : PlainID) :
    let out := (r.evalDeleteSession id).eval (Cmd.total now) db
    Redis.errOf out.1 = .ok () ∧ Represents (out.2.cells r.name) (T.deleteSession id) := by
  have script : r.evalDeleteSession id = deleteSessionScript (r.name (.part .row id))
      (r.name (.part .attr id)) (r.name (.part .sha id)) (r.name (.part .keys id)) r.keyPrefix
      r.ownerPrefix id := by
    rw [← r.sessKey_name]
    rfl
  have fit : ∀ d ∈ [(r.name (.part .row id), Kind.hash), (r.name (.part .attr id), .hash),
      (r.name (.part .sha id), .hash), (r.name (.part .keys id), .set)], db.fit d.1 d.2 = true :=
    Redis.fits laid [.part .row id, .part .attr id, .part .sha id, .part .keys id]
  have zero : formatInt (T.ownerOf id) ≠ lit "0" ↔ T.ownerOf id ≠ 0 :=
    formatInt_injective.ne_iff (y := 0)
  have owners : ∀ d ∈ (if formatInt (T.ownerOf id) ≠ lit "0"
      then [(r.ownerPrefix ++ formatInt (T.ownerOf id), Kind.set)] else []), db.fit d.1 d.2 = true := by
    intro d listed
    split_ifs at listed
    · obtain rfl := List.mem_singleton.mp listed
      exact laid.fit (r.layout_owner _)
    · cases listed
  have removed := removeSession_does now rep id
  simp only [script, deleteSessionScript, eval_checked fit, Prog.eval_bind]
  rw [eval_hget, owner_field rep, eval_checked owners]
  simp only [Prog.eval_bind, Prog.pure_eq, eval_ret, eval_onlyIf, eval_srem, zero, decide_eq_true_eq,
    Table.deleteSession]
  refine ⟨rfl, ?_⟩
  split_ifs
  · exact srem_does removed _ _
  · exact removed

theorem evalDeleteSessionByOwner_does (laid : Laid r.layout db) (rep : Represents (db.cells r.name) T)
    (o : Int) (id : PlainID) :
    let out := (r.evalDeleteSessionByOwner o id).eval (Cmd.total now) db
    let said := T.deleteSessionByOwner o id
    Redis.deletedOf out.1 = said.1 ∧ Represents (out.2.cells r.name) said.2 := by
  have script : r.evalDeleteSessionByOwner o id = deleteSessionByOwnerScript (r.name (.part .row id))
      (r.name (.owner (formatInt o))) (r.name (.part .attr id)) (r.name (.part .sha id))
      (r.name (.part .keys id)) r.keyPrefix id o := by
    rw [← r.sessKey_name]
    rfl
  have fit : ∀ d ∈ [(r.name (.part .row id), Kind.hash), (r.name (.owner (formatInt o)), .set),
      (r.name (.part .attr id), .hash), (r.name (.part .sha id), .hash), (r.name (.part .keys id), .set)],
      db.fit d.1 d.2 = true :=
    Redis.fits laid [.part .row id, .owner (formatInt o), .part .attr id, .part .sha id, .part .keys id]
  simp only [script, deleteSessionByOwnerScript, eval_checked fit, Prog.eval_bind, eval_hget,
    owner_field rep, ne_eq, formatInt_injective.eq_iff, Table.deleteSessionByOwner]
  by_cases owned : T.ownerOf id = o
  · simp only [owned, not_true, if_false, if_true, Prog.eval_bind, eval_srem, Prog.pure_eq, eval_ret]
    exact ⟨rfl, srem_does (removeSession_does now rep id) o id⟩
  · simp only [owned, not_false_eq_true, if_true, if_false, Prog.eval_bind, eval_srem, Prog.pure_eq,
      eval_ret]
    exact ⟨rfl, srem_does rep o id⟩

theorem getSession_does (rep : Represents (db.cells r.name) T) (id : PlainID) :
    (r.getSession id).eval (Cmd.total now) db =
      ((T.sessions id).elim (.error .notFound) (fun k => .ok k.row.reparsed), db) := by
  have look : (db.cells r.name (.part .row id)).look = (db.fields (r.name (.part .row id))).get :=
    Keyspace.look_cells
  unfold Redis.getSession
  rw [r.sessKey_name]
  simp only [Prog.eval_bind, eval_hgetall, Prog.pure_eq, eval_ret]
  cases found : T.sessions id with
  | none =>
      rw [rep.own_none found] at look
      have empty : (db.fields (r.name (.part .row id))).len = 0 :=
        GoMap.len_eq_zero_iff.mpr fun field => (congrFun look field).symm
      rw [if_pos empty]
      rfl
  | some k =>
      rw [rep.row found] at look
      have full : (db.fields (r.name (.part .row id))).len ≠ 0 := by
        intro empty
        have gone := GoMap.len_eq_zero_iff.mp empty (lit "creation")
        rw [← look] at gone
        cases gone
      have atoi : ∀ field, Redis.atoi (db.fields (r.name (.part .row id))) field =
          ((k.row.look field).bind parseInt).getD 0 := by
        intro field
        rw [Redis.atoi, ← look]
        rfl
      have decoded : Redis.decode id (db.fields (r.name (.part .row id))) = k.row.reparsed := by
        simp only [Redis.decode, atoi, ← look, Session.reparsed, (rep.named found).2]
        rfl
      rw [if_neg full, decoded]
      rfl

theorem getKey_does (rep : Represents (db.cells r.name) T) (keyID : GoString) :
    let out := (r.getKey keyID).eval (Cmd.total now) db
    ((out.1 = .error .notFound ∧ ∀ id, ¬ T.KeyLeadsTo keyID id) ∨
      ∃ id, out.1 = .ok id ∧ T.KeyLeadsTo keyID id) ∧
      out.2 = db := by
  unfold Redis.getKey
  simp only [Redis.keyKey_name, Prog.eval_bind, eval_get, Prog.pure_eq, eval_ret, and_true]
  cases text : db.text (r.name (.key keyID)) with
  | none =>
      refine .inl ⟨rfl, fun id held => ?_⟩
      have there := rep.text_key.mpr held
      rw [Keyspace.text_cells, text] at there
      cases there
  | some id =>
      refine .inr ⟨id, rfl, rep.text_key.mp ?_⟩
      rw [Keyspace.text_cells, text]

theorem cookies_does (rep : Represents (db.cells r.name) T) (id : PlainID) :
    (db.fields (r.name (.part .attr id))).get = (T.sessions id).elim (fun _ => none) Kept.cookies ∧
    (db.fields (r.name (.part .sha id))).get = (T.sessions id).elim (fun _ => none) Kept.shas := by
  rw [← Keyspace.look_cells, ← Keyspace.look_cells]
  cases found : T.sessions id with
  | none =>
      rw [rep.own_none found, rep.own_none found]
      exact ⟨rfl, rfl⟩
  | some k =>
      rw [rep.own found, rep.own found]
      exact ⟨Cell.look_ofLook .., Cell.look_ofLook ..⟩

theorem double_milliseconds {d : Duration} (ranged : -2 ^ 63 ≤ d ∧ d < 2 ^ 63) :
    double d.milliseconds = d.milliseconds := by
  obtain ⟨low, high⟩ := milliseconds_bounds ranged.1 ranged.2
  exact double_of_lt (by omega) (by omega)

theorem request_does {c : StoreCall} {script : Script GoString c.Answer}
    (request : r.request c = some script) (sane : c.Sane) (admits : T.Admits c)
    (laid : Laid r.layout db) (rep : Represents (db.cells r.name) T) :
    ∃ T', T.Does now c (script.eval (Cmd.total now) db).1 T' ∧
      Represents ((script.eval (Cmd.total now) db).2.cells r.name) T' := by
  have small : ∀ d ∈ StoreMethod.durations (.call c), double d.milliseconds = d.milliseconds :=
    fun d member => double_milliseconds (sane.durations d member)
  have plain := sane.plain
  cases c with
  | putSession s ttl =>
      cases request
      obtain ⟨said, rep'⟩ := evalPutSession_does laid rep (plain _ rfl) admits
        (small ttl List.mem_cons_self)
      rw [eval_map]
      exact ⟨_, ⟨said, rfl⟩, rep'⟩
  | touchSession id keyID lastAccess legacyRotation ttl =>
      cases request
      obtain ⟨said, rep'⟩ := evalTouchSession_does laid rep ⟨id, plain _ rfl⟩ keyID lastAccess
        legacyRotation ttl
      rw [eval_map]
      exact ⟨_, Prod.ext said rfl, rep'⟩
  | applySessionControls id c ttl ownerTTL =>
      cases request
      obtain ⟨said, rep'⟩ := evalApplySessionControls_does laid rep ⟨id, plain _ rfl⟩ c
        (small ttl (by simp [StoreMethod.durations])) (small ownerTTL (by simp [StoreMethod.durations]))
      rw [eval_map]
      exact ⟨_, Prod.ext said rfl, rep'⟩
  | rotateSessionKey id oldKeyID newKeyID lastRotation ttl =>
      cases request
      obtain ⟨said, rep'⟩ := evalApplySessionControls_does laid rep ⟨id, plain _ rfl⟩ _
        (small ttl List.mem_cons_self) (double_milliseconds (d := 0) (by decide))
      rw [eval_map]
      exact ⟨_, Prod.ext said rfl, rep'⟩
  | deleteSession id =>
      cases request
      obtain ⟨said, rep'⟩ := evalDeleteSession_does laid rep ⟨id, plain _ rfl⟩
      rw [eval_map]
      exact ⟨_, ⟨said, rfl⟩, rep'⟩
  | putKey keyID id ttl =>
      cases request
      obtain ⟨said, rep'⟩ := evalPutKey_does laid rep ⟨id, plain _ rfl⟩ admits.1 admits.2
      rw [eval_map]
      exact ⟨_, Prod.ext said rfl, rep'⟩
  | deleteSessionByOwner o id =>
      cases request
      obtain ⟨said, rep'⟩ := evalDeleteSessionByOwner_does laid rep o ⟨id, plain _ rfl⟩
      rw [eval_map]
      exact ⟨_, Prod.ext said rfl, rep'⟩
  | getSession id =>
      cases request
      rw [getSession_does rep ⟨id, plain _ rfl⟩]
      exact ⟨T, ⟨rfl, rfl⟩, rep⟩
  | getKey keyID =>
      cases request
      obtain ⟨said, same⟩ := getKey_does rep keyID
      rw [same]
      exact ⟨T, ⟨said, rfl⟩, rep⟩
  | getCookies id =>
      cases request
      rw [eval_map, eval_hgetall]
      exact ⟨T, ⟨⟨_, rfl, (cookies_does rep ⟨id, plain _ rfl⟩).1⟩, rfl⟩, rep⟩
  | cookieSHAs id =>
      cases request
      rw [eval_map, eval_hgetall]
      exact ⟨T, ⟨⟨_, rfl, (cookies_does rep ⟨id, plain _ rfl⟩).2⟩, rfl⟩, rep⟩
  | ownerSessions o =>
      cases request
      rw [eval_map, eval_smembers]
      refine ⟨T, ⟨⟨_, rfl, GoMap.keys_nodup _, fun id => ?_⟩, rfl⟩, rep⟩
      rw [r.ownerKey_name, ← Keyspace.mem_members_cells, rep.owner]
  | lock id ttl => cases request
  | unlock id => cases request

theorem Represents.asOf_cells (rep : Represents (db.cells r.name) T) (now : Int) :
    Represents ((db.asOf now).cells r.name) (T.asOf now) := by
  have cells : (db.asOf now).cells r.name = fun n => (db.cells r.name n).asOf now :=
    funext fun n => Keyspace.cells_asOf now
  rw [cells]
  exact rep.asOf now

/-- On a keyspace that represents a table, a call does what the table says at that time. -/
theorem exec_does {c : StoreCall} {script : Script GoString c.Answer}
    (request : r.request c = some script) (sane : c.Sane) (epoch : millis now < 2 ^ 62)
    (admits : (T.asOf now).Admits c) (laid : Laid r.layout db) (rep : Represents (db.cells r.name) T) :
    ∃ answer T', (exec now script db).1 = some answer ∧ (T.asOf now).Does now c answer T' ∧
      Represents ((exec now script db).2.cells r.name) T' ∧ Laid r.layout (exec now script db).2 := by
  obtain ⟨ran, laid'⟩ := Redis.exec_eq request sane epoch laid
  obtain ⟨T', does, rep'⟩ := request_does request sane admits (laid.asOf now) (rep.asOf_cells now)
  rw [ran]
  exact ⟨_, T', rfl, does, rep', laid'⟩

end Scripts

end Gosestor.Store
