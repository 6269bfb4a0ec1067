import Gosestor.Proof.Store.Table

/-!
# What the scripts leave in the keyspace

Each part of a script on the cells of the store, and each script on the table that they represent.
-/

namespace Gosestor.Store

open Gosestor.Go Gosestor.Lib Gosestor.Lib.Redis

section Eval

variable {now : Int} {db : Keyspace GoString}

theorem eval_onlyIf (condition : Bool) (s : Script GoString Unit) :
    ((onlyIf condition s).eval (Cmd.total now) db).2 =
      if condition then (s.eval (Cmd.total now) db).2 else db := by
  unfold onlyIf
  split_ifs <;> rfl

theorem eval_checked {keys : List (GoString × Kind)} (fit : ∀ d ∈ keys, db.fit d.1 d.2 = true)
    (rest : LuaScript) :
    (checked keys rest).eval (Cmd.total now) db = rest.eval (Cmd.total now) db := by
  have types : (requireTypes keys).eval (Cmd.total now) db = (none, db) := by
    induction keys with
    | nil => rfl
    | cons d keys ih =>
        have right : ¬ (db.kind d.1 ≠ none ∧ db.kind d.1 ≠ some d.2) := by
          have fits := Keyspace.fit_iff.mp (fit d List.mem_cons_self)
          unfold Keyspace.kind
          cases held : db d.1 with
          | none => simp
          | some e => simp [fits e held]
        have rest := ih fun d member => fit d (List.mem_cons_of_mem _ member)
        simp only [requireTypes, requireType, bind_assoc, Prog.eval_bind, eval_typeOf, pure_bind]
        rw [if_neg right]
        exact rest
  unfold checked
  rw [Prog.eval_bind, types]

end Eval

namespace Session

variable (s : Session)

theorem look_fields : override (fun _ => none)
    [(lit "creation", formatInt s.creation), (lit "last_access", formatInt s.lastAccess),
     (lit "inactive_timeout", formatInt s.inactiveTimeout),
     (lit "final_timeout", formatInt s.finalTimeout), (lit "owner_id", formatInt s.ownerID),
     (lit "last_rotation", formatInt s.lastRotation), (lit "labels", s.labels)] = s.look := by
  funext field
  simp only [override, List.foldl_cons, List.foldl_nil, Function.update_apply]
  by_cases creation : field = lit "creation"
  · subst creation
    rfl
  by_cases lastAccess : field = lit "last_access"
  · subst lastAccess
    rfl
  by_cases inactive : field = lit "inactive_timeout"
  · subst inactive
    rfl
  by_cases final : field = lit "final_timeout"
  · subst final
    rfl
  by_cases owner : field = lit "owner_id"
  · subst owner
    rfl
  by_cases rotation : field = lit "last_rotation"
  · subst rotation
    rfl
  simp only [Session.look, if_neg creation, if_neg lastAccess, if_neg inactive, if_neg final,
    if_neg owner, if_neg rotation]

theorem look_set {s s' : Session} {name text : GoString} (own : s'.look name = some text)
    (others : ∀ field, field ≠ name → s'.look field = s.look field) :
    override s.look [(name, text)] = s'.look := by
  funext field
  by_cases same : field = name
  · subst same
    exact (Function.update_self ..).trans own.symm
  · exact (Function.update_of_ne same ..).trans (others field same).symm

theorem look_lastAccess (n : Int) :
    override s.look [(lit "last_access", formatInt n)] = { s with lastAccess := n }.look :=
  look_set rfl fun field other => by simp only [Session.look, if_neg other]

theorem look_ownerID (n : Int) :
    override s.look [(lit "owner_id", formatInt n)] = { s with ownerID := n }.look :=
  look_set rfl fun field other => by simp only [Session.look, if_neg other]

theorem look_lastRotation (n : Int) :
    override s.look [(lit "last_rotation", formatInt n)] = { s with lastRotation := n }.look :=
  look_set rfl fun field other => by simp only [Session.look, if_neg other]

theorem look_labels (labels : GoString) :
    override s.look [(lit "labels", labels)] = { s with labels := labels }.look :=
  look_set rfl fun field other => by simp only [Session.look, if_neg other]

end Session

section Parts

variable (r : Redis) {now : Int} {db : Keyspace GoString}

theorem eval_numberField (n : Slot) (field : GoString) :
    (numberField (r.name n) field).eval (Cmd.total now) db =
      ((tonumber (((db.cells r.name n).look field).getD (lit "0"))).getD 0, db) := by
  rw [Keyspace.look_cells]
  rfl

theorem eval_boundedTTL {n : Slot} {s : Session} (row : (db.cells r.name n).look = s.look)
    (lastAccess ttl : Int) :
    (boundedTTL (r.name n) lastAccess ttl).eval (Cmd.total now) db =
      ((reread s.lastAccess, double lastAccess, s.bound now lastAccess ttl), db) := by
  simp only [boundedTTL, Prog.eval_bind, eval_numberField, eval_time, row]
  rfl

theorem eval_expire (now : Int) (n : Slot) (ttl : Int) :
    ((onlyIf (0 < ttl) (call (.pexpire (r.name n) ttl))).eval (Cmd.total now) db).2.cells r.name =
      Function.update (db.cells r.name) n (if 0 < ttl
        then (db.cells r.name n).expireAt (millis now + ttl) else db.cells r.name n) := by
  rw [eval_onlyIf]
  by_cases positive : 0 < ttl
  · simp only [positive, decide_true, if_true, eval_pexpire]
    exact Keyspace.cells_expireAt r.name_injective (by omega)
  · simp [positive]

theorem eval_refreshTTL {ttl : Int} (positive : 0 < ttl) (slots : List Slot) :
    ((refreshTTL ttl (slots.map r.name)).eval (Cmd.total now) db).2.cells r.name = fun n =>
      if n ∈ slots then (db.cells r.name n).expireAt (millis now + ttl) else db.cells r.name n := by
  induction slots generalizing db with
  | nil => rfl
  | cons n slots ih =>
      have first : ((onlyIf (db (r.name n)).isSome (call (.pexpire (r.name n) ttl))).eval
          (Cmd.total now) db).2.cells r.name =
          Function.update (db.cells r.name) n
            ((db.cells r.name n).expireAt (millis now + ttl)) := by
        rw [eval_onlyIf]
        split_ifs with there
        · exact Keyspace.cells_expireAt r.name_injective (by omega)
        · have absent : db.cells r.name n = none := by
            simpa [Keyspace.cells] using there
          have same : (db.cells r.name n).expireAt (millis now + ttl) = db.cells r.name n := by
            rw [absent]
            rfl
          rw [same, Function.update_eq_self]
      simp only [List.map_cons, refreshTTL, Prog.eval_bind, eval_existsKey]
      rw [ih, first]
      funext m
      by_cases same : m = n
      · subst same
        simp [Cell.expireAt_expireAt]
      · simp [same]

theorem eval_applyCookie (now : Int) {attr sha : Slot} (apart : attr ≠ sha) (cookie : CookieMutation)
    {a b : GoString → Option GoString} {x y : Option Int}
    (values : db.cells r.name attr = .ofLook a x) (hashes : db.cells r.name sha = .ofLook b y) :
    let after := ((applyCookie (r.name attr) (r.name sha) cookie).eval (Cmd.total now) db).2.cells r.name
    (∃ x, after attr = .ofLook (mutate (·.value) a [cookie]) x) ∧
    (∃ y, after sha = .ofLook (mutate (·.sha) b [cookie]) y) ∧
    ∀ n, n ≠ attr → n ≠ sha → after n = db.cells r.name n := by
  unfold applyCookie
  cases gone : cookie.delete with
  | true =>
      simp only [if_true, Prog.eval_bind, eval_hdel, mutate, List.foldl_cons, List.foldl_nil, gone,
        Keyspace.cells_hdel r.name_injective]
      refine ⟨⟨(db.cells r.name attr).expiry, ?_⟩, ⟨(db.cells r.name sha).expiry, ?_⟩,
        fun n other other' => ?_⟩
      · rw [Function.update_of_ne apart, Function.update_self, values, Cell.look_ofLook]
      · rw [Function.update_self, Function.update_of_ne apart.symm, hashes, Cell.look_ofLook]
      · rw [Function.update_of_ne other', Function.update_of_ne other]
  | false =>
      simp only [Bool.false_eq_true, if_false, Prog.eval_bind, eval_hset, mutate, List.foldl_cons,
        List.foldl_nil, gone, Keyspace.cells_hset r.name_injective]
      refine ⟨⟨(db.cells r.name attr).expiry, ?_⟩, ⟨(db.cells r.name sha).expiry, ?_⟩,
        fun n other other' => ?_⟩
      · rw [Function.update_of_ne apart, Function.update_self, values, Cell.look_ofLook]
        exact (Cell.ofLook_of_some (Function.update_self ..) _).symm
      · rw [Function.update_self, Function.update_of_ne apart.symm, hashes, Cell.look_ofLook]
        exact (Cell.ofLook_of_some (Function.update_self ..) _).symm
      · rw [Function.update_of_ne other', Function.update_of_ne other]

theorem eval_applyCookies (now : Int) {attr sha : Slot} (apart : attr ≠ sha) (cookies : List CookieMutation)
    {a b : GoString → Option GoString} {x y : Option Int}
    (values : db.cells r.name attr = .ofLook a x) (hashes : db.cells r.name sha = .ofLook b y) :
    let after := ((applyCookies (r.name attr) (r.name sha) cookies).eval (Cmd.total now) db).2.cells r.name
    (∃ x, after attr = .ofLook (mutate (·.value) a cookies) x) ∧
    (∃ y, after sha = .ofLook (mutate (·.sha) b cookies) y) ∧
    ∀ n, n ≠ attr → n ≠ sha → after n = db.cells r.name n := by
  induction cookies generalizing db a b x y with
  | nil => exact ⟨⟨x, values⟩, ⟨y, hashes⟩, fun _ _ _ => rfl⟩
  | cons cookie cookies ih =>
      obtain ⟨⟨x, values⟩, ⟨y, hashes⟩, kept⟩ := eval_applyCookie r now apart cookie values hashes
      obtain ⟨values, hashes, kept'⟩ := ih values hashes
      simp only [applyCookies, Prog.eval_bind]
      exact ⟨values, hashes, fun n other other' => (kept' n other other').trans (kept n other other')⟩

theorem update_owner {κ : Slot → Cell GoString} {owners : Int → Cell GoString}
    (owned : ∀ o, κ (.owner (formatInt o)) = owners o) (o : Int) (cell : Cell GoString) (o' : Int) :
    Function.update κ (.owner (formatInt o)) cell (.owner (formatInt o')) =
      Function.update owners o cell o' := by
  by_cases same : o' = o
  · subst same
    rw [Function.update_self, Function.update_self]
  · rw [Function.update_of_ne same, Function.update_of_ne, owned]
    simpa using formatInt_injective.ne same

structure Stage (κ κ' : Slot → Cell GoString) (id : PlainID) (s : Session) (expiry : Option Int)
    (owners : Int → Cell GoString) : Prop where
  row : κ' (.part .row id) = some (.hash s.look, expiry)
  owner : ∀ o, κ' (.owner (formatInt o)) = owners o
  rest : ∀ n, n ≠ .part .row id → (∀ o, n ≠ .owner o) → κ' n = κ n

namespace Stage

variable {κ : Slot → Cell GoString} {id : PlainID} {s s' : Session} {expiry : Option Int}
  {owners : Int → Cell GoString}

theorem hset (stage : Stage κ (db.cells r.name) id s expiry owners) {name text : GoString}
    (sets : override s.look [(name, text)] = s'.look) :
    Stage κ ((db.hset (r.name (.part .row id)) [(name, text)]).cells r.name) id s' expiry owners := by
  rw [Keyspace.cells_hset r.name_injective, stage.row]
  refine ⟨?_, fun o => ?_, fun n other noOwner => ?_⟩
  · rw [Function.update_self]
    exact congrArg (fun look => some (Content.hash look, expiry)) sets
  · rw [Function.update_of_ne (by simp)]
    exact stage.owner o
  · rw [Function.update_of_ne other]
    exact stage.rest n other noOwner

theorem onlyIf (stage : Stage κ (db.cells r.name) id s expiry owners) (now : Int) (condition : Bool)
    {name text : GoString} (sets : override s.look [(name, text)] = s'.look) :
    Stage κ (((Store.onlyIf condition (call (.hset (r.name (.part .row id)) [(name, text)]))).eval
      (Cmd.total now) db).2.cells r.name) id (if condition then s' else s) expiry owners := by
  rw [eval_onlyIf]
  split_ifs
  · exact stage.hset r sets
  · exact stage

theorem setOwner {κ' : Slot → Cell GoString} (stage : Stage κ κ' id s expiry owners) (o : Int)
    (cell : Cell GoString) : Stage κ (Function.update κ' (.owner (formatInt o)) cell) id s expiry
      (Function.update owners o cell) := by
  refine ⟨?_, update_owner stage.owner o cell, fun n other noOwner => ?_⟩
  · rw [Function.update_of_ne (by simp)]
    exact stage.row
  · rw [Function.update_of_ne (noOwner _)]
    exact stage.rest n other noOwner

theorem sadd (stage : Stage κ (db.cells r.name) id s expiry owners) (o : Int) (member : GoString) :
    Stage κ ((db.sadd (r.ownerPrefix ++ formatInt o) member).cells r.name) id s expiry
      (Function.update owners o (some (.set (insert member (owners o).members), (owners o).expiry))) := by
  rw [Redis.ownerPrefix_name, Keyspace.cells_sadd r.name_injective, stage.owner]
  exact stage.setOwner o _

theorem srem {T : Table} (stage : Stage κ (db.cells r.name) id s expiry T.owners) (o : Int)
    (member : GoString) :
    Stage κ ((db.srem (r.ownerPrefix ++ formatInt o) member).cells r.name) id s expiry
      (T.unindex o member) := by
  rw [Redis.ownerPrefix_name, Keyspace.cells_srem r.name_injective, stage.owner]
  exact stage.setOwner o _

theorem index {T : Table} (stage : Stage κ (db.cells r.name) id s expiry T.owners) (now o : Int)
    (member : GoString) (ownerTTL : Int) :
    Stage κ (((Store.onlyIf (0 < ownerTTL) (call (.pexpire (r.ownerPrefix ++ formatInt o) ownerTTL))).eval
      (Cmd.total now) (db.sadd (r.ownerPrefix ++ formatInt o) member)).2.cells r.name) id s expiry
      (T.index now o member ownerTTL).owners := by
  have added := stage.sadd r o member
  rw [Redis.ownerPrefix_name] at added ⊢
  rw [eval_expire, added.owner, Function.update_self]
  have expiring := added.setOwner o (some (.set (insert member (T.owners o).members),
    if 0 < ownerTTL then some (millis now + ownerTTL) else (T.owners o).expiry))
  rw [Function.update_idem] at expiring
  convert expiring using 2
  · split_ifs <;> rfl
  · rfl

theorem moveOwner {T : Table} (stage : Stage κ (db.cells r.name) id s expiry T.owners) (o : Int)
    {ownerTTL : Int} (small : double ownerTTL = ownerTTL) :
    Stage κ (((moveOwnerSet (r.name (.part .row id)) r.ownerPrefix (formatInt s.ownerID)
      (formatInt o) id ownerTTL).eval (Cmd.total now) db).2.cells r.name) id
      { s with ownerID := o } expiry (T.moveOwner now s.ownerID o id ownerTTL) := by
  have zero : formatInt s.ownerID ≠ lit "0" ↔ s.ownerID ≠ 0 :=
    formatInt_injective.ne_iff (y := 0)
  have indexed := (stage.hset r (s.look_ownerID o)).index r now o id ownerTTL
  simp only [moveOwnerSet, Prog.eval_bind, eval_hset, eval_sadd, small, zero, Table.moveOwner]
  rw [eval_onlyIf]
  by_cases owned : s.ownerID = 0
  · simpa [owned] using indexed
  · simpa [owned] using indexed.srem r s.ownerID id

end Stage

theorem eval_swapKey {ttlMs : Int} {id : PlainID} {oldKeyID newKeyID : GoString} {expiry : Option Int}
    (keyed : db.cells r.name (.part .keys id) = some (.set {oldKeyID}, expiry)) :
    ((swapKey (r.name (.key oldKeyID)) (r.name (.key newKeyID)) (r.name (.part .keys id)) id oldKeyID
      newKeyID ttlMs).eval (Cmd.total now) db).2.cells r.name =
      Function.update (Function.update (Function.update (db.cells r.name)
        (.key newKeyID) (some (.text id, some (millis now + ttlMs))))
        (.key oldKeyID) none)
        (.part .keys id) (some (.set {newKeyID}, none)) := by
  simp only [swapKey, Prog.eval_bind, eval_set, eval_del, eval_srem, eval_sadd, Option.map_some,
    Keyspace.cells_sadd r.name_injective, Keyspace.cells_srem r.name_injective,
    Keyspace.cells_remove r.name_injective, Keyspace.cells_setText r.name_injective]
  -- The reverse set is emptied and made anew, without an expiration.
  have emptied : Cell.ofMembers (Cell.members (some (.set {oldKeyID}, expiry)) \ {oldKeyID})
      (Cell.expiry (some (Content.set {oldKeyID}, expiry))) = none := by
    simp [Cell.ofMembers, Cell.members]
  simp only [ne_eq, reduceCtorEq, not_false_eq_true, Function.update_of_ne, Function.update_self,
    Function.update_idem, keyed, emptied]
  simp [Cell.members, Cell.expiry]

end Parts

end Gosestor.Store
