import Gosestor.Lib.Redis
import Mathlib.Data.Set.Insert

/-!
# Redis keyspaces as their readers see them

A cell is what can be told of a key without looking at the order of a hash or a set: the lookups of
a hash, the members of a set, and the expiration. Keys are given by names, different names being
different keys; a command on a named key changes the cell of that name only.
-/

namespace Gosestor.Lib.Redis

variable {S N : Type}

inductive Content (S : Type)
  | text (text : S)
  | hash (look : S → Option S)
  | set (members : Set S)
  | other

abbrev Cell (S : Type) := Option (Content S × Option Int)

namespace Cell

def look : Cell S → S → Option S
  | some (.hash look, _) => look
  | _ => fun _ => none

def members : Cell S → Set S
  | some (.set members, _) => members
  | _ => ∅

def text : Cell S → Option S
  | some (.text text, _) => some text
  | _ => none

def expiry (cell : Cell S) : Option Int := cell.bind Prod.snd

open Classical in
noncomputable def ofLook (look : S → Option S) (expiry : Option Int) : Cell S :=
  if look = fun _ => none then none else some (.hash look, expiry)

open Classical in
noncomputable def ofMembers (members : Set S) (expiry : Option Int) : Cell S :=
  if members = ∅ then none else some (.set members, expiry)

def expireAt (cell : Cell S) (expiry : Int) : Cell S := cell.map fun c => (c.1, some expiry)

def asOf (cell : Cell S) (now : Int) : Cell S := cell.filter fun c => c.2.all (millis now ≤ ·)

theorem expireAt_expireAt (cell : Cell S) (expiry : Int) :
    (cell.expireAt expiry).expireAt expiry = cell.expireAt expiry := by
  cases cell <;> rfl

@[simp] theorem look_ofLook (fields : S → Option S) (expiry : Option Int) :
    (ofLook fields expiry).look = fields := by
  unfold ofLook
  split_ifs with empty
  · rw [empty]
    rfl
  · rfl

theorem ofLook_of_some {fields : S → Option S} {field value : S} (held : fields field = some value)
    (expiry : Option Int) : ofLook fields expiry = some (.hash fields, expiry) := by
  apply if_neg
  intro empty
  rw [empty] at held
  cases held

theorem expireAt_ofLook (fields : S → Option S) (old : Option Int) (expiry : Int) :
    (ofLook fields old).expireAt expiry = ofLook fields (some expiry) := by
  unfold ofLook
  split_ifs <;> rfl

@[simp] theorem members_ofMembers (members : Set S) (expiry : Option Int) :
    (ofMembers members expiry).members = members := by
  unfold ofMembers
  split_ifs with empty
  · rw [empty]
    rfl
  · rfl

theorem mem_members_asOf {cell : Cell S} {now : Int} {x : S} (member : x ∈ (cell.asOf now).members) :
    x ∈ cell.members := by
  unfold asOf at member
  cases cell with
  | none => exact member
  | some c =>
      simp only [Option.filter] at member
      split_ifs at member
      · exact member
      · cases member

theorem asOf_eq_self {cell : Cell S} {now x : Int} (expires : cell.expiry = some x)
    (later : millis now ≤ x) : cell.asOf now = cell := by
  cases cell with
  | none => rfl
  | some c =>
      have expires : c.2 = some x := expires
      simp [asOf, expires, later]

end Cell

def override [DecidableEq S] (look : S → Option S) (pairs : List (S × S)) : S → Option S :=
  pairs.foldl (fun look p => Function.update look p.1 (some p.2)) look

section Eval

variable [DecidableEq S] {α β : Type} {now : Int} {db : Keyspace S} {k : S}

@[simp] theorem eval_ret (value : α) :
    (Prog.ret value : Script S α).eval (Cmd.total now) db = (value, db) := rfl

theorem eval_map (f : α → β) (s : Script S α) :
    (f <$> s).eval (Cmd.total now) db =
      (f (s.eval (Cmd.total now) db).1, (s.eval (Cmd.total now) db).2) :=
  Prog.eval_bind _ s _ db

/-- The types of the replies are written out for the simplifier, and the proofs are in brackets to
keep it from rewriting a condition without its instance. -/
@[simp] theorem eval_typeOf :
    Prog.eval (α := Option Kind) (Cmd.total now) (call (.typeOf k)) db = (db.kind k, db) := (rfl)

@[simp] theorem eval_existsKey :
    Prog.eval (α := Bool) (Cmd.total now) (call (.existsKey k)) db = ((db k).isSome, db) := (rfl)

@[simp] theorem eval_get :
    Prog.eval (α := Option S) (Cmd.total now) (call (.get k)) db = (db.text k, db) := (rfl)

@[simp] theorem eval_set (text : S) (px : Option Int) :
    Prog.eval (α := Unit) (Cmd.total now) (call (.set k text px)) db =
      ((), db.setText k text (px.map (millis now + ·))) := (rfl)

@[simp] theorem eval_del :
    Prog.eval (α := Unit) (Cmd.total now) (call (.del k)) db = ((), db.remove k) := (rfl)

@[simp] theorem eval_hset (pairs : List (S × S)) :
    Prog.eval (α := Unit) (Cmd.total now) (call (.hset k pairs)) db = ((), db.hset k pairs) := (rfl)

@[simp] theorem eval_hget (field : S) :
    Prog.eval (α := Option S) (Cmd.total now) (call (.hget k field)) db =
      ((db.fields k).get field, db) := (rfl)

@[simp] theorem eval_hgetall :
    Prog.eval (α := GoMap S S) (Cmd.total now) (call (.hgetall k)) db = (db.fields k, db) := (rfl)

@[simp] theorem eval_hdel (field : S) :
    Prog.eval (α := Unit) (Cmd.total now) (call (.hdel k field)) db = ((), db.hdel k field) := (rfl)

@[simp] theorem eval_sadd (member : S) :
    Prog.eval (α := Unit) (Cmd.total now) (call (.sadd k member)) db = ((), db.sadd k member) := (rfl)

@[simp] theorem eval_srem (member : S) :
    Prog.eval (α := Unit) (Cmd.total now) (call (.srem k member)) db = ((), db.srem k member) := (rfl)

@[simp] theorem eval_smembers :
    Prog.eval (α := List S) (Cmd.total now) (call (.smembers k)) db = ((db.members k).keys, db) := (rfl)

@[simp] theorem eval_pexpire (ttl : Int) :
    Prog.eval (α := Unit) (Cmd.total now) (call (.pexpire k ttl)) db =
      ((), db.expireAt k now (millis now + ttl)) := (rfl)

@[simp] theorem eval_pttl :
    Prog.eval (α := Int) (Cmd.total now) (call (.pttl k)) db =
      ((db k).elim (-2) fun e => e.expiry.elim (-1) fun expiry => max 0 (expiry - millis now), db) :=
  (rfl)

@[simp] theorem eval_time :
    Prog.eval (α := Int × Int) (Cmd.total now) (call .time) db =
      ((now / 1000000, now % 1000000), db) := (rfl)

end Eval

section Cells

variable [DecidableEq S]

def Value.content : Value S → Content S
  | .string text => .text text
  | .hash fields => .hash fields.get
  | .set members => .set {x | members.get x ≠ none}
  | .other => .other

def Entry.cell (e : Entry S) : Content S × Option Int := (e.value.content, e.expiry)

def Keyspace.cells (name : N → S) (db : Keyspace S) (n : N) : Cell S := (db (name n)).map Entry.cell

namespace Keyspace

variable {name : N → S} {db : Keyspace S} {now : Int} {n : N}

theorem isSome_cells : (db.cells name n).isSome = (db (name n)).isSome := Option.isSome_map

theorem look_cells : (db.cells name n).look = (db.fields (name n)).get := by
  unfold cells fields
  cases db (name n) with
  | none => rfl
  | some e => obtain ⟨value, expiry⟩ := e; cases value <;> rfl

theorem members_cells : (db.cells name n).members = {x | (db.members (name n)).get x ≠ none} := by
  unfold cells members
  cases db (name n) with
  | none => simp [Cell.members]
  | some e =>
      obtain ⟨value, expiry⟩ := e
      cases value <;> simp [Cell.members, Entry.cell, Value.content, Value.members]

theorem mem_members_cells {x : S} :
    x ∈ (db.cells name n).members ↔ x ∈ (db.members (name n)).keys := by
  rw [members_cells, GoMap.mem_keys]
  rfl

theorem text_cells : (db.cells name n).text = db.text (name n) := by
  unfold cells text
  cases db (name n) with
  | none => rfl
  | some e => obtain ⟨value, expiry⟩ := e; cases value <;> rfl

theorem expiry_cells : (db.cells name n).expiry = db.expiry (name n) := by
  unfold cells expiry Cell.expiry
  cases db (name n) <;> rfl

theorem pttl_cells : ((db (name n)).elim (-2) fun e => e.expiry.elim (-1) fun expiry =>
      max 0 (expiry - millis now)) =
    (db.cells name n).elim (-2) fun c => c.2.elim (-1) fun expiry => max 0 (expiry - millis now) := by
  unfold cells
  cases db (name n) <;> rfl

theorem cells_asOf (now : Int) : (db.asOf now).cells name n = (db.cells name n).asOf now := by
  unfold cells asOf Cell.asOf
  cases db (name n) with
  | none => rfl
  | some e =>
      by_cases kept : e.expiry.all (millis now ≤ ·) <;> simp [Option.filter, Entry.cell, kept]

section Named

variable [DecidableEq N] (apart : Function.Injective name)

include apart

theorem cells_update (e : Option (Entry S)) :
    Keyspace.cells name (Function.update db (name n) e) =
      Function.update (db.cells name) n (e.map Entry.cell) := by
  funext n'
  by_cases same : n' = n
  · subst same
    simp [cells]
  · simp [cells, Function.update_of_ne same, Function.update_of_ne (apart.ne same)]

theorem cells_remove : (db.remove (name n)).cells name = Function.update (db.cells name) n none :=
  cells_update apart none

theorem cells_setText (text : S) (expiry : Option Int) :
    (db.setText (name n) text expiry).cells name =
      Function.update (db.cells name) n (some (.text text, expiry)) :=
  cells_update apart _

omit apart in
theorem get_override (fields : GoMap S S) (pairs : List (S × S)) :
    (pairs.foldl (fun fields p => fields.set p.1 p.2) fields).get = override fields.get pairs := by
  induction pairs generalizing fields with
  | nil => rfl
  | cons p pairs ih =>
      have first : (fields.set p.1 p.2).get = Function.update fields.get p.1 (some p.2) := by
        funext x
        rw [GoMap.get_set, Function.update_apply]
      rw [List.foldl_cons, ih, first]
      rfl

theorem cells_hset (pairs : List (S × S)) :
    (db.hset (name n) pairs).cells name = Function.update (db.cells name) n
      (some (.hash (override (db.cells name n).look pairs), (db.cells name n).expiry)) := by
  rw [hset, store, cells_update apart, look_cells, expiry_cells, ← get_override]
  rfl

theorem cells_hdel (field : S) :
    (db.hdel (name n) field).cells name = Function.update (db.cells name) n
      (.ofLook (Function.update (db.cells name n).look field none) (db.cells name n).expiry) := by
  have rest : ((db.fields (name n)).delete field).get =
      Function.update (db.cells name n).look field none := by
    funext x
    rw [GoMap.get_delete, look_cells, Function.update_apply]
  have empty : ((db.fields (name n)).delete field).len = 0 ↔
      (Function.update (db.cells name n).look field none) = fun _ => none := by
    rw [GoMap.len_eq_zero_iff, ← rest]
    exact ⟨funext, congrFun⟩
  unfold hdel
  by_cases gone : ((db.fields (name n)).delete field).len = 0
  · rw [if_pos gone, cells_remove apart, Cell.ofLook, if_pos (empty.mp gone)]
  · rw [if_neg gone, store, cells_update apart, Cell.ofLook, if_neg (mt empty.mpr gone), ← rest,
      expiry_cells]
    rfl

theorem cells_sadd (member : S) :
    (db.sadd (name n) member).cells name = Function.update (db.cells name) n
      (some (.set (insert member (db.cells name n).members), (db.cells name n).expiry)) := by
  have added : {x | ((db.members (name n)).set member ()).get x ≠ none} =
      insert member (db.cells name n).members := by
    ext x
    rw [members_cells, Set.mem_ofPred_eq, GoMap.get_set, Set.mem_insert_iff, Set.mem_ofPred_eq]
    split_ifs with same <;> simp [same]
  rw [sadd, store, cells_update apart, expiry_cells, ← added]
  rfl

theorem cells_srem (member : S) :
    (db.srem (name n) member).cells name = Function.update (db.cells name) n
      (.ofMembers ((db.cells name n).members \ {member}) (db.cells name n).expiry) := by
  have rest : {x | ((db.members (name n)).delete member).get x ≠ none} =
      (db.cells name n).members \ {member} := by
    ext x
    rw [members_cells, Set.mem_ofPred_eq, GoMap.get_delete, Set.mem_sdiff, Set.mem_ofPred_eq,
      Set.mem_singleton_iff]
    split_ifs with same <;> simp [same]
  have empty : ((db.members (name n)).delete member).len = 0 ↔
      (db.cells name n).members \ {member} = ∅ := by
    rw [GoMap.len_eq_zero_iff, ← rest, Set.eq_empty_iff_forall_notMem]
    simp
  unfold srem
  by_cases gone : ((db.members (name n)).delete member).len = 0
  · rw [if_pos gone, cells_remove apart, Cell.ofMembers, if_pos (empty.mp gone)]
  · rw [if_neg gone, store, cells_update apart, Cell.ofMembers, if_neg (mt empty.mpr gone), ← rest,
      expiry_cells]
    rfl

theorem cells_expireAt {expiry : Int} (future : millis now < expiry) :
    (db.expireAt (name n) now expiry).cells name =
      Function.update (db.cells name) n ((db.cells name n).expireAt expiry) := by
  rw [expireAt, cells_update apart]
  congr 1
  unfold cells Cell.expireAt
  cases db (name n) with
  | none => rfl
  | some e => simp [Entry.cell, not_le.mpr future]

end Named

end Keyspace

end Cells

end Gosestor.Lib.Redis
