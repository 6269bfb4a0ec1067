import Gosestor.Lib.GoMap
import Gosestor.Lib.Program
import Mathlib.Algebra.Order.Group.Unbundled.Int

/-!
# Redis keyspaces and scripts

Keys hold typed values, each with an optional expiration. A hash or a set that becomes empty is
removed with its expiration, and a key whose expiration has passed does not exist. A script is a
program over the commands. Time stands still while it runs. A command on a value of another type
raises, and what the script wrote before that stays.

A script that uses every key as one kind of value, given by a `Layout`, does not raise on a
keyspace that is laid out that way (`Fits.run_eq`): it computes what `Cmd.total` says.
-/

namespace Gosestor.Lib.Redis

variable {S : Type}

inductive Kind
  | string | hash | set | other
  deriving DecidableEq

inductive Value (S : Type)
  | string (text : S)
  | hash (fields : GoMap S S)
  | set (members : GoMap S Unit)
  | other

namespace Value

def kind : Value S → Kind
  | .string _ => .string
  | .hash _ => .hash
  | .set _ => .set
  | .other => .other

def text : Value S → Option S
  | .string text => some text
  | _ => none

def fields : Value S → GoMap S S
  | .hash fields => fields
  | _ => ∅

def members : Value S → GoMap S Unit
  | .set members => members
  | _ => ∅

end Value

structure Entry (S : Type) where
  value : Value S
  expiry : Option Int

abbrev Keyspace (S : Type) := S → Option (Entry S)

def millis (now : Int) : Int := now / 1000

namespace Keyspace

def empty : Keyspace S := fun _ => none

/-- What is left of a keyspace at a time. A key still exists in the millisecond of its expiration.
-/
def asOf (db : Keyspace S) (now : Int) : Keyspace S := fun k =>
  (db k).filter fun e => e.expiry.all (millis now ≤ ·)

variable (db : Keyspace S) (k : S)

def kind : Option Kind := (db k).map (·.value.kind)

def expiry : Option Int := (db k).bind (·.expiry)

def text : Option S := (db k).bind (·.value.text)

def fields : GoMap S S := (db k).elim ∅ (·.value.fields)

def members : GoMap S Unit := (db k).elim ∅ (·.value.members)

def fit (kind : Kind) : Bool := (db k).all (·.value.kind = kind)

variable [DecidableEq S]

def remove : Keyspace S := Function.update db k none

def store (value : Value S) : Keyspace S := Function.update db k (some ⟨value, db.expiry k⟩)

def hset (pairs : List (S × S)) : Keyspace S :=
  db.store k (.hash (pairs.foldl (fun fields p => fields.set p.1 p.2) (db.fields k)))

def hdel (field : S) : Keyspace S :=
  let rest := (db.fields k).delete field
  if rest.len = 0 then db.remove k else db.store k (.hash rest)

def sadd (member : S) : Keyspace S := db.store k (.set ((db.members k).set member ()))

def srem (member : S) : Keyspace S :=
  let rest := (db.members k).delete member
  if rest.len = 0 then db.remove k else db.store k (.set rest)

def setText (text : S) (expiry : Option Int) : Keyspace S :=
  Function.update db k (some ⟨.string text, expiry⟩)

def expireAt (now expiry : Int) : Keyspace S :=
  Function.update db k ((db k).bind fun e =>
    if expiry ≤ millis now then none else some { e with expiry := some expiry })

end Keyspace

/-! ## Commands -/

/-- Replies that no script looks at are left out. -/
inductive Cmd (S : Type)
  | typeOf (key : S)
  | existsKey (key : S)
  | get (key : S)
  | set (key text : S) (px : Option Int)
  | del (key : S)
  | hset (key : S) (pairs : List (S × S))
  | hget (key field : S)
  | hgetall (key : S)
  | hdel (key field : S)
  | sadd (key member : S)
  | srem (key member : S)
  | smembers (key : S)
  | pexpire (key : S) (ttl : Int)
  | pttl (key : S)
  | time

namespace Cmd

abbrev Reply : Cmd S → Type
  | .typeOf _ => Option Kind
  | .existsKey _ => Bool
  | .get _ | .hget _ _ => Option S
  | .hgetall _ => GoMap S S
  | .smembers _ => List S
  | .pttl _ => Int
  | .time => Int × Int
  | _ => Unit

def writes : Cmd S → Bool
  | .set _ _ _ | .del _ | .hset _ _ | .hdel _ _ | .sadd _ _ | .srem _ _ | .pexpire _ _ => true
  | _ => false

def target : Cmd S → Option S
  | .set k _ _ | .del k | .hset k _ | .hdel k _ | .sadd k _ | .srem k _ | .pexpire k _ => some k
  | _ => none

/-- A command that works on values of one kind raises on every other kind. `SET` and `DEL` take any
value. -/
def demand : Cmd S → Option (S × Kind)
  | .get k => some (k, .string)
  | .hset k _ | .hget k _ | .hgetall k | .hdel k _ => some (k, .hash)
  | .sadd k _ | .srem k _ | .smembers k => some (k, .set)
  | _ => none

def ranged (now : Int) : Cmd S → Bool
  | .set _ _ (some px) => 0 < px && millis now + px < 2 ^ 63
  | .pexpire _ ttl => millis now + ttl < 2 ^ 63
  | _ => true

def raises (now : Int) (db : Keyspace S) (c : Cmd S) : Bool :=
  !(c.demand.all (fun d => db.fit d.1 d.2) && c.ranged now)

variable [DecidableEq S]

def total (now : Int) (c : Cmd S) (db : Keyspace S) : c.Reply × Keyspace S :=
  match c with
  | .typeOf k => (db.kind k, db)
  | .existsKey k => ((db k).isSome, db)
  | .get k => (db.text k, db)
  | .set k text px => ((), db.setText k text (px.map (millis now + ·)))
  | .del k => ((), db.remove k)
  | .hset k pairs => ((), db.hset k pairs)
  | .hget k field => ((db.fields k).get field, db)
  | .hgetall k => (db.fields k, db)
  | .hdel k field => ((), db.hdel k field)
  | .sadd k member => ((), db.sadd k member)
  | .srem k member => ((), db.srem k member)
  | .smembers k => ((db.members k).keys, db)
  | .pexpire k ttl => ((), db.expireAt k now (millis now + ttl))
  | .pttl k => ((db k).elim (-2) fun e =>
      e.expiry.elim (-1) fun expiry => max 0 (expiry - millis now), db)
  | .time => ((now / 1000000, now % 1000000), db)

end Cmd

/-! ## Scripts -/

abbrev Script (S : Type) := Prog (Cmd S) Cmd.Reply

def call (c : Cmd S) : Script S c.Reply := .perform c

structure Progress (S : Type) where
  db : Keyspace S
  wrote : Bool := false

variable [DecidableEq S] {α β : Type} {now : Int}

/-- The result of a script that raised is `none`. -/
def run (now : Int) : Script S α → Progress S → Option α × Progress S
  | .ret value, p => (some value, p)
  | .call c next, p =>
      if c.raises now p.db then (none, p)
      else run now (next (c.total now p.db).1) ⟨(c.total now p.db).2, p.wrote || c.writes⟩

def exec (now : Int) (s : Script S α) (db : Keyspace S) : Option α × Keyspace S :=
  let (result, p) := run now s ⟨db.asOf now, false⟩
  (result, p.db)

theorem run_map (f : α → β) (s : Script S α) (p : Progress S) :
    run now (f <$> s) p = ((run now s p).1.map f, (run now s p).2) := by
  induction s generalizing p with
  | ret value => rfl
  | call c next ih =>
      change run now (.call c fun reply => f <$> next reply) p = _
      unfold run
      split_ifs with raised
      · rfl
      · exact ih _ _

theorem exec_map (f : α → β) (s : Script S α) (db : Keyspace S) :
    exec now (f <$> s) db = ((exec now s db).1.map f, (exec now s db).2) := by
  unfold exec
  rw [run_map]

/-! ## Traces -/

def trace (now : Int) : Script S α → Keyspace S → List (Cmd S)
  | .ret _, _ => []
  | .call c next, db =>
      if c.raises now db then []
      else c :: trace now (next (c.total now db).1) (c.total now db).2

/-! ## What a command changes -/

namespace Keyspace

variable {db : Keyspace S} {k k' : S}

omit [DecidableEq S] in
theorem fit_iff {a : Kind} : db.fit k a = true ↔ ∀ e, db k = some e → e.value.kind = a := by
  simp [fit, Option.all_eq_true]

omit [DecidableEq S] in
theorem expiry_eq_some {expiry : Int} :
    db.expiry k = some expiry ↔ ∃ e, db k = some e ∧ e.expiry = some expiry :=
  Option.bind_eq_some_iff

omit [DecidableEq S] in
theorem asOf_eq_some {e : Entry S} :
    db.asOf now k = some e ↔ db k = some e ∧ e.expiry.all (millis now ≤ ·) = true := by
  simp [asOf, Option.filter_eq_some_iff]

theorem hset_of_ne {pairs : List (S × S)} (ne : k' ≠ k) : db.hset k pairs k' = db k' :=
  Function.update_of_ne ne _ _

theorem sadd_of_ne {member : S} (ne : k' ≠ k) : db.sadd k member k' = db k' :=
  Function.update_of_ne ne _ _

theorem setText_of_ne {text : S} {expiry : Option Int} (ne : k' ≠ k) :
    db.setText k text expiry k' = db k' :=
  Function.update_of_ne ne _ _

theorem remove_of_ne (ne : k' ≠ k) : db.remove k k' = db k' := Function.update_of_ne ne _ _

theorem expireAt_of_ne {expiry : Int} (ne : k' ≠ k) : db.expireAt k now expiry k' = db k' :=
  Function.update_of_ne ne _ _

theorem hdel_of_ne {field : S} (ne : k' ≠ k) : db.hdel k field k' = db k' := by
  unfold hdel
  split_ifs <;> exact Function.update_of_ne ne _ _

theorem srem_of_ne {member : S} (ne : k' ≠ k) : db.srem k member k' = db k' := by
  unfold srem
  split_ifs <;> exact Function.update_of_ne ne _ _

end Keyspace

theorem Cmd.total_reads {c : Cmd S} {db : Keyspace S} (reads : c.writes = false) :
    (c.total now db).2 = db := by
  cases c <;> first | rfl | cases reads

theorem Cmd.total_of_target {c : Cmd S} {db : Keyspace S} {k : S} (other : c.target ≠ some k) :
    (c.total now db).2 k = db k := by
  cases c with
  | set key text px => exact Keyspace.setText_of_ne fun same => other (congrArg some same.symm)
  | del key => exact Keyspace.remove_of_ne fun same => other (congrArg some same.symm)
  | hset key pairs => exact Keyspace.hset_of_ne fun same => other (congrArg some same.symm)
  | hdel key field => exact Keyspace.hdel_of_ne fun same => other (congrArg some same.symm)
  | sadd key member => exact Keyspace.sadd_of_ne fun same => other (congrArg some same.symm)
  | srem key member => exact Keyspace.srem_of_ne fun same => other (congrArg some same.symm)
  | pexpire key ttl => exact Keyspace.expireAt_of_ne fun same => other (congrArg some same.symm)
  | _ => rfl

theorem run_of_target {s : Script S α} {p : Progress S} {k : S}
    (others : ∀ c ∈ trace now s p.db, c.target ≠ some k) : (run now s p).2.db k = p.db k := by
  induction s generalizing p with
  | ret value => rfl
  | call c next ih =>
      unfold trace at others
      unfold run
      split_ifs at others ⊢ with raised
      · rfl
      · obtain ⟨first, rest⟩ := List.forall_mem_cons.mp others
        exact (ih _ rest).trans (Cmd.total_of_target first)

/-! ## Layouts -/

abbrev Layout (S : Type) := S → Kind → Prop

def Layout.Consistent (Γ : Layout S) : Prop := ∀ k a b, Γ k a → Γ k b → a = b

structure Laid (Γ : Layout S) (db : Keyspace S) : Prop where
  fit : ∀ {k a}, Γ k a → db.fit k a = true
  bounded : ∀ {k expiry}, db.expiry k = some expiry → expiry < 2 ^ 63

def Cmd.use : Cmd S → Option (S × Kind)
  | .set k _ _ => some (k, .string)
  | c => c.demand

structure Cmd.Fits (now : Int) (Γ : Layout S) (c : Cmd S) : Prop where
  use : ∀ {k a}, c.use = some (k, a) → Γ k a
  ranged : c.ranged now = true

/-- What a reply says about the keyspace whatever that is: the instant a key expires at is an
`int64`. -/
def Cmd.Plausible (now : Int) : (c : Cmd S) → c.Reply → Prop
  | .pttl _, ttl => millis now + ttl < 2 ^ 63
  | _, _ => True

/-- The script uses the keys as the layout says, whatever the commands reply. -/
abbrev Fits (now : Int) (Γ : Layout S) (post : α → Prop) (s : Script S α) : Prop :=
  s.Wp (fun _ c r _ => c.Plausible now r) (fun _ c => c.Fits now Γ) (fun a _ => post a) ()

section Laid

variable {Γ : Layout S} {db : Keyspace S} {k : S}

theorem Laid.update (laid : Laid Γ db) {e : Option (Entry S)}
    (kind : ∀ x, e = some x → ∀ a, Γ k a → x.value.kind = a)
    (bounded : ∀ x, e = some x → ∀ expiry, x.expiry = some expiry → expiry < 2 ^ 63) :
    Laid Γ (Function.update db k e) where
  fit := by
    intro k' a used
    rw [Keyspace.fit_iff]
    intro x found
    by_cases same : k' = k
    · subst same
      rw [Function.update_self] at found
      exact kind x found a used
    · rw [Function.update_of_ne same] at found
      exact Keyspace.fit_iff.mp (laid.fit used) x found
  bounded := by
    intro k' expiry expires
    obtain ⟨x, found, due⟩ := Keyspace.expiry_eq_some.mp expires
    by_cases same : k' = k
    · subst same
      rw [Function.update_self] at found
      exact bounded x found expiry due
    · rw [Function.update_of_ne same] at found
      exact laid.bounded (Keyspace.expiry_eq_some.mpr ⟨x, found, due⟩)

theorem Laid.store (consistent : Γ.Consistent) (laid : Laid Γ db) {value : Value S}
    (used : Γ k value.kind) : Laid Γ (db.store k value) := by
  apply laid.update
  · rintro x ⟨⟩ a expected
    exact consistent k _ a used expected
  · rintro x ⟨⟩ expiry expires
    exact laid.bounded expires

theorem Laid.remove (laid : Laid Γ db) : Laid Γ (db.remove k) := by
  apply laid.update <;> simp

omit [DecidableEq S] in
theorem Laid.asOf (laid : Laid Γ db) (now : Int) : Laid Γ (db.asOf now) where
  fit := by
    intro k a used
    rw [Keyspace.fit_iff]
    intro e found
    exact Keyspace.fit_iff.mp (laid.fit used) e (Keyspace.asOf_eq_some.mp found).1
  bounded := by
    intro k expiry expires
    obtain ⟨e, found, expires⟩ := Keyspace.expiry_eq_some.mp expires
    exact laid.bounded (Keyspace.expiry_eq_some.mpr ⟨e, (Keyspace.asOf_eq_some.mp found).1, expires⟩)

theorem Laid.expireAt (laid : Laid Γ db) {expiry : Int} (ranged : expiry < 2 ^ 63) :
    Laid Γ (db.expireAt k now expiry) := by
  apply laid.update
  · intro x kept a expected
    obtain ⟨e, found, kept⟩ := Option.bind_eq_some_iff.mp kept
    split_ifs at kept
    cases kept
    exact Keyspace.fit_iff.mp (laid.fit expected) e found
  · intro x kept expiry expires
    obtain ⟨e, -, kept⟩ := Option.bind_eq_some_iff.mp kept
    split_ifs at kept
    cases kept
    cases expires
    exact ranged

variable {c : Cmd S}

theorem Cmd.Fits.total (consistent : Γ.Consistent) (laid : Laid Γ db) (fits : c.Fits now Γ) :
    Laid Γ (c.total now db).2 := by
  have ranged := fits.ranged
  cases c with
  | set key text px =>
      apply laid.update
      · rintro x ⟨⟩ a expected
        exact consistent key _ a (fits.use rfl) expected
      · rintro x ⟨⟩ expiry expires
        cases px with
        | none => cases expires
        | some px =>
            cases expires
            simp only [Cmd.ranged, Bool.and_eq_true, decide_eq_true_eq] at ranged
            exact ranged.2
  | del key => exact laid.remove
  | hset key pairs =>
      apply laid.store consistent
      exact fits.use rfl
  | hdel key field =>
      simp only [Cmd.total, Keyspace.hdel]
      split_ifs
      · exact laid.remove
      · apply laid.store consistent
        exact fits.use rfl
  | sadd key member =>
      apply laid.store consistent
      exact fits.use rfl
  | srem key member =>
      simp only [Cmd.total, Keyspace.srem]
      split_ifs
      · exact laid.remove
      · apply laid.store consistent
        exact fits.use rfl
  | pexpire key ttl =>
      simp only [Cmd.ranged, decide_eq_true_eq] at ranged
      exact laid.expireAt ranged
  | _ => exact laid

omit [DecidableEq S] in
theorem Cmd.Fits.not_raises (laid : Laid Γ db) (fits : c.Fits now Γ) : c.raises now db = false := by
  have demand : c.demand.all (fun d => db.fit d.1 d.2) = true := by
    rw [Option.all_eq_true]
    rintro ⟨k, a⟩ demanded
    apply laid.fit
    apply fits.use
    cases c <;> first | exact demanded | cases demanded
  rw [Cmd.raises, demand, fits.ranged]
  rfl

theorem plausible_total (epoch : millis now < 2 ^ 63) (laid : Laid Γ db) (c : Cmd S) :
    c.Plausible now (c.total now db).1 := by
  cases c with
  | pttl key =>
      simp only [Cmd.Plausible, Cmd.total]
      cases found : db key with
      | none =>
          dsimp only [Option.elim]
          omega
      | some e =>
          cases expires : e.expiry with
          | none =>
              simp only [Option.elim, expires]
              omega
          | some expiry =>
              have bound := laid.bounded (Keyspace.expiry_eq_some.mpr ⟨e, found, expires⟩)
              simp only [Option.elim, expires]
              omega
  | _ => trivial

theorem Fits.run_eq {post : α → Prop} {s : Script S α} (consistent : Γ.Consistent)
    (epoch : millis now < 2 ^ 63) (fits : Fits now Γ post s) {p : Progress S}
    (laid : Laid Γ p.db) :
    ∃ wrote, run now s p = (some (s.eval (Cmd.total now) p.db).1,
        ⟨(s.eval (Cmd.total now) p.db).2, wrote⟩) ∧
      Laid Γ (s.eval (Cmd.total now) p.db).2 ∧ post (s.eval (Cmd.total now) p.db).1 := by
  induction s generalizing p with
  | ret value => exact ⟨p.wrote, rfl, laid, fits⟩
  | call c next ih =>
      obtain ⟨used, rest⟩ := fits
      simp only [run, used.not_raises laid, Bool.false_eq_true, if_false]
      exact ih _ (rest _ () (plausible_total epoch laid c)) (used.total consistent laid)

end Laid

/-! ## Scripts that fail without a trace -/

section Careful

variable {Γ : Layout S}

def Script.step (now : Int) (p : Progress S) (c : Cmd S) (r : c.Reply) (p' : Progress S) : Prop :=
  c.raises now p.db = false ∧ r = (c.total now p.db).1 ∧ p'.db = (c.total now p.db).2 ∧
    p'.wrote = (p.wrote || c.writes)

/-- Once the script has written, no command raises and the result is not a failure. -/
abbrev Careful (now : Int) (failed : α → Prop) (s : Script S α) (p : Progress S) : Prop :=
  s.Wp (Script.step now) (fun p c => p.wrote = true → c.raises now p.db = false)
    (fun a p => failed a → p.wrote = false) p

theorem run_unwritten (s : Script S α) (p : Progress S) (still : (run now s p).2.wrote = false) :
    (run now s p).2.db = p.db ∧ p.wrote = false := by
  induction s generalizing p with
  | ret value => exact ⟨rfl, still⟩
  | call c next ih =>
      unfold run at still ⊢
      split_ifs at still ⊢ with raised
      · exact ⟨rfl, still⟩
      · obtain ⟨same, unwritten⟩ := ih _ _ still
        simp only [Bool.or_eq_false_iff] at unwritten
        rw [same]
        exact ⟨Cmd.total_reads unwritten.2, unwritten.1⟩

theorem Careful.run {failed : α → Prop} {s : Script S α} {p : Progress S}
    (careful : Careful now failed s p) :
    match run now s p with
    | (none, p') => p'.wrote = false
    | (some a, p') => failed a → p'.wrote = false := by
  induction s generalizing p with
  | ret value => exact careful
  | call c next ih =>
      unfold Redis.run
      split_ifs with raised
      · by_contra wrote
        simp [careful.1 (by simpa using wrote)] at raised
      · exact ih _ (careful.2 _ _ ⟨by simpa using raised, rfl, rfl, rfl⟩)

/-- A script that succeeds whatever is replied, on a keyspace laid out as it expects. -/
theorem Fits.careful {failed : α → Prop} {s : Script S α} (consistent : Γ.Consistent)
    (epoch : millis now < 2 ^ 63) (fits : Fits now Γ (fun a => ¬ failed a) s) {p : Progress S}
    (laid : Laid Γ p.db) : Careful now failed s p := by
  induction s generalizing p with
  | ret value => exact fun bad => absurd bad fits
  | call c next ih =>
      obtain ⟨used, rest⟩ := fits
      refine ⟨fun _ => used.not_raises laid, fun r p' taken => ?_⟩
      obtain ⟨-, rfl, next, -⟩ := taken
      apply ih _ (rest _ () (plausible_total epoch laid c))
      rw [next]
      exact used.total consistent laid

end Careful

/-! ## What a script does on its keyspace -/

section Alone

variable {may : Progress S → Cmd S → Prop} {post : α → Progress S → Prop} {p : Progress S}
  {c : Cmd S}

theorem Script.step_eq {r : c.Reply} {p' : Progress S} (step : Script.step now p c r p') :
    c.raises now p.db = false ∧ r = (c.total now p.db).1 ∧
      p' = ⟨(c.total now p.db).2, p.wrote || c.writes⟩ := by
  obtain ⟨calm, replied, db, wrote⟩ := step
  cases p'
  cases db
  cases wrote
  exact ⟨calm, replied, rfl⟩

theorem wp_call {f : c.Reply → Script S α} (allowed : may p c)
    (rest : c.raises now p.db = false → (f (c.total now p.db).1).Wp (Script.step now) may post
      ⟨(c.total now p.db).2, p.wrote || c.writes⟩) :
    (call c >>= f).Wp (Script.step now) may post p := by
  refine ⟨allowed, fun r p' step => ?_⟩
  obtain ⟨calm, rfl, rfl⟩ := Script.step_eq step
  exact rest calm

theorem wp_read {f : c.Reply → Script S α} (reads : c.writes = false) (allowed : may p c)
    (rest : (f (c.total now p.db).1).Wp (Script.step now) may post p) :
    (call c >>= f).Wp (Script.step now) may post p := by
  refine wp_call allowed fun _ => ?_
  rwa [Cmd.total_reads reads, reads, Bool.or_false]

theorem wp_map {post : β → Progress S → Prop} {f : α → β} {s : Script S α}
    (wp : s.Wp (Script.step now) may (fun a => post (f a)) p) :
    (f <$> s).Wp (Script.step now) may post p :=
  Prog.Wp.bind wp

theorem post_of_wp {s : Script S α} (wp : s.Wp (Script.step now) may post p) {value : α}
    (done : (run now s p).1 = some value) : post value (run now s p).2 := by
  induction s generalizing p with
  | ret result =>
      cases done
      exact wp
  | call c next ih =>
      unfold run at done ⊢
      split_ifs at done ⊢ with raised
      exact ih _ (wp.2 _ _ ⟨by simpa using raised, rfl, rfl, rfl⟩) done

theorem unwritten_of_wp {s : Script S α} (wp : s.Wp (Script.step now) may post p)
    (careful : ∀ {p c}, may p c → p.wrote = true → c.raises now p.db = false)
    (raised : (run now s p).1 = none) : (run now s p).2.wrote = false := by
  induction s generalizing p with
  | ret result => cases raised
  | call c next ih =>
      unfold run at raised ⊢
      split_ifs at raised ⊢ with raises
      · by_contra wrote
        simp [careful wp.1 (by simpa using wrote)] at raises
      · exact ih _ (wp.2 _ _ ⟨by simpa using raises, rfl, rfl, rfl⟩) raised

theorem trace_of_wp {s : Script S α} (wp : s.Wp (Script.step now) may post p)
    {Q : Cmd S → Prop} (allowed : ∀ {p c}, may p c → Q c) : ∀ c ∈ trace now s p.db, Q c := by
  induction s generalizing p with
  | ret result =>
      intro c member
      cases member
  | call c next ih =>
      intro c' member
      unfold trace at member
      split_ifs at member with raised
      · cases member
      · obtain rfl | later := List.mem_cons.mp member
        · exact allowed wp.1
        · exact ih _ (wp.2 _ ⟨_, p.wrote || c.writes⟩ ⟨by simpa using raised, rfl, rfl, rfl⟩) c' later

theorem run_wrote (s : Script S α) (p : Progress S) :
    (run now s p).2.wrote = (p.wrote || (trace now s p.db).any Cmd.writes) := by
  induction s generalizing p with
  | ret result => simp [run, trace]
  | call c next ih =>
      unfold run trace
      split_ifs with raised
      · simp
      · rw [ih, List.any_cons, Bool.or_assoc]

end Alone

end Gosestor.Lib.Redis
