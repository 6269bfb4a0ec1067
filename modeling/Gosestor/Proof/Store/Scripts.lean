import Gosestor.Store.Redis

/-!
# How the scripts use their keys

Each script of the Redis store uses a key as a value of one kind only, and checks that kind before
its first write. So a script that reports a failure has written nothing, and after its first write
no command raises.
-/

namespace Gosestor.Store

open Gosestor.Go Gosestor.Lib Gosestor.Lib.Redis

/-! ## Numbers -/

theorem roundNat_of_lt {n : Nat} (small : n < 2 ^ 53) : roundNat n = n := by
  have unit : n.log2 - 52 = 0 := by
    by_cases zero : n = 0
    · simp [zero]
    · have bits := (Nat.log2_lt zero).mpr small
      omega
  simp [roundNat, unit, Nat.mod_one]

theorem double_of_lt {n : Int} (low : -2 ^ 53 < n) (high : n < 2 ^ 53) : double n = n := by
  have small : n.natAbs < 2 ^ 53 := by omega
  rw [double, roundNat_of_lt small, Int.sign_mul_natAbs]

theorem milliseconds_bounds {d : Duration} (low : -2 ^ 63 ≤ d) (high : d < 2 ^ 63) :
    -2 ^ 44 < d.milliseconds ∧ d.milliseconds < 2 ^ 44 := by
  -- A duration in milliseconds is small enough for every use.
  have split := Int.tdiv_mul_add_tmod d 1000000
  have upper := Int.tmod_lt_of_pos d (b := 1000000) (by decide)
  have lower := Int.lt_tmod_of_pos d (b := 1000000) (by decide)
  unfold Duration.milliseconds
  unfold Duration at *
  omega

/-! ## Rules -/

section Rules

variable {α β : Type} {now : Int} {Γ : Layout GoString} {c : Cmd GoString}

theorem fits_free (free : c.use = none) (ranged : c.ranged now = true) : c.Fits now Γ where
  use := by
    intro k a used
    rw [free] at used
    cases used
  ranged := ranged

theorem fits_use {k : GoString} {a : Kind} (uses : c.use = some (k, a)) (used : Γ k a)
    (ranged : c.ranged now = true) : c.Fits now Γ where
  use := by
    intro k' a' used'
    rw [uses] at used'
    cases used'
    exact used
  ranged := ranged

theorem fits_call {post : α → Prop} {f : c.Reply → Script GoString α} (used : c.Fits now Γ)
    (rest : ∀ r, c.Plausible now r → Fits now Γ post (f r)) : Fits now Γ post (call c >>= f) :=
  ⟨used, fun r _ likely => rest r likely⟩

theorem fits_last (used : c.Fits now Γ) : Fits now Γ (fun _ => True) (call c) :=
  ⟨used, fun _ _ _ => trivial⟩

theorem fits_then {post : β → Prop} {s : Script GoString α} {f : α → Script GoString β}
    (first : Fits now Γ (fun _ => True) s) (rest : ∀ a, Fits now Γ post (f a)) :
    Fits now Γ post (s >>= f) :=
  Prog.Wp.bind (first.weaken fun a _ _ => rest a)

theorem fits_onlyIf {condition : Bool} {s : Script GoString Unit}
    (fits : condition = true → Fits now Γ (fun _ => True) s) :
    Fits now Γ (fun _ => True) (onlyIf condition s) := by
  unfold onlyIf
  split_ifs with holds
  · exact fits holds
  · trivial

theorem pexpire_fits {key : GoString} {ttl : Int} (ranged : millis now + ttl < 2 ^ 63) :
    (Cmd.pexpire key ttl).Fits now Γ :=
  fits_free rfl (by simpa [Cmd.ranged] using ranged)

theorem set_fits {key text : GoString} {ttl : Int} (used : Γ key .string) (positive : 0 < ttl)
    (ranged : millis now + ttl < 2 ^ 63) : (Cmd.set key text (some ttl)).Fits now Γ :=
  fits_use rfl used (by simpa [Cmd.ranged] using ⟨positive, ranged⟩)

end Rules

/-! ## The parts of the scripts -/

section Parts

variable {now : Int} {Γ : Layout GoString}

section Reading

variable {σ : Type} {step : σ → (c : Cmd GoString) → c.Reply → σ → Prop} {may : σ → Cmd GoString → Prop}
  {key : GoString}

theorem numberField_wp {field : GoString} (read : ∀ s, may s (.hget key field)) (s : σ) :
    (numberField key field).Wp step may (fun _ _ => True) s :=
  ⟨read s, fun _ _ _ => trivial⟩

theorem boundedTTL_wp (lastAccess ttl : Int) (read : ∀ s field, may s (.hget key field))
    (time : ∀ s, may s .time) (s : σ) :
    (boundedTTL key lastAccess ttl).Wp step may (fun r _ => r.2.2 ≤ double ttl) s := by
  have number : ∀ field s, (numberField key field).Wp step may (fun _ _ => True) s :=
    fun field s => numberField_wp (read · field) s
  apply Prog.Wp.bind
  apply (number _ s).weaken
  intro currentAccess s _
  apply Prog.Wp.bind
  apply (number _ s).weaken
  intro inactive s _
  apply Prog.Wp.bind
  apply (number _ s).weaken
  intro creation s _
  apply Prog.Wp.bind
  apply (number _ s).weaken
  intro finalTimeout s _
  refine ⟨time s, fun micros s _ => ?_⟩
  change (_ : Int) ≤ double ttl
  dsimp only
  split_ifs <;> omega

end Reading

theorem numberField_fits {key field : GoString} (used : Γ key .hash) :
    Fits now Γ (fun _ => True) (numberField key field) :=
  numberField_wp (fun _ => fits_use rfl used rfl) ()

theorem refreshTTL_fits {ttl : Int} (ranged : millis now + ttl < 2 ^ 63) (keys : List GoString) :
    Fits now Γ (fun _ => True) (refreshTTL ttl keys) := by
  induction keys with
  | nil => trivial
  | cons key keys ih =>
      refine fits_call (fits_free rfl rfl) fun found _ => ?_
      exact fits_then (fits_onlyIf fun _ => fits_last (pexpire_fits ranged)) fun _ => ih

theorem delEach_fits (keys : List GoString) : Fits now Γ (fun _ => True) (delEach keys) := by
  induction keys with
  | nil => trivial
  | cons key keys ih => exact fits_call (fits_free rfl rfl) fun _ _ => ih

theorem touchCommit_fits {sess key attr sha keys : GoString} (used : Γ sess .hash)
    (lastAccess legacyRotation currentAccess proposedAccess : Int) {ttlMs : Int}
    (ranged : millis now + ttlMs < 2 ^ 63) :
    Fits now Γ (· = .int 1) (touchCommit sess key attr sha keys lastAccess legacyRotation
      currentAccess proposedAccess ttlMs) := by
  refine fits_then (fits_onlyIf fun _ => ?_) fun _ => ?_
  · exact fits_call (fits_use rfl used rfl) fun _ _ => refreshTTL_fits ranged _
  · refine fits_call (fits_use rfl used rfl) fun rotation _ => ?_
    exact fits_then (fits_onlyIf fun _ => fits_last (fits_use rfl used rfl)) fun _ => rfl

theorem applyCookies_fits {attr sha : GoString} (attrs : Γ attr .hash) (shas : Γ sha .hash)
    (cookies : List CookieMutation) : Fits now Γ (fun _ => True) (applyCookies attr sha cookies) := by
  induction cookies with
  | nil => trivial
  | cons cookie cookies ih =>
      refine fits_then ?_ fun _ => ih
      unfold applyCookie
      split_ifs
      · exact fits_call (fits_use rfl attrs rfl) fun _ _ => fits_last (fits_use rfl shas rfl)
      · exact fits_call (fits_use rfl attrs rfl) fun _ _ => fits_last (fits_use rfl shas rfl)

theorem moveOwnerSet_fits {sess ownerPrefix previous owner id : GoString} {ownerTTL : Int}
    (used : Γ sess .hash) (new : Γ (ownerPrefix ++ owner) .set)
    (old : previous ≠ lit "0" → Γ (ownerPrefix ++ previous) .set)
    (ranged : millis now + ownerTTL < 2 ^ 63) :
    Fits now Γ (fun _ => True) (moveOwnerSet sess ownerPrefix previous owner id ownerTTL) := by
  refine fits_call (fits_use rfl used rfl) fun _ _ => ?_
  refine fits_call (fits_use rfl new rfl) fun _ _ => ?_
  refine fits_then (fits_onlyIf fun _ => fits_last (pexpire_fits ranged)) fun _ => ?_
  refine fits_onlyIf fun owned => fits_last (fits_use rfl (old ?_) rfl)
  simpa using owned

theorem swapKey_fits {oldKey newKey keys id oldKeyID newKeyID : GoString} {ttlMs : Int}
    (new : Γ newKey .string) (reverse : Γ keys .set) (positive : 0 < ttlMs)
    (ranged : millis now + ttlMs < 2 ^ 63) :
    Fits now Γ (fun _ => True) (swapKey oldKey newKey keys id oldKeyID newKeyID ttlMs) := by
  refine fits_call (set_fits new positive ranged) fun _ _ => ?_
  refine fits_call (fits_free rfl rfl) fun _ _ => ?_
  refine fits_call (fits_use rfl reverse rfl) fun _ _ => ?_
  exact fits_last (fits_use rfl reverse rfl)

theorem applyCommit_fits {sess oldKey newKey attr sha keys ownerPrefix id : GoString}
    {c : SessionControls} {newKeyID previous : GoString}
    {currentAccess proposedAccess ttlMs ownerTTL : Int} (used : Γ sess .hash)
    (new : Γ newKey .string) (attrs : Γ attr .hash) (shas : Γ sha .hash) (reverse : Γ keys .set)
    (owners : ∀ d ∈ ownerSets ownerPrefix previous c, Γ d.1 d.2)
    (positive : 0 < ttlMs) (ranged : millis now + ttlMs < 2 ^ 63)
    (ownerRanged : millis now + ownerTTL < 2 ^ 63) :
    Fits now Γ (· = .int 1) (applyCommit sess oldKey newKey attr sha keys ownerPrefix id c newKeyID
      previous currentAccess proposedAccess ttlMs ownerTTL) := by
  have row : ∀ {pairs}, Fits now Γ (fun _ => True) (call (.hset sess pairs)) :=
    fits_last (fits_use rfl used rfl)
  refine fits_then (fits_onlyIf fun moves => ?_) fun _ => ?_
  · simp only [Bool.and_eq_true, decide_eq_true_eq] at moves
    refine moveOwnerSet_fits used (owners (_, .set) ?_) (fun owned => owners (_, .set) ?_)
      ownerRanged
    · simp [ownerSets, moves.1]
    · simp [ownerSets, moves.1, moves.2, owned]
  refine fits_then (fits_onlyIf fun _ => row) fun _ => ?_
  refine fits_then (fits_onlyIf fun _ => row) fun _ => ?_
  refine fits_then (numberField_fits used) fun currentRotation => ?_
  refine fits_then (fits_onlyIf fun _ => row) fun _ => ?_
  refine fits_then (fits_onlyIf fun _ => swapKey_fits new reverse positive ranged) fun _ => ?_
  refine fits_then (applyCookies_fits attrs shas c.cookies) fun _ => ?_
  exact fits_then (fits_onlyIf fun _ => refreshTTL_fits ranged _) fun _ => rfl

theorem removeSession_fits {sess attr sha keys keyPrefix : GoString} (reverse : Γ keys .set) :
    Fits now Γ (fun _ => True) (removeSession sess attr sha keys keyPrefix) := by
  refine fits_call (fits_use rfl reverse rfl) fun keyIDs _ => ?_
  exact fits_then (delEach_fits _) fun _ => delEach_fits _

theorem setKey_fits {key id : GoString} {ttl : Int} (used : Γ key .string)
    (ranged : millis now + ttl < 2 ^ 63) : Fits now Γ (fun _ => True) (setKey key id ttl) := by
  unfold setKey
  split_ifs with positive
  · exact fits_last (set_fits used positive ranged)
  · exact fits_last (fits_use rfl used rfl)

theorem reassignCommit_fits {sess owner ownerPrefix previous : GoString} {s : Session}
    {moved : Bool} {currentAccess proposedAccess ttlMs ownerTTL : Int} (used : Γ sess .hash)
    (new : Γ owner .set) (old : moved = true → Γ (ownerPrefix ++ previous) .set)
    (ranged : millis now + ttlMs < 2 ^ 63) (ownerRanged : millis now + ownerTTL < 2 ^ 63) :
    Fits now Γ (· = .int 1) (reassignCommit sess owner ownerPrefix previous s moved currentAccess
      proposedAccess ttlMs ownerTTL) := by
  have row : ∀ {pairs}, Fits now Γ (fun _ => True) (call (.hset sess pairs)) :=
    fits_last (fits_use rfl used rfl)
  refine fits_call (fits_use rfl used rfl) fun _ _ => ?_
  refine fits_call (pexpire_fits ranged) fun _ _ => ?_
  refine fits_then (fits_onlyIf fun _ => row) fun _ => ?_
  refine fits_then (numberField_fits used) fun currentRotation => ?_
  refine fits_then (fits_onlyIf fun _ => row) fun _ => ?_
  refine fits_call (fits_use rfl new rfl) fun _ _ => ?_
  refine fits_then (fits_onlyIf fun _ => fits_last (pexpire_fits ownerRanged)) fun _ => ?_
  exact fits_then (fits_onlyIf fun moves => fits_last (fits_use rfl (old moves) rfl)) fun _ => rfl

end Parts

/-! ## Checks of types -/

section Checks

variable {α : Type} {now : Int} {p : Progress GoString}
  {may : Progress GoString → Cmd GoString → Prop}

theorem wp_requireType {post : α → Progress GoString → Prop} {key : GoString} {expected : Kind}
    {f : Option GoString → Script GoString α} (allowed : may p (.typeOf key))
    (wrong : ∀ text, (f (some text)).Wp (Script.step now) may post p)
    (right : p.db.fit key expected = true → (f none).Wp (Script.step now) may post p) :
    (requireType key expected >>= f).Wp (Script.step now) may post p := by
  refine wp_read rfl allowed ?_
  dsimp only [Cmd.total]
  split_ifs with mismatch
  · exact wrong _
  · apply right
    rw [Keyspace.fit_iff]
    intro e found
    by_contra other
    apply mismatch
    simp [Keyspace.kind, found, other]

theorem wp_checked {post : ScriptResult → Progress GoString → Prop}
    {keys : List (GoString × Kind)} {rest : LuaScript} (allowed : ∀ key, may p (.typeOf key))
    (wrong : ∀ text, post (.error text) p)
    (right : (∀ d ∈ keys, p.db.fit d.1 d.2 = true) → rest.Wp (Script.step now) may post p) :
    (checked keys rest).Wp (Script.step now) may post p := by
  have loop : ∀ (keys : List (GoString × Kind)) (f : Option GoString → LuaScript),
      (∀ text, (f (some text)).Wp (Script.step now) may post p) →
      ((∀ d ∈ keys, p.db.fit d.1 d.2 = true) → (f none).Wp (Script.step now) may post p) →
      (requireTypes keys >>= f).Wp (Script.step now) may post p := by
    intro keys f wrong right
    induction keys with
    | nil => exact right (by simp)
    | cons d keys ih =>
        obtain ⟨key, expected⟩ := d
        rw [requireTypes, Prog.bind_bind]
        refine wp_requireType (allowed key) (fun text => ?_) fun fit => ?_
        · exact wrong text
        · exact ih fun rest => right (by simpa [fit] using rest)
  exact loop keys _ wrong right

end Checks

/-! ## Failing without a trace -/

section Careful

variable {α β : Type} {now : Int} {failed : β → Prop} {p : Progress GoString}

abbrev Reads (post : α → Prop) (s : Script GoString α) : Prop :=
  s.Wp (fun _ _ _ _ => True) (fun _ c => c.writes = false) (fun a _ => post a) ()

theorem careful_reads {post : α → Prop} {s : Script GoString α} {f : α → Script GoString β}
    (reads : Reads post s) (unwritten : p.wrote = false)
    (rest : ∀ a, post a → Careful now failed (f a) p) : Careful now failed (s >>= f) p := by
  induction s with
  | ret value => exact rest value reads
  | call c next ih =>
      exact wp_read reads.1 (fun wrote => by simp [unwritten] at wrote) (ih _ (reads.2 _ () trivial))

theorem careful_read {c : Cmd GoString} {f : c.Reply → Script GoString β}
    (reads : c.writes = false) (unwritten : p.wrote = false)
    (rest : Careful now failed (f (c.total now p.db).1) p) : Careful now failed (call c >>= f) p :=
  wp_read reads (fun wrote => by simp [unwritten] at wrote) rest

theorem careful_any {c : Cmd GoString} {f : c.Reply → Script GoString β}
    (reads : c.writes = false) (unwritten : p.wrote = false)
    (rest : ∀ r, Careful now failed (f r) p) : Careful now failed (call c >>= f) p :=
  careful_read reads unwritten (rest _)

theorem careful_ret {value : β} (unwritten : p.wrote = false) :
    Careful now failed (.ret value) p := fun _ => unwritten

theorem careful_unless {condition : Prop} [Decidable condition] {value : β}
    {rest : Script GoString β} (unwritten : p.wrote = false)
    (go : ¬ condition → Careful now failed rest p) :
    Careful now failed (if condition then pure value else rest) p := by
  split_ifs with holds
  · exact careful_ret unwritten
  · exact go holds

end Careful

section Scripts

variable {now : Int} {p : Progress GoString}

def Failed (result : ScriptResult) : Prop :=
  result = .int 0 ∨ result = .int (-1) ∨ ∃ text, result = .error text

theorem checked_careful {keys : List (GoString × Kind)} {rest : LuaScript}
    (unwritten : p.wrote = false)
    (right : (∀ d ∈ keys, p.db.fit d.1 d.2 = true) → Careful now Failed rest p) :
    Careful now Failed (checked keys rest) p := by
  apply wp_checked
  · intro key wrote
    simp [unwritten] at wrote
  · exact fun text _ => unwritten
  · exact right

end Scripts

/-! ## Names -/

namespace Redis

variable (r : Redis) (id : GoString)

def kindOf (k : GoString) : Kind :=
  if k = r.reverseKey id then .set
  else if r.keyPrefix.isPrefixOf k then .string
  else if r.ownerPrefix.isPrefixOf k then .set
  else .hash

theorem isPrefixOf_append (pre s t : GoString) :
    (pre ++ s).isPrefixOf (pre ++ t) = s.isPrefixOf t := by
  induction pre with
  | nil => rfl
  | cons b pre ih => simp [ih]

theorem lit_key : lit "key:" = [107, 101, 121, 58] := by decide

theorem lit_owner : lit "owner:" = [111, 119, 110, 101, 114, 58] := by decide

theorem lit_sess : lit "sess:" = [115, 101, 115, 115, 58] := by decide

theorem kindOf_sess {rest : GoString} (other : r.namePrefix ++ lit "sess:" ++ rest ≠ r.reverseKey id) :
    r.kindOf id (r.namePrefix ++ lit "sess:" ++ rest) = .hash := by
  -- A name that starts with `sess:` and is not the reverse set is a hash.
  rw [kindOf, if_neg other, keyPrefix, ownerPrefix, List.append_assoc, isPrefixOf_append,
    isPrefixOf_append, lit_key, lit_owner, lit_sess]
  simp [List.isPrefixOf]

@[simp] theorem kindOf_sessKey : r.kindOf id (r.sessKey id) = .hash := by
  apply kindOf_sess
  intro same
  have longer := congrArg List.length same
  have suffix : (lit ":keys").length = 5 := by decide
  simp only [reverseKey, sessKey, List.length_append, suffix] at longer
  omega

@[simp] theorem kindOf_attrKey : r.kindOf id (r.attrKey id) = .hash := by
  rw [attrKey, List.append_assoc]
  apply kindOf_sess
  rw [reverseKey, sessKey, ← List.append_assoc]
  intro same
  exact absurd (List.append_cancel_left same) (by decide)

@[simp] theorem kindOf_shaKey : r.kindOf id (r.shaKey id) = .hash := by
  rw [shaKey, List.append_assoc]
  apply kindOf_sess
  rw [reverseKey, sessKey, ← List.append_assoc]
  intro same
  exact absurd (List.append_cancel_left same) (by decide)

@[simp] theorem kindOf_reverseKey : r.kindOf id (r.reverseKey id) = .set := if_pos rfl

@[simp] theorem kindOf_keyKey (k : GoString) : r.kindOf id (r.keyKey k) = .string := by
  have other : r.keyKey k ≠ r.reverseKey id := by
    intro same
    rw [keyKey, reverseKey, sessKey, List.append_assoc, List.append_assoc, List.append_assoc,
      List.append_cancel_left_eq, lit_key, lit_sess] at same
    cases same
  rw [kindOf, if_neg other, keyPrefix, keyKey, List.append_assoc, isPrefixOf_append, lit_key]
  simp

@[simp] theorem kindOf_owner (o : GoString) : r.kindOf id (r.ownerPrefix ++ o) = .set := by
  have other : r.ownerPrefix ++ o ≠ r.reverseKey id := by
    intro same
    rw [ownerPrefix, reverseKey, sessKey, List.append_assoc, List.append_assoc, List.append_assoc,
      List.append_cancel_left_eq, lit_owner, lit_sess] at same
    cases same
  rw [kindOf, if_neg other, keyPrefix, ownerPrefix, List.append_assoc, isPrefixOf_append,
    isPrefixOf_append, lit_key, lit_owner]
  simp

@[simp] theorem kindOf_ownerKey (o : Int) : r.kindOf id (r.ownerKey o) = .set := r.kindOf_owner id _

end Redis

/-! ## The scripts -/

section Scripts

variable {r : Redis} {id : GoString} {now : Int} {p : Progress GoString}
  {keys more : List (GoString × Kind)}

structure Fresh (now : Int) (p : Progress GoString) : Prop where
  unwritten : p.wrote = false
  bounded : ∀ {k expiry}, p.db.expiry k = some expiry → expiry < 2 ^ 63
  epoch : millis now < 2 ^ 62

structure Ready (r : Redis) (id : GoString) (now : Int) (keys : List (GoString × Kind))
    (p : Progress GoString) : Prop extends Fresh now p where
  kinds : ∀ d ∈ keys, r.kindOf id d.1 = d.2
  fit : ∀ d ∈ keys, p.db.fit d.1 d.2 = true

def listed (keys : List (GoString × Kind)) : Layout GoString := fun k a => (k, a) ∈ keys

theorem Ready.laid (ready : Ready r id now keys p) : Laid (listed keys) p.db :=
  ⟨fun used => ready.fit _ used, ready.bounded⟩

theorem Ready.append (ready : Ready r id now keys p) (kinds : ∀ d ∈ more, r.kindOf id d.1 = d.2)
    (fit : ∀ d ∈ more, p.db.fit d.1 d.2 = true) : Ready r id now (keys ++ more) p where
  toFresh := ready.toFresh
  kinds := by
    intro d member
    rcases List.mem_append.mp member with first | second
    · exact ready.kinds d first
    · exact kinds d second
  fit := by
    intro d member
    rcases List.mem_append.mp member with first | second
    · exact ready.fit d first
    · exact fit d second

theorem Ready.careful (ready : Ready r id now keys p) {s : LuaScript}
    (fits : Fits now (listed keys) (· = .int 1) s) : Careful now Failed s p := by
  have consistent : (listed keys).Consistent := by
    intro k a b first second
    exact (ready.kinds _ first).symm.trans (ready.kinds _ second)
  have epoch := ready.epoch
  apply Fits.careful consistent (by omega) _ ready.laid
  apply fits.weaken
  rintro result - rfl
  simp [Failed]

theorem Ready.pttl (ready : Ready r id now keys p) (key : GoString) :
    millis now + ((Cmd.pttl key).total now p.db).1 < 2 ^ 63 := by
  -- The expiration of a key does not overflow when it is set again from its TTL.
  have epoch := ready.epoch
  exact plausible_total (by omega) ready.laid (.pttl key)

theorem Fresh.checked (r : Redis) (id : GoString) (fresh : Fresh now p) {rest : LuaScript}
    (kinds : ∀ d ∈ keys, r.kindOf id d.1 = d.2)
    (right : Ready r id now keys p → Careful now Failed rest p) :
    Careful now Failed (Store.checked keys rest) p :=
  checked_careful fresh.unwritten fun fit => right ⟨fresh, kinds, fit⟩

theorem boundedTTL_careful {sess : GoString} {lastAccess ttl : Int}
    {f : Int × Int × Int → LuaScript} (unwritten : p.wrote = false)
    (rest : ∀ bound, bound.2.2 ≤ double ttl → Careful now Failed (f bound) p) :
    Careful now Failed (boundedTTL sess lastAccess ttl >>= f) p := by
  have reads : Reads (fun bound => bound.2.2 ≤ double ttl) (boundedTTL sess lastAccess ttl) := by
    apply boundedTTL_wp
    · exact fun _ _ => rfl
    · exact fun _ => rfl
  exact careful_reads reads unwritten rest

theorem putSession_careful (fresh : Fresh now p) (s : Session) {ttl : Int}
    (ranged : millis now + ttl < 2 ^ 63) :
    Careful now Failed (putSessionScript (r.sessKey s.id) s ttl) p := by
  refine fresh.checked r s.id (by simp) fun ready => ready.careful ?_
  refine fits_call (fits_use rfl (by simp [listed]) rfl) fun _ _ => ?_
  exact fits_then (fits_onlyIf fun _ => fits_last (pexpire_fits ranged)) fun _ => rfl

theorem touchSession_careful (fresh : Fresh now p) (id keyID : GoString)
    (lastAccess legacyRotation : Int) {ttl : Int} (ranged : millis now + double ttl < 2 ^ 63) :
    Careful now Failed (touchSessionScript (r.sessKey id) (r.keyKey keyID) (r.attrKey id)
      (r.shaKey id) (r.reverseKey id) lastAccess legacyRotation ttl id) p := by
  refine fresh.checked r id (by simp) fun ready => ?_
  refine careful_any rfl fresh.unwritten fun found => ?_
  refine careful_unless fresh.unwritten fun _ => ?_
  refine careful_any rfl fresh.unwritten fun mapped => ?_
  refine careful_unless fresh.unwritten fun _ => ?_
  refine boundedTTL_careful fresh.unwritten ?_
  rintro ⟨currentAccess, proposedAccess, ttlMs⟩ below
  dsimp only at below ⊢
  refine careful_unless fresh.unwritten fun _ => ?_
  apply ready.careful
  exact touchCommit_fits (by simp [listed]) _ _ _ _ (by omega)

theorem applySessionControls_careful (fresh : Fresh now p) (id : GoString) (c : SessionControls)
    (newKeyID : GoString) {ttl ownerTTL : Int} (ranged : millis now + double ttl < 2 ^ 63)
    (ownerRanged : millis now + ownerTTL < 2 ^ 63) :
    Careful now Failed (applySessionControlsScript (r.sessKey id) (r.keyKey c.oldKeyID)
      (r.keyKey newKeyID) (r.attrKey id) (r.shaKey id) (r.reverseKey id) r.ownerPrefix id c newKeyID
      ttl ownerTTL) p := by
  have unwritten := fresh.unwritten
  refine fresh.checked r id (by simp) fun ready => ?_
  refine careful_any rfl unwritten fun found => ?_
  refine careful_unless unwritten fun _ => ?_
  refine careful_unless unwritten fun _ => ?_
  refine careful_any rfl unwritten fun mapped => ?_
  refine careful_unless unwritten fun _ => ?_
  refine careful_unless unwritten fun _ => ?_
  have free : Reads (fun _ => True) (keyTaken (r.keyKey c.oldKeyID) (r.keyKey newKeyID) c.rotate) := by
    unfold keyTaken
    split_ifs
    · exact ⟨rfl, fun _ _ _ => trivial⟩
    · trivial
  refine careful_reads free unwritten fun taken _ => ?_
  refine careful_unless unwritten fun _ => ?_
  refine boundedTTL_careful unwritten ?_
  rintro ⟨currentAccess, proposedAccess, ttlMs⟩ below
  dsimp only at below ⊢
  refine careful_unless unwritten fun _ => ?_
  refine careful_any rfl unwritten fun owner => ?_
  have owners : ∀ d ∈ ownerSets r.ownerPrefix (owner.getD (lit "0")) c, r.kindOf id d.1 = d.2 := by
    unfold ownerSets
    split_ifs <;> simp
  refine checked_careful unwritten fun fit => (ready.append owners fit).careful ?_
  refine applyCommit_fits ?_ ?_ ?_ ?_ ?_ ?_ (by omega) (by omega) ownerRanged
  · simp [listed]
  · simp [listed]
  · simp [listed]
  · simp [listed]
  · simp [listed]
  · intro d member
    exact List.mem_append_right _ member

theorem deleteSession_careful (fresh : Fresh now p) (id : GoString) :
    Careful now Failed (r.evalDeleteSession id) p := by
  refine fresh.checked r id (by simp) fun ready => ?_
  refine careful_any rfl fresh.unwritten fun owner => ?_
  refine checked_careful fresh.unwritten fun fit => (ready.append ?_ fit).careful ?_
  · split_ifs <;> simp
  · refine fits_then (removeSession_fits (by simp [listed])) fun _ => ?_
    refine fits_then (fits_onlyIf fun owned => fits_last (fits_use rfl ?_ rfl)) fun _ => rfl
    simp only [decide_eq_true_eq] at owned
    simp [listed, owned]

theorem putKey_careful (fresh : Fresh now p) (keyID id : GoString) :
    Careful now Failed (r.evalPutKey keyID id) p := by
  refine fresh.checked r id (by simp) fun ready => ?_
  refine careful_any rfl fresh.unwritten fun found => ?_
  refine careful_unless fresh.unwritten fun _ => ?_
  refine careful_read rfl fresh.unwritten ?_
  refine careful_unless fresh.unwritten fun _ => ?_
  have ranged := ready.pttl (r.sessKey id)
  apply ready.careful
  refine fits_then (setKey_fits (by simp [listed]) ranged) fun _ => ?_
  refine fits_call (fits_use rfl (by simp [listed]) rfl) fun _ _ => ?_
  exact fits_then (fits_onlyIf fun _ => fits_last (pexpire_fits ranged)) fun _ => rfl

theorem replaceKey_careful (fresh : Fresh now p) (oldKeyID newKeyID id : GoString) :
    Careful now Failed (replaceKeyScript (r.sessKey id) (r.keyKey oldKeyID) (r.keyKey newKeyID)
      (r.reverseKey id) id oldKeyID newKeyID) p := by
  refine fresh.checked r id (by simp) fun ready => ?_
  refine careful_any rfl fresh.unwritten fun found => ?_
  refine careful_unless fresh.unwritten fun _ => ?_
  refine careful_any rfl fresh.unwritten fun mapped => ?_
  refine careful_unless fresh.unwritten fun _ => ?_
  refine careful_any rfl fresh.unwritten fun taken => ?_
  refine careful_unless fresh.unwritten fun _ => ?_
  refine careful_read rfl fresh.unwritten ?_
  refine careful_unless fresh.unwritten fun _ => ?_
  have ranged := ready.pttl (r.sessKey id)
  apply ready.careful
  refine fits_then (setKey_fits (by simp [listed]) ranged) fun _ => ?_
  refine fits_call (fits_free rfl rfl) fun _ _ => ?_
  refine fits_call (fits_use rfl (by simp [listed]) rfl) fun _ _ => ?_
  refine fits_call (fits_use rfl (by simp [listed]) rfl) fun _ _ => ?_
  exact fits_then (fits_onlyIf fun _ => fits_last (pexpire_fits ranged)) fun _ => rfl

theorem deleteKey_careful (fresh : Fresh now p) (keyID : GoString) :
    Careful now Failed (deleteKeyScript (r.keyKey keyID) r.sessPrefix keyID) p := by
  refine careful_any rfl fresh.unwritten fun actual => ?_
  refine careful_unless fresh.unwritten fun _ => ?_
  refine careful_unless fresh.unwritten fun _ => ?_
  refine careful_any rfl fresh.unwritten fun sid => ?_
  have reverse : r.sessPrefix ++ sid.getD [] ++ lit ":keys" = r.reverseKey (sid.getD []) := rfl
  dsimp only
  rw [reverse]
  refine fresh.checked r (sid.getD []) (by simp) fun ready => ready.careful ?_
  refine fits_call (fits_free rfl rfl) fun _ _ => ?_
  exact fits_call (fits_use rfl (by simp [listed]) rfl) fun _ _ => rfl

theorem putCookie_careful (fresh : Fresh now p) (id name value sha : GoString) :
    Careful now Failed (putCookieScript (r.sessKey id) (r.attrKey id) (r.shaKey id) name value sha)
      p := by
  refine fresh.checked r id (by simp) fun ready => ?_
  refine careful_any rfl fresh.unwritten fun found => ?_
  refine careful_unless fresh.unwritten fun _ => ?_
  refine careful_read rfl fresh.unwritten ?_
  refine careful_unless fresh.unwritten fun _ => ?_
  have ranged := ready.pttl (r.sessKey id)
  apply ready.careful
  refine fits_call (fits_use rfl (by simp [listed]) rfl) fun _ _ => ?_
  refine fits_call (fits_use rfl (by simp [listed]) rfl) fun _ _ => ?_
  refine fits_then (fits_onlyIf fun _ => ?_) fun _ => rfl
  exact fits_call (pexpire_fits ranged) fun _ _ => fits_last (pexpire_fits ranged)

theorem deleteCookie_careful (fresh : Fresh now p) (id name : GoString) :
    Careful now Failed (deleteCookieScript (r.attrKey id) (r.shaKey id) name) p := by
  refine fresh.checked r id (by simp) fun ready => ready.careful ?_
  refine fits_call (fits_use rfl (by simp [listed]) rfl) fun _ _ => ?_
  exact fits_call (fits_use rfl (by simp [listed]) rfl) fun _ _ => rfl

theorem addOwnerIndex_careful (fresh : Fresh now p) (ownerID : Int) (id : GoString) {ttl : Int}
    (ranged : millis now + ttl < 2 ^ 63) :
    Careful now Failed (addOwnerIndexScript (r.ownerKey ownerID) id ttl) p := by
  refine fresh.checked r id (by simp) fun ready => ready.careful ?_
  refine fits_call (fits_use rfl (by simp [listed]) rfl) fun _ _ => ?_
  exact fits_then (fits_onlyIf fun _ => fits_last (pexpire_fits ranged)) fun _ => rfl

theorem reassignOwner_careful (fresh : Fresh now p) (s : Session) {ttl ownerTTL : Int}
    (ranged : millis now + double ttl < 2 ^ 63) (ownerRanged : millis now + ownerTTL < 2 ^ 63) :
    Careful now Failed (reassignOwnerScript (r.sessKey s.id) (r.ownerKey s.ownerID) r.ownerPrefix s
      ttl ownerTTL) p := by
  refine fresh.checked r s.id (by simp) fun ready => ?_
  refine careful_any rfl fresh.unwritten fun found => ?_
  refine careful_unless fresh.unwritten fun _ => ?_
  refine careful_any rfl fresh.unwritten fun owner => ?_
  refine boundedTTL_careful fresh.unwritten ?_
  rintro ⟨currentAccess, proposedAccess, ttlMs⟩ below
  dsimp only at below ⊢
  refine careful_unless fresh.unwritten fun _ => ?_
  refine checked_careful fresh.unwritten fun fit => (ready.append ?_ fit).careful ?_
  · split_ifs <;> simp
  · refine reassignCommit_fits (by simp [listed]) (by simp [listed]) ?_ (by omega) ownerRanged
    intro moved
    simp [listed, moved]

end Scripts

/-! ## Failures leave no trace -/

def StoreMethod.durations : StoreMethod → List Duration
  | .call (.putSession _ ttl) | .call (.touchSession _ _ _ _ ttl)
  | .call (.rotateSessionKey _ _ _ _ ttl) | .addOwnerIndex _ _ ttl => [ttl]
  | .call (.applySessionControls _ _ ttl ownerTTL) | .reassignOwner _ ttl ownerTTL => [ttl, ownerTTL]
  | _ => []

def numericFields : List GoString :=
  [lit "creation", lit "last_access", lit "inactive_timeout", lit "final_timeout", lit "owner_id",
   lit "last_rotation"]

/-- The numbers in session hashes are written as `PutSession` writes them. -/
def Redis.Numeric (r : Redis) (db : Keyspace GoString) : Prop :=
  ∀ id, ∀ field ∈ numericFields, ∀ text, (db.fields (r.sessKey id)).get field = some text →
    ∃ n, -2 ^ 63 ≤ n ∧ n < 2 ^ 63 ∧ text = formatInt n

section Eval

variable {r : Redis} {m : StoreMethod} {script : LuaScript} {now : Int} {p : Progress GoString}

theorem ranged_milliseconds {d : Duration} (epoch : millis now < 2 ^ 62)
    (bounds : -2 ^ 63 ≤ d ∧ d < 2 ^ 63) :
    millis now + d.milliseconds < 2 ^ 63 ∧ millis now + double d.milliseconds < 2 ^ 63 := by
  obtain ⟨low, high⟩ := milliseconds_bounds bounds.1 bounds.2
  rw [double_of_lt (by omega) (by omega)]
  omega

theorem eval_careful (runs : r.eval m = some script)
    (other : ∀ ownerID id, m ≠ .call (.deleteSessionByOwner ownerID id))
    (durations : ∀ d ∈ m.durations, -2 ^ 63 ≤ d ∧ d < 2 ^ 63) (fresh : Fresh now p) :
    Careful now Failed script p := by
  have ranged : ∀ d ∈ m.durations, millis now + d.milliseconds < 2 ^ 63 ∧
      millis now + double d.milliseconds < 2 ^ 63 :=
    fun d member => ranged_milliseconds fresh.epoch (durations d member)
  cases m with
  | call c =>
      cases c with
      | putSession s ttl =>
          cases runs
          exact putSession_careful fresh s (ranged ttl (by simp [StoreMethod.durations])).1
      | touchSession id keyID lastAccess legacyRotation ttl =>
          cases runs
          exact touchSession_careful fresh id keyID _ _
            (ranged ttl (by simp [StoreMethod.durations])).2
      | applySessionControls id c ttl ownerTTL =>
          cases runs
          exact applySessionControls_careful fresh id c _
            (ranged ttl (by simp [StoreMethod.durations])).2
            (ranged ownerTTL (by simp [StoreMethod.durations])).1
      | rotateSessionKey id oldKeyID newKeyID lastRotation ttl =>
          cases runs
          exact applySessionControls_careful fresh id _ _
            (ranged ttl (by simp [StoreMethod.durations])).2
            (ranged_milliseconds fresh.epoch (by decide)).1
      | deleteSession id =>
          cases runs
          exact deleteSession_careful fresh id
      | putKey keyID id ttl =>
          cases runs
          exact putKey_careful fresh keyID id
      | deleteSessionByOwner ownerID id => exact absurd rfl (other ownerID id)
      | _ => cases runs
  | replaceKey oldKeyID newKeyID id ttl =>
      cases runs
      exact replaceKey_careful fresh oldKeyID newKeyID id
  | deleteKey keyID =>
      cases runs
      exact deleteKey_careful fresh keyID
  | putCookie id name value sha =>
      cases runs
      exact putCookie_careful fresh id name value sha
  | deleteCookie id name =>
      cases runs
      exact deleteCookie_careful fresh id name
  | addOwnerIndex ownerID id ttl =>
      cases runs
      exact addOwnerIndex_careful fresh ownerID id (ranged ttl (by simp [StoreMethod.durations])).1
  | reassignOwner s ttl ownerTTL =>
      cases runs
      exact reassignOwner_careful fresh s (ranged ttl (by simp [StoreMethod.durations])).2
        (ranged ownerTTL (by simp [StoreMethod.durations])).1
  | removeOwnerIndex ownerID id => cases runs

end Eval

/-- A script that raises, or reports an error, not-found or a conflict, leaves the keyspace as it
was. It raises only before its first write. `DeleteSessionByOwner` is the one script that writes
before it reports 0. -/
theorem scripts_fail_without_trace {r : Redis} {m : StoreMethod} {script : LuaScript}
    (runs : r.eval m = some script)
    (other : ∀ ownerID id, m ≠ .call (.deleteSessionByOwner ownerID id))
    (durations : ∀ d ∈ m.durations, -2 ^ 63 ≤ d ∧ d < 2 ^ 63) {now : Int}
    (epoch : millis now < 2 ^ 62) {db : Keyspace GoString}
    (bounded : ∀ k expiry, db.expiry k = some expiry → expiry < 2 ^ 63) :
    r.Numeric db →
    ((∀ value, (run now script ⟨db.asOf now, false⟩).1 = some value → Failed value) →
      (exec now script db).2 = db.asOf now) ∧
    ((run now script ⟨db.asOf now, false⟩).1 = none →
      (run now script ⟨db.asOf now, false⟩).2.wrote = false) := by
  intro _
  have laid : Laid (fun _ _ => False) db := ⟨fun used => used.elim, fun expires => bounded _ _ expires⟩
  have careful : Careful now Failed script ⟨db.asOf now, false⟩ :=
    eval_careful runs other durations ⟨rfl, (laid.asOf now).bounded, epoch⟩
  have result := careful.run
  constructor
  · intro failed
    apply (run_unwritten script ⟨db.asOf now, false⟩ _).1
    generalize run now script ⟨db.asOf now, false⟩ = done at failed result
    obtain ⟨value, p⟩ := done
    cases value with
    | none => exact result
    | some value => exact result (failed value rfl)
  · intro raised
    generalize run now script ⟨db.asOf now, false⟩ = done at raised result
    obtain ⟨value, p⟩ := done
    cases raised
    exact result

def occupied : Keyspace GoString :=
  Function.update Keyspace.empty (lit "gs:sess:a") (some ⟨.string [], some 5000⟩)

theorem occupied_fails_without_trace :
    let put : StoreMethod := .call (.putSession ⟨lit "a", 1, 1, 60, 60, 0, 1, []⟩ second)
    ∃ script, Redis.eval ⟨lit "gs:"⟩ put = some script ∧
      (exec 0 script occupied).1 = some (.error (lit "WRONGTYPE gs:sess:a must be hash")) ∧
      (exec 0 script occupied).2 = occupied.asOf 0 := by
  refine ⟨_, rfl, by decide, ?_⟩
  refine (scripts_fail_without_trace (m := .call (.putSession _ second)) rfl (by simp) (by decide)
    (by decide) ?_ ?_).1 ?_
  · intro k expiry expires
    obtain ⟨e, found, due⟩ := Keyspace.expiry_eq_some.mp expires
    by_cases here : k = lit "gs:sess:a"
    · subst here
      cases found
      cases due
      decide
    · rw [occupied, Function.update_of_ne here] at found
      cases found
  · intro id field _ text found
    have none : occupied.fields (Redis.sessKey ⟨lit "gs:"⟩ id) = ∅ := by
      by_cases here : Redis.sessKey ⟨lit "gs:"⟩ id = lit "gs:sess:a"
      · rw [here]
        rfl
      · rw [Keyspace.fields, occupied, Function.update_of_ne here]
        rfl
    rw [none] at found
    cases found
  · intro value returned
    cases returned
    exact .inr (.inr ⟨_, rfl⟩)

end Gosestor.Store
