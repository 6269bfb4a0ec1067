import Gosestor.Lib.Cells
import Gosestor.Proof.Go.Strings
import Gosestor.Proof.Store.Scripts

/-!
# The keys of the Redis store

Ids without a colon, as the encoding of random bytes gives them, make different names for the row,
the cookies, their hashes and the reverse set of every session, for every key and every owner set.
On a keyspace that holds a value of the right kind under each of these names, no script raises.
-/

namespace Gosestor.Store

open Gosestor.Go Gosestor.Lib Gosestor.Lib.Redis

def Plain (id : GoString) : Prop := (58 : UInt8) ∉ id

theorem encodeToString_colonless (buf : List UInt8) : Plain (encodeToString buf) := by
  have digits : ∀ m < 64, base64Alphabet.getD m 0 ≠ 58 := by decide +kernel
  intro colon
  obtain ⟨n, same⟩ := mem_encodeToString colon
  exact digits (n % 64) (Nat.mod_lt n (by decide)) same.symm

abbrev PlainID := { id : GoString // Plain id }

inductive Part
  | row | attr | sha | keys
  deriving DecidableEq

inductive Slot
  | part (p : Part) (id : PlainID)
  | key (keyID : GoString)
  | owner (ownerID : GoString)
  deriving DecidableEq

namespace Part

def suffix : Part → GoString
  | .row => []
  | .attr => lit ":attr"
  | .sha => lit ":sha"
  | .keys => lit ":keys"

def kind : Part → Kind
  | .row | .attr | .sha => .hash
  | .keys => .set

end Part

def Slot.kind : Slot → Kind
  | .part p _ => p.kind
  | .key _ => .string
  | .owner _ => .set

namespace Redis

variable (r : Redis)

def name : Slot → GoString
  | .part p id => r.sessKey id ++ p.suffix
  | .key keyID => r.keyKey keyID
  | .owner ownerID => r.ownerPrefix ++ ownerID

end Redis

theorem Plain.append_inj {a b s t : GoString} (left : Plain a) (right : Plain b)
    (ends : s = [] ∨ s.head? = some 58) (ends' : t = [] ∨ t.head? = some 58)
    (same : a ++ s = b ++ t) : a = b ∧ s = t := by
  -- A plain id ends where the first colon stands.
  induction a generalizing b with
  | nil =>
      cases b with
      | nil => exact ⟨rfl, same⟩
      | cons x b =>
          simp only [List.nil_append] at same
          subst same
          obtain none | colon := ends
          · cases none
          · cases colon
            exact absurd List.mem_cons_self right
  | cons x a ih =>
      cases b with
      | nil =>
          simp only [List.nil_append] at same
          subst same
          obtain none | colon := ends'
          · cases none
          · cases colon
            exact absurd List.mem_cons_self left
      | cons y b =>
          simp only [List.cons_append, List.cons.injEq] at same
          obtain ⟨rfl, same⟩ := same
          obtain ⟨rfl, rest⟩ := ih (fun h => left (List.mem_cons_of_mem _ h))
            (fun h => right (List.mem_cons_of_mem _ h)) same
          exact ⟨rfl, rest⟩

namespace Redis

variable (r : Redis)

def bare : Slot → GoString
  | .part p id => lit "sess:" ++ (id ++ p.suffix)
  | .key keyID => lit "key:" ++ keyID
  | .owner ownerID => lit "owner:" ++ ownerID

theorem name_eq (s : Slot) : r.name s = r.namePrefix ++ bare s := by
  cases s <;> simp [name, bare, sessKey, keyKey, ownerPrefix, List.append_assoc]

theorem bare_injective : Function.Injective bare := by
  have ends : ∀ p : Part, p.suffix = [] ∨ p.suffix.head? = some 58 := by
    intro p
    cases p <;> decide
  have suffixes : ∀ p q : Part, p.suffix = q.suffix → p = q := by
    intro p q
    cases p <;> cases q <;> decide
  intro s t same
  cases s <;> cases t <;> simp only [bare, lit_key, lit_owner, lit_sess] at same
  case part.part p a q b =>
    obtain ⟨ids, rest⟩ := a.2.append_inj b.2 (ends p) (ends q) (List.append_cancel_left same)
    rw [suffixes p q rest, Subtype.ext ids]
  case key.key => exact congrArg _ (List.append_cancel_left same)
  case owner.owner => exact congrArg _ (List.append_cancel_left same)
  all_goals cases same

theorem name_injective : Function.Injective r.name := by
  intro s t same
  rw [name_eq, name_eq] at same
  exact bare_injective (List.append_cancel_left same)

theorem sessKey_name (id : PlainID) : r.sessKey id = r.name (.part .row id) := by
  simp [name, Part.suffix]

theorem attrKey_name (id : PlainID) : r.attrKey id = r.name (.part .attr id) := rfl

theorem shaKey_name (id : PlainID) : r.shaKey id = r.name (.part .sha id) := rfl

theorem reverseKey_name (id : PlainID) : r.reverseKey id = r.name (.part .keys id) := rfl

theorem keyKey_name (keyID : GoString) : r.keyKey keyID = r.name (.key keyID) := rfl

theorem ownerKey_name (ownerID : Int) : r.ownerKey ownerID = r.name (.owner (formatInt ownerID)) := rfl

theorem ownerPrefix_name (ownerID : GoString) : r.ownerPrefix ++ ownerID = r.name (.owner ownerID) := rfl

def layout : Layout GoString := fun k kind => ∃ s, r.name s = k ∧ s.kind = kind

theorem layout_consistent : r.layout.Consistent := by
  rintro k a b ⟨s, rfl, rfl⟩ ⟨t, same, rfl⟩
  rw [r.name_injective same]

theorem layout_name (s : Slot) : r.layout (r.name s) s.kind := ⟨s, rfl, rfl⟩

end Redis

namespace StoreCall

def session : StoreCall → Option GoString
  | .putSession s _ => some s.id
  | .touchSession id _ _ _ _ | .applySessionControls id _ _ _ | .rotateSessionKey id _ _ _ _
  | .getSession id | .deleteSession id | .putKey _ id _ | .getCookies id | .cookieSHAs id
  | .deleteSessionByOwner _ id => some id
  | .getKey _ | .ownerSessions _ | .lock _ _ | .unlock _ => none

structure Sane (c : StoreCall) : Prop where
  plain : ∀ id, c.session = some id → Plain id
  durations : ∀ d ∈ StoreMethod.durations (.call c), -2 ^ 63 ≤ d ∧ d < 2 ^ 63

end StoreCall

section Fits

variable {now : Int} {Γ : Layout GoString}

theorem fits_unless {α : Type} {condition : Prop} [Decidable condition] {value : α}
    {rest : Script GoString α} (go : ¬ condition → Fits now Γ (fun _ => True) rest) :
    Fits now Γ (fun _ => True) (if condition then pure value else rest) := by
  split_ifs with holds
  · trivial
  · exact go holds

theorem fits_any {α : Type} {post : α → Prop} {s : Script GoString α} (fits : Fits now Γ post s) :
    Fits now Γ (fun _ => True) s :=
  fits.weaken fun _ _ _ => trivial

theorem checked_fits {keys : List (GoString × Kind)} {rest : LuaScript}
    (fits : Fits now Γ (fun _ => True) rest) : Fits now Γ (fun _ => True) (checked keys rest) := by
  have types : Fits now Γ (fun _ => True) (requireTypes keys) := by
    induction keys with
    | nil => trivial
    | cons d keys ih =>
        refine fits_then (fits_call (fits_free rfl rfl) fun _ _ => trivial) fun wrong => ?_
        cases wrong with
        | none => exact ih
        | some text => trivial
  refine fits_then types fun wrong => ?_
  cases wrong with
  | none => exact fits
  | some text => trivial

theorem boundedTTL_fits {sess : GoString} (used : Γ sess .hash) (lastAccess ttl : Int) :
    Fits now Γ (fun bound => bound.2.2 ≤ double ttl) (boundedTTL sess lastAccess ttl) :=
  boundedTTL_wp lastAccess ttl (fun _ _ => fits_use rfl used rfl) (fun _ => fits_free rfl rfl) ()

theorem keyTaken_fits (oldKey newKey : GoString) (rotate : Bool) :
    Fits now Γ (fun _ => True) (keyTaken oldKey newKey rotate) := by
  unfold keyTaken
  split_ifs
  · exact fits_last (fits_free rfl rfl)
  · trivial

end Fits

namespace Redis

section Scripts

variable (r : Redis) (id : PlainID) {now : Int}

theorem layout_row : r.layout (r.sessKey id) .hash := r.sessKey_name id ▸ r.layout_name (.part .row id)

theorem layout_attr : r.layout (r.attrKey id) .hash := r.layout_name (.part .attr id)

theorem layout_sha : r.layout (r.shaKey id) .hash := r.layout_name (.part .sha id)

theorem layout_keys : r.layout (r.reverseKey id) .set := r.layout_name (.part .keys id)

theorem layout_key (keyID : GoString) : r.layout (r.keyKey keyID) .string := r.layout_name (.key keyID)

theorem layout_owner (owner : GoString) : r.layout (r.ownerPrefix ++ owner) .set :=
  r.layout_name (.owner owner)

theorem evalPutSession_fits {s : Session} (named : s.id = id) {ttl : Duration}
    (ranged : millis now + ttl.milliseconds < 2 ^ 63) :
    Fits now r.layout (fun _ => True) (r.evalPutSession s ttl) := by
  apply checked_fits
  refine fits_call (fits_use rfl (named ▸ r.layout_row id) rfl) fun _ _ => ?_
  exact fits_then (fits_onlyIf fun _ => fits_last (pexpire_fits ranged)) fun _ => trivial

theorem evalTouchSession_fits (keyID : GoString) (lastAccess legacyRotation : Int) {ttl : Duration}
    (ranged : millis now + double ttl.milliseconds < 2 ^ 63) :
    Fits now r.layout (fun _ => True) (r.evalTouchSession id keyID lastAccess legacyRotation ttl) := by
  apply checked_fits
  refine fits_call (fits_free rfl rfl) fun found _ => fits_unless fun _ => ?_
  refine fits_call (fits_use rfl (r.layout_key keyID) rfl) fun mapped _ => fits_unless fun _ => ?_
  refine Prog.Wp.bind ((boundedTTL_fits (r.layout_row id) lastAccess ttl.milliseconds).weaken ?_)
  rintro ⟨currentAccess, proposedAccess, ttlMs⟩ _ below
  dsimp only at below ⊢
  exact fits_unless fun _ => fits_any (touchCommit_fits (r.layout_row id) _ _ _ _ (by omega))

theorem evalApplySessionControls_fits (c : SessionControls) {ttl ownerTTL : Duration}
    (ranged : millis now + double ttl.milliseconds < 2 ^ 63)
    (ownerRanged : millis now + ownerTTL.milliseconds < 2 ^ 63) :
    Fits now r.layout (fun _ => True) (r.evalApplySessionControls id c ttl ownerTTL) := by
  apply checked_fits
  refine fits_call (fits_free rfl rfl) fun found _ => fits_unless fun _ => fits_unless fun _ => ?_
  refine fits_call (fits_use rfl (r.layout_key _) rfl) fun mapped _ => ?_
  refine fits_unless fun _ => fits_unless fun _ => ?_
  refine fits_then (keyTaken_fits _ _ _) fun taken => fits_unless fun _ => ?_
  refine Prog.Wp.bind ((boundedTTL_fits (r.layout_row id) c.lastAccess ttl.milliseconds).weaken ?_)
  rintro ⟨currentAccess, proposedAccess, ttlMs⟩ _ below
  dsimp only at below ⊢
  refine fits_unless fun _ => ?_
  refine fits_call (fits_use rfl (r.layout_row id) rfl) fun owner _ => checked_fits ?_
  apply fits_any (applyCommit_fits (r.layout_row id) (r.layout_key _) (r.layout_attr id)
    (r.layout_sha id) (r.layout_keys id) _ (by omega) (by omega) ownerRanged)
  intro d listed
  unfold ownerSets at listed
  split_ifs at listed
  · cases listed
  · simp only [List.mem_cons, List.not_mem_nil, or_false] at listed
    obtain rfl | rfl := listed
    · exact r.layout_owner _
    · exact r.layout_owner _
  · obtain rfl := List.mem_singleton.mp listed
    exact r.layout_owner _

theorem evalDeleteSession_fits : Fits now r.layout (fun _ => True) (r.evalDeleteSession id) := by
  apply checked_fits
  refine fits_call (fits_use rfl (r.layout_row id) rfl) fun owner _ => checked_fits ?_
  refine fits_then (removeSession_fits (r.layout_keys id)) fun _ => ?_
  exact fits_then (fits_onlyIf fun _ => fits_last (fits_use rfl (r.layout_owner _) rfl)) fun _ =>
    trivial

theorem evalDeleteSessionByOwner_fits (ownerID : Int) :
    Fits now r.layout (fun _ => True) (r.evalDeleteSessionByOwner ownerID id) := by
  apply checked_fits
  refine fits_call (fits_use rfl (r.layout_row id) rfl) fun owner _ => ?_
  split_ifs
  · exact fits_call (fits_use rfl (r.layout_owner _) rfl) fun _ _ => trivial
  · refine fits_then (removeSession_fits (r.layout_keys id)) fun _ => ?_
    exact fits_call (fits_use rfl (r.layout_owner _) rfl) fun _ _ => trivial

theorem evalPutKey_fits (keyID : GoString) :
    Fits now r.layout (fun _ => True) (r.evalPutKey keyID id) := by
  apply checked_fits
  refine fits_call (fits_free rfl rfl) fun found _ => fits_unless fun _ => ?_
  refine fits_call (fits_free rfl rfl) fun ttl likely => fits_unless fun _ => ?_
  refine fits_then (setKey_fits (r.layout_key keyID) likely) fun _ => ?_
  refine fits_call (fits_use rfl (r.layout_keys id) rfl) fun _ _ => ?_
  exact fits_then (fits_onlyIf fun _ => fits_last (pexpire_fits likely)) fun _ => trivial

end Scripts

theorem request_fits {r : Redis} {c : StoreCall} {script : Script GoString c.Answer}
    (request : r.request c = some script) (sane : c.Sane) {now : Int} (epoch : millis now < 2 ^ 62) :
    Fits now r.layout (fun _ => True) script := by
  have mapped : ∀ {s : LuaScript} {β : Type} {f : ScriptResult → β},
      Fits now r.layout (fun _ => True) s → Fits now r.layout (fun _ => True) (f <$> s) :=
    fun fits => fits_then fits fun _ => trivial
  have ranged : ∀ d ∈ StoreMethod.durations (.call c), millis now + d.milliseconds < 2 ^ 63 ∧
      millis now + double d.milliseconds < 2 ^ 63 :=
    fun d member => ranged_milliseconds epoch (sane.durations d member)
  have plain := sane.plain
  cases c with
  | putSession s ttl =>
      cases request
      exact mapped (r.evalPutSession_fits ⟨s.id, plain _ rfl⟩ rfl (ranged ttl List.mem_cons_self).1)
  | touchSession id keyID lastAccess legacyRotation ttl =>
      cases request
      exact mapped (r.evalTouchSession_fits ⟨id, plain _ rfl⟩ _ _ _ (ranged ttl List.mem_cons_self).2)
  | applySessionControls id c ttl ownerTTL =>
      cases request
      exact mapped (r.evalApplySessionControls_fits ⟨id, plain _ rfl⟩ c
        (ranged ttl (by simp [StoreMethod.durations])).2
        (ranged ownerTTL (by simp [StoreMethod.durations])).1)
  | rotateSessionKey id oldKeyID newKeyID lastRotation ttl =>
      cases request
      exact mapped (r.evalApplySessionControls_fits ⟨id, plain _ rfl⟩ _
        (ranged ttl List.mem_cons_self).2 (ranged_milliseconds epoch (by decide)).1)
  | deleteSession id =>
      cases request
      exact mapped (r.evalDeleteSession_fits ⟨id, plain _ rfl⟩)
  | putKey keyID id ttl =>
      cases request
      exact mapped (r.evalPutKey_fits ⟨id, plain _ rfl⟩ keyID)
  | deleteSessionByOwner ownerID id =>
      cases request
      exact mapped (r.evalDeleteSessionByOwner_fits ⟨id, plain _ rfl⟩ ownerID)
  | getSession id =>
      cases request
      exact fits_call (fits_use rfl (r.layout_row ⟨id, plain _ rfl⟩) rfl) fun _ _ => trivial
  | getKey keyID =>
      cases request
      exact fits_call (fits_use rfl (r.layout_key keyID) rfl) fun _ _ => trivial
  | getCookies id =>
      cases request
      exact fits_then (fits_last (fits_use rfl (r.layout_attr ⟨id, plain _ rfl⟩) rfl)) fun _ => trivial
  | cookieSHAs id =>
      cases request
      exact fits_then (fits_last (fits_use rfl (r.layout_sha ⟨id, plain _ rfl⟩) rfl)) fun _ => trivial
  | ownerSessions ownerID =>
      cases request
      exact fits_then (fits_last (fits_use rfl (r.layout_owner _) rfl)) fun _ => trivial
  | lock id ttl => cases request
  | unlock id => cases request

/-- On a keyspace that is laid out as the store uses it, a call computes what its commands say. -/
theorem exec_eq {r : Redis} {c : StoreCall} {script : Script GoString c.Answer}
    (request : r.request c = some script) (sane : c.Sane) {now : Int} (epoch : millis now < 2 ^ 62)
    {db : Keyspace GoString} (laid : Laid r.layout db) :
    exec now script db = (some (script.eval (Cmd.total now) (db.asOf now)).1,
      (script.eval (Cmd.total now) (db.asOf now)).2) ∧
    Laid r.layout (script.eval (Cmd.total now) (db.asOf now)).2 := by
  obtain ⟨wrote, ran, laid', -⟩ := (request_fits request sane epoch).run_eq r.layout_consistent
    (by omega) (p := ⟨db.asOf now, false⟩) (laid.asOf now)
  exact ⟨by simp only [exec, ran], laid'⟩

end Redis

end Gosestor.Store
