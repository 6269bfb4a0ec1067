import Gosestor.Proof.Store.Scripts

/-!
# Which keys the scripts write

A script about a session writes the row of that session, its cookies, their hashes, its reverse
set, keys and owner sets. Scripts that do not set a row at most delete it.
-/

namespace Gosestor.Store

open Gosestor.Go Gosestor.Lib Gosestor.Lib.Redis

/-- Every command that the script calls is one of `may`, whatever is replied. -/
abbrev Calls {α : Type} (may : Cmd GoString → Prop) (s : Script GoString α) : Prop :=
  s.Wp (fun _ _ _ _ => True) (fun _ c => may c) (fun _ _ => True) ()

section Rules

variable {α β : Type} {may : Cmd GoString → Prop} {c : Cmd GoString}

theorem calls_call {f : c.Reply → Script GoString α} (allowed : may c)
    (rest : ∀ reply, Calls may (f reply)) : Calls may (call c >>= f) :=
  ⟨allowed, fun reply _ _ => rest reply⟩

theorem calls_last (allowed : may c) : Calls may (call c) :=
  ⟨allowed, fun _ _ _ => trivial⟩

theorem calls_then {s : Script GoString α} {f : α → Script GoString β} (first : Calls may s)
    (rest : ∀ a, Calls may (f a)) : Calls may (s >>= f) :=
  Prog.Wp.bind (first.weaken fun a _ _ => rest a)

theorem calls_map {s : Script GoString α} {f : α → β} (calls : Calls may s) :
    Calls may (f <$> s) :=
  calls_then calls fun _ => trivial

theorem calls_onlyIf {condition : Bool} {s : Script GoString Unit} (calls : Calls may s) :
    Calls may (onlyIf condition s) := by
  unfold onlyIf
  split_ifs
  · exact calls
  · trivial

theorem calls_unless {condition : Prop} [Decidable condition] {value : α}
    {rest : Script GoString α} (calls : Calls may rest) :
    Calls may (if condition then pure value else rest) := by
  split_ifs
  · trivial
  · exact calls

theorem run_untouched {k : GoString} {now : Int} {s : Script GoString α}
    (calls : Calls (fun c => c.target ≠ some k) s) (p : Progress GoString) :
    (run now s p).2.db k = p.db k := by
  induction s generalizing p with
  | ret value => rfl
  | call c next ih =>
      unfold run
      split_ifs with raised
      · rfl
      · rw [ih _ (calls.2 _ () trivial)]
        exact Cmd.total_of_target calls.1

end Rules

section Parts

variable {may : Cmd GoString → Prop}

theorem delEach_calls {keys : List GoString} (dels : ∀ k ∈ keys, may (.del k)) :
    Calls may (delEach keys) := by
  induction keys with
  | nil => trivial
  | cons k keys ih =>
      apply calls_call
      · exact dels k List.mem_cons_self
      · exact fun _ => ih fun k member => dels k (List.mem_cons_of_mem _ member)

theorem applyCookies_calls {attr sha : GoString} (attrs : ∀ c, c.target = some attr → may c)
    (shas : ∀ c, c.target = some sha → may c) (cookies : List CookieMutation) :
    Calls may (applyCookies attr sha cookies) := by
  induction cookies with
  | nil => trivial
  | cons cookie cookies ih =>
      refine calls_then ?_ fun _ => ih
      unfold applyCookie
      split_ifs
      · exact calls_call (attrs _ rfl) fun _ => calls_last (shas _ rfl)
      · exact calls_call (attrs _ rfl) fun _ => calls_last (shas _ rfl)

theorem swapKey_calls {oldKey newKey keys id oldKeyID newKeyID : GoString} {ttlMs : Int}
    (old : ∀ c, c.target = some oldKey → may c) (new : ∀ c, c.target = some newKey → may c)
    (reverse : ∀ c, c.target = some keys → may c) :
    Calls may (swapKey oldKey newKey keys id oldKeyID newKeyID ttlMs) := by
  refine calls_call (new _ rfl) fun _ => ?_
  refine calls_call (old _ rfl) fun _ => ?_
  refine calls_call (reverse _ rfl) fun _ => ?_
  exact calls_last (reverse _ rfl)

theorem setKey_calls {key id : GoString} {ttl : Int} (keys : ∀ c, c.target = some key → may c) :
    Calls may (setKey key id ttl) := by
  unfold setKey
  split_ifs
  · exact calls_last (keys _ rfl)
  · exact calls_last (keys _ rfl)

theorem moveOwnerSet_calls {sess ownerPrefix previous owner id : GoString} {ownerTTL : Int}
    (row : ∀ c, c.target = some sess → may c)
    (owners : ∀ o c, c.target = some (ownerPrefix ++ o) → may c) :
    Calls may (moveOwnerSet sess ownerPrefix previous owner id ownerTTL) := by
  refine calls_call (row _ rfl) fun _ => ?_
  refine calls_call (owners owner _ rfl) fun _ => ?_
  refine calls_then (calls_onlyIf (calls_last (owners owner _ rfl))) fun _ => ?_
  exact calls_onlyIf (calls_last (owners previous _ rfl))

variable (reads : ∀ c, c.target = none → may c)

include reads

theorem checked_calls (keys : List (GoString × Kind)) {rest : LuaScript} (calls : Calls may rest) :
    Calls may (checked keys rest) := by
  have types : Calls may (requireTypes keys) := by
    induction keys with
    | nil => trivial
    | cons d keys ih =>
        refine calls_then (calls_call (reads _ rfl) fun _ => trivial) fun wrong => ?_
        cases wrong with
        | none => exact ih
        | some text => trivial
  refine calls_then types fun wrong => ?_
  cases wrong with
  | none => exact calls
  | some text => trivial

theorem keyTaken_calls (oldKey newKey : GoString) (rotate : Bool) :
    Calls may (keyTaken oldKey newKey rotate) := by
  unfold keyTaken
  split_ifs
  · exact calls_last (reads _ rfl)
  · trivial

theorem boundedTTL_calls (sess : GoString) (lastAccess ttl : Int) :
    Calls may (boundedTTL sess lastAccess ttl) := by
  refine (boundedTTL_wp lastAccess ttl ?_ ?_ ()).weaken fun _ _ _ => trivial
  · exact fun _ _ => reads _ rfl
  · exact fun _ => reads _ rfl

theorem refreshTTL_calls {ttl : Int} {keys : List GoString}
    (refreshes : ∀ k ∈ keys, ∀ c, c.target = some k → may c) : Calls may (refreshTTL ttl keys) := by
  induction keys with
  | nil => trivial
  | cons k keys ih =>
      refine calls_call (reads _ rfl) fun found => ?_
      refine calls_then (calls_onlyIf (calls_last ?_)) fun _ => ih ?_
      · exact refreshes k List.mem_cons_self _ rfl
      · exact fun k member => refreshes k (List.mem_cons_of_mem _ member)

theorem removeSession_calls {sess attr sha keys keyPrefix : GoString}
    (dels : ∀ k ∈ [sess, attr, sha, keys], may (.del k)) (keyed : ∀ x, may (.del (keyPrefix ++ x))) :
    Calls may (removeSession sess attr sha keys keyPrefix) := by
  refine calls_call (reads _ rfl) fun keyIDs => ?_
  refine calls_then (delEach_calls fun k member => ?_) fun _ => delEach_calls dels
  obtain ⟨x, -, rfl⟩ := List.mem_map.mp member
  exact keyed x

end Parts

namespace Redis

inductive Names (r : Redis) (id : GoString) : GoString → Prop
  | attr : Names r id (r.attrKey id)
  | sha : Names r id (r.shaKey id)
  | reverse : Names r id (r.reverseKey id)
  | key (x : GoString) : Names r id (r.keyPrefix ++ x)
  | owner (x : GoString) : Names r id (r.ownerPrefix ++ x)

section Scripts

variable {r : Redis} {id : GoString} {may : Cmd GoString → Prop}
  (reads : ∀ c, c.target = none → may c)
  (names : ∀ c k, c.target = some k → r.Names id k → may c)

include reads names

section Row

variable (row : ∀ c, c.target = some (r.sessKey id) → may c)

include row

theorem evalTouchSession_calls (keyID : GoString) (lastAccess legacyRotation : Int) (ttl : Duration) :
    Calls may (r.evalTouchSession id keyID lastAccess legacyRotation ttl) := by
  apply checked_calls reads
  refine calls_call (reads _ rfl) fun found => ?_
  refine calls_unless (calls_call (reads _ rfl) fun mapped => ?_)
  refine calls_unless (calls_then (boundedTTL_calls reads _ _ _) fun bound => ?_)
  refine calls_unless (calls_then (calls_onlyIf (calls_call (row _ rfl) fun _ => ?_)) fun _ => ?_)
  · apply refreshTTL_calls reads
    intro k member c target
    simp only [List.mem_cons, List.not_mem_nil, or_false] at member
    obtain rfl | rfl | rfl | rfl | rfl := member
    · exact row c target
    · exact names c _ target (.key keyID)
    · exact names c _ target .attr
    · exact names c _ target .sha
    · exact names c _ target .reverse
  · refine calls_call (reads _ rfl) fun rotation => ?_
    exact calls_then (calls_onlyIf (calls_last (row _ rfl))) fun _ => trivial

theorem applyCommit_calls (c : SessionControls) (newKeyID previous : GoString)
    (currentAccess proposedAccess ttlMs ownerTTL : Int) :
    Calls may (applyCommit (r.sessKey id) (r.keyKey c.oldKeyID) (r.keyKey newKeyID) (r.attrKey id)
      (r.shaKey id) (r.reverseKey id) r.ownerPrefix id c newKeyID previous currentAccess
      proposedAccess ttlMs ownerTTL) := by
  have rows : ∀ {condition pairs}, Calls may (onlyIf condition (call (.hset (r.sessKey id) pairs))) :=
    calls_onlyIf (calls_last (row _ rfl))
  refine calls_then (calls_onlyIf (moveOwnerSet_calls row ?_)) fun _ => ?_
  · exact fun o c target => names c _ target (.owner o)
  refine calls_then rows fun _ => ?_
  refine calls_then rows fun _ => ?_
  refine calls_then (calls_call (reads _ rfl) fun _ => trivial) fun currentRotation => ?_
  refine calls_then rows fun _ => ?_
  refine calls_then (calls_onlyIf (swapKey_calls ?_ ?_ ?_)) fun _ => ?_
  · exact fun cmd target => names cmd _ target (.key c.oldKeyID)
  · exact fun cmd target => names cmd _ target (.key newKeyID)
  · exact fun cmd target => names cmd _ target .reverse
  refine calls_then (applyCookies_calls ?_ ?_ c.cookies) fun _ => ?_
  · exact fun cmd target => names cmd _ target .attr
  · exact fun cmd target => names cmd _ target .sha
  refine calls_then (calls_onlyIf (refreshTTL_calls reads ?_)) fun _ => trivial
  intro k member cmd target
  simp only [List.mem_cons, List.not_mem_nil, or_false] at member
  obtain rfl | rfl | rfl | rfl | rfl := member
  · exact row cmd target
  · split_ifs at target
    · exact names cmd _ target (.key newKeyID)
    · exact names cmd _ target (.key c.oldKeyID)
  · exact names cmd _ target .attr
  · exact names cmd _ target .sha
  · exact names cmd _ target .reverse

theorem evalApplySessionControls_calls (c : SessionControls) (ttl ownerTTL : Duration) :
    Calls may (r.evalApplySessionControls id c ttl ownerTTL) := by
  apply checked_calls reads
  refine calls_call (reads _ rfl) fun found => ?_
  refine calls_unless (calls_unless (calls_call (reads _ rfl) fun mapped => ?_))
  refine calls_unless (calls_unless (calls_then (keyTaken_calls reads _ _ _) fun taken => ?_))
  refine calls_unless (calls_then (boundedTTL_calls reads _ _ _) fun bound => ?_)
  refine calls_unless (calls_call (reads _ rfl) fun owner => ?_)
  apply checked_calls reads
  exact applyCommit_calls reads names row c _ _ _ _ _ _

end Row

theorem evalPutKey_calls (keyID : GoString) : Calls may (r.evalPutKey keyID id) := by
  apply checked_calls reads
  refine calls_call (reads _ rfl) fun found => ?_
  refine calls_unless (calls_call (reads _ rfl) fun ttl => ?_)
  refine calls_unless (calls_then (setKey_calls ?_) fun _ => ?_)
  · exact fun c target => names c _ target (.key keyID)
  refine calls_call (names _ _ rfl .reverse) fun _ => ?_
  exact calls_then (calls_onlyIf (calls_last (names _ _ rfl .reverse))) fun _ => trivial

section Delete

variable (del : may (.del (r.sessKey id)))

include del

theorem removeRow_calls : Calls may (removeSession (r.sessKey id) (r.attrKey id) (r.shaKey id)
    (r.reverseKey id) r.keyPrefix) := by
  apply removeSession_calls reads
  · intro k member
    simp only [List.mem_cons, List.not_mem_nil, or_false] at member
    obtain rfl | rfl | rfl | rfl := member
    · exact del
    · exact names _ _ rfl .attr
    · exact names _ _ rfl .sha
    · exact names _ _ rfl .reverse
  · exact fun x => names _ _ rfl (.key x)

theorem evalDeleteSession_calls : Calls may (r.evalDeleteSession id) := by
  apply checked_calls reads
  refine calls_call (reads _ rfl) fun owner => ?_
  apply checked_calls reads
  refine calls_then (removeRow_calls reads names del) fun _ => ?_
  exact calls_then (calls_onlyIf (calls_last (names _ _ rfl (.owner _)))) fun _ => trivial

theorem evalDeleteSessionByOwner_calls (ownerID : Int) :
    Calls may (r.evalDeleteSessionByOwner ownerID id) := by
  apply checked_calls reads
  refine calls_call (reads _ rfl) fun current => ?_
  split_ifs
  · exact calls_call (names _ _ rfl (.owner _)) fun _ => trivial
  · refine calls_then (removeRow_calls reads names del) fun _ => ?_
    exact calls_call (names _ _ rfl (.owner _)) fun _ => trivial

end Delete

end Scripts

end Redis

namespace StoreCall

def about : StoreCall → Option GoString
  | .putSession s _ => some s.id
  | .touchSession id _ _ _ _ | .applySessionControls id _ _ _ | .rotateSessionKey id _ _ _ _
  | .deleteSession id | .putKey _ id _ | .deleteSessionByOwner _ id => some id
  | _ => none

def rewrites : StoreCall → Option GoString
  | .putSession s _ => some s.id
  | .touchSession id _ _ _ _ | .applySessionControls id _ _ _ | .rotateSessionKey id _ _ _ _ => some id
  | _ => none

end StoreCall

/-- A call writes only names of its session, and sets the row of a session only when it is one of
the calls that do. -/
theorem request_calls {r : Redis} {c : StoreCall} {script : Script GoString c.Answer}
    (request : r.request c = some script) {may : Cmd GoString → Prop}
    (reads : ∀ cmd, cmd.target = none → may cmd)
    (names : ∀ id, c.about = some id → ∀ cmd k, cmd.target = some k → r.Names id k → may cmd)
    (del : ∀ id, may (.del (r.sessKey id)))
    (row : ∀ id, c.rewrites = some id → ∀ cmd, cmd.target = some (r.sessKey id) → may cmd) :
    Calls may script := by
  cases c with
  | putSession s ttl =>
      cases request
      apply calls_map
      apply checked_calls reads
      refine calls_call (row s.id rfl _ rfl) fun _ => ?_
      exact calls_then (calls_onlyIf (calls_last (row s.id rfl _ rfl))) fun _ => trivial
  | touchSession id keyID lastAccess legacyRotation ttl =>
      cases request
      apply calls_map
      exact Redis.evalTouchSession_calls reads (names id rfl) (row id rfl) _ _ _ _
  | applySessionControls id c ttl ownerTTL =>
      cases request
      apply calls_map
      exact Redis.evalApplySessionControls_calls reads (names id rfl) (row id rfl) _ _ _
  | rotateSessionKey id oldKeyID newKeyID lastRotation ttl =>
      cases request
      apply calls_map
      exact Redis.evalApplySessionControls_calls reads (names id rfl) (row id rfl) _ _ _
  | deleteSession id =>
      cases request
      apply calls_map
      exact Redis.evalDeleteSession_calls reads (names id rfl) (del id)
  | putKey keyID id ttl =>
      cases request
      apply calls_map
      exact Redis.evalPutKey_calls reads (names id rfl) keyID
  | deleteSessionByOwner ownerID id =>
      cases request
      apply calls_map
      exact Redis.evalDeleteSessionByOwner_calls reads (names id rfl) (del id) ownerID
  | getSession id =>
      cases request
      exact calls_call (reads _ rfl) fun _ => trivial
  | getKey keyID =>
      cases request
      exact calls_call (reads _ rfl) fun _ => trivial
  | getCookies id =>
      cases request
      exact calls_map (calls_last (reads _ rfl))
  | cookieSHAs id =>
      cases request
      exact calls_map (calls_last (reads _ rfl))
  | ownerSessions ownerID =>
      cases request
      exact calls_map (calls_last (reads _ rfl))
  | lock id ttl => cases request
  | unlock id => cases request

end Gosestor.Store
