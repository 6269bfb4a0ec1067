import Gosestor.Proof.Session.Proper

/-!
# What the operations of a response change

`effects` are the store calls of a history that succeeded and change something. A response begins
a session, applies one set of controls to it, or deletes it; a step that fails has no effect but a
session that was just begun.
-/

namespace Gosestor

open Gosestor.Go Gosestor.Lib Gosestor.Store

def Store.StoreCall.changes : StoreCall → Bool
  | .putSession _ _ | .touchSession _ _ _ _ _ | .applySessionControls _ _ _ _
  | .rotateSessionKey _ _ _ _ _ | .deleteSession _ | .putKey _ _ _ | .deleteSessionByOwner _ _ => true
  | _ => false

def Deed.effect : Deed → Option StoreCall
  | ⟨.store c, .ok _⟩ => if c.changes then some c else none
  | _ => none

def effects (past : History) : List StoreCall := past.filterMap Deed.effect

def Deed.newKey : Deed → Option GoString
  | ⟨.store (.putKey keyID _ _), _⟩ => some keyID
  | ⟨.store (.applySessionControls _ c _ _), _⟩ => if c.rotate then some c.newKeyID else none
  | ⟨.store (.rotateSessionKey _ _ newKeyID _ _), _⟩ => some newKeyID
  | _ => none

def Issued (past : History) (keyID : GoString) : Prop := ∃ d ∈ past, Deed.newKey d = some keyID

theorem Minted.mono {past past' : History} {x : GoString} (minted : Minted past x)
    (grows : past ⊆ past') : Minted past' x := by
  obtain ⟨d, member, named⟩ := minted
  exact ⟨d, grows member, named⟩

theorem Issued.mono {past past' : History} {keyID : GoString} (issued : Issued past keyID)
    (grows : past ⊆ past') : Issued past' keyID := by
  obtain ⟨d, member, named⟩ := issued
  exact ⟨d, grows member, named⟩

theorem Issued.cons {past : History} {keyID : GoString} (issued : Issued past keyID) (d : Deed) :
    Issued (d :: past) keyID := by
  obtain ⟨d', member, named⟩ := issued
  exact ⟨d', List.mem_cons_of_mem d member, named⟩

/-- Labels change only together with the key, or under a key that the program issued itself. -/
def Relabels (past : History) : Call → Prop
  | .store (.applySessionControls _ c _ _) => c.setLabels → c.rotate ∨ Issued past c.oldKeyID
  | _ => True

def Guarded (past : History) (c : Call) : Prop := Orderly past c ∧ Relabels past c

theorem obeys_grows {α : Type} {may : History → Call → Prop} {post : α → History → Prop}
    {p : Act α} {past : History} (obeys : Obeys may post p past) :
    Obeys may (fun a past' => post a past' ∧ past ⊆ past') p past := by
  refine (obeys.frame (past ⊆ ·) ?_ (List.Subset.refl past)).mono (fun _ _ h => h.1) fun _ _ h => h
  rintro past₁ c r past₂ - ⟨-, rfl⟩ grows
  exact fun d member => List.mem_cons_of_mem _ (grows member)

namespace Session

variable {past : History} (m : Manager)

structure Begun (past : History) (l : Live) (calls : List StoreCall) : Prop where
  session : Minted past l.sessionID
  key : Minted past l.keyID
  issued : Issued past l.keyID
  pending : l.rewrite = true ∧ l.newKey = l.keyID
  calls : ∃ s ttl, s.id = l.sessionID ∧
    calls = [.putKey l.keyID l.sessionID ttl, .putSession s ttl]

def Birth (past : History) (calls : List StoreCall) : Prop :=
  calls = [] ∨ ∃ s ttl, Minted past s.id ∧
    (calls = [.putSession s ttl] ∨
      ∃ k ttl', Minted past k ∧ calls = [.putKey k s.id ttl', .putSession s ttl])

theorem Begun.mono {past' : History} {l : Live} {calls : List StoreCall}
    (begun : Begun past l calls) (grows : past ⊆ past') : Begun past' l calls :=
  { begun with
    session := begun.session.mono grows
    key := begun.key.mono grows
    issued := begun.issued.mono grows }

theorem Begun.birth {l : Live} {calls : List StoreCall} (begun : Begun past l calls) :
    Birth past calls := by
  obtain ⟨s, ttl, same, rfl⟩ := begun.calls
  refine .inr ⟨s, ttl, same ▸ begun.session, .inr ⟨l.keyID, ttl, begun.key, ?_⟩⟩
  rw [same]

theorem Birth.mono {past' : History} {calls : List StoreCall} (birth : Birth past calls)
    (grows : past ⊆ past') : Birth past' calls := by
  obtain rfl | ⟨s, ttl, minted, rfl | ⟨k, ttl', key, rfl⟩⟩ := birth
  · exact .inl rfl
  · exact .inr ⟨s, ttl, minted.mono grows, .inl rfl⟩
  · exact .inr ⟨s, ttl, minted.mono grows, .inr ⟨k, ttl', key.mono grows, rfl⟩⟩

theorem newID_obeys {α : Type} {may : History → Call → Prop} {post : α → History → Prop}
    {f : Except Err GoString → Act α} (allowed : may past .randomRead)
    (failed : Obeys may post (f (.error .random)) (⟨.randomRead, none⟩ :: past))
    (minted : ∀ buf, Obeys may post (f (.ok (encodeToString buf)))
      (⟨.randomRead, some buf⟩ :: past)) :
    Obeys may post (newID >>= f) past := by
  refine Prog.Wp.bind (obeys_act allowed fun buf _ => ?_)
  cases buf with
  | none => exact failed
  | some buf => exact minted buf

theorem begin_effects :
    Obeys Relabels
      (fun r past' => ∃ calls, effects past' = calls ++ effects past ∧
        (∀ l, r = .ok l → Begun past' l calls) ∧ (∀ e, r = .error e → Birth past' calls))
      m.begin past := by
  have nothing : ∀ {e : Err} {past' : History}, effects past' = effects past →
      ∃ calls, effects past' = calls ++ effects past ∧
        (∀ l, (.error e : Except Err Live) = .ok l → Begun past' l calls) ∧
        (∀ e', (.error e : Except Err Live) = .error e' → Birth past' calls) :=
    fun same => ⟨[], same, fun _ h => (by cases h), fun _ _ => .inl rfl⟩
  refine obeys_act trivial fun now _ => ?_
  refine newID_obeys trivial (nothing rfl) fun sid => ?_
  refine newID_obeys trivial (nothing rfl) fun key => ?_
  refine obeys_act trivial fun put _ => ?_
  cases put with
  | error e => exact nothing rfl
  | ok done =>
      refine obeys_act trivial fun stored _ => ?_
      have session : Minted (⟨.randomRead, some sid⟩ :: ⟨.now, now⟩ :: past) (encodeToString sid) :=
        ⟨_, List.mem_cons_self, rfl⟩
      cases stored with
      | error e =>
          exact ⟨[_], rfl, fun _ h => (by cases h),
            fun _ _ => .inr ⟨_, _, ((session.cons _).cons _).cons _, .inl rfl⟩⟩
      | ok done =>
          refine ⟨[_, _], rfl, fun l same => ?_, fun _ h => by cases h⟩
          cases same
          exact ⟨((session.cons _).cons _).cons _, ⟨⟨.randomRead, some key⟩, by simp, rfl⟩,
            ⟨_, List.mem_cons_self, rfl⟩, ⟨rfl, rfl⟩, _, _, rfl, rfl⟩

def Applied (past : History) (l l' : Live) (calls : List StoreCall) : Prop :=
  l'.sessionID = l.sessionID ∧
    ((calls = [] ∧ l'.newProxyCookie = l.newProxyCookie) ∨
      ∃ c ttl ownerTTL, calls = [.applySessionControls l.sessionID c ttl ownerTTL] ∧
        c.oldKeyID = l.keyID ∧
        (c.rotate = true → l.rewrite = false ∧ Minted past c.newKeyID ∧
          l'.newProxyCookie = some c.newKeyID) ∧
        (c.rotate = false → l'.newProxyCookie = l.newProxyCookie))

theorem Applied.mono {past' : History} {l l' : Live} {calls : List StoreCall}
    (applied : Applied past l l' calls) (grows : past ⊆ past') : Applied past' l l' calls := by
  obtain ⟨session, still | ⟨c, ttl, ownerTTL, made, old, rotates, keeps⟩⟩ := applied
  · exact ⟨session, .inl still⟩
  · refine ⟨session, .inr ⟨c, ttl, ownerTTL, made, old, fun rotate => ?_, keeps⟩⟩
    obtain ⟨pending, minted, cookie⟩ := rotates rotate
    exact ⟨pending, minted.mono grows, cookie⟩

section Committed

variable {l : Live} {c : SessionControls} {ownerID : Option Int} {labels : Option (List GoString)}

theorem foldl_cacheCookie (cookies : List Store.CookieMutation) (l : Live) :
    ∃ cached shas, cookies.foldl Live.cacheCookie l = { l with cookies := cached, shas } := by
  induction cookies generalizing l with
  | nil => exact ⟨l.cookies, l.shas, rfl⟩
  | cons cookie rest ih =>
      obtain ⟨cached, shas, same⟩ := ih (l.cacheCookie cookie)
      refine ⟨cached, shas, same.trans ?_⟩
      unfold Live.cacheCookie
      split_ifs <;> rfl

theorem committed_sessionID (l : Live) (c : SessionControls) (ownerID : Option Int)
    (labels : Option (List GoString)) : (l.committed c ownerID labels).sessionID = l.sessionID := by
  obtain ⟨cached, shas, same⟩ := foldl_cacheCookie c.cookies (l.applied ownerID labels)
  unfold Live.committed
  rw [same]
  dsimp only
  split_ifs <;> rfl

theorem committed_rotated (rotate : c.rotate = true) :
    (l.committed c ownerID labels).newProxyCookie = some c.newKeyID := by
  simp [Live.committed, rotate, Live.rotated, Live.newProxyCookie]

theorem committed_still (still : c.rotate = false) :
    (l.committed c ownerID labels).newProxyCookie = l.newProxyCookie := by
  obtain ⟨cached, shas, same⟩ := foldl_cacheCookie c.cookies (l.applied ownerID labels)
  unfold Live.committed
  simp only [still, same]
  rfl

end Committed

section Controls

variable {m : Manager} {l : Live} {sess : Session} {now : Int} {ownerID : Option Int}
  {labels : Option (List GoString)} {force periodic : Bool} {cookies : List CookieMutation}

theorem controls_rotate
    (rotate : (Live.controls m l sess now ownerID labels force periodic cookies).rotate = true) :
    l.rewrite = false := by
  simp only [Live.controls, Bool.and_eq_true, Bool.not_eq_true'] at rotate
  exact rotate.1

theorem controls_setLabels
    (set : (Live.controls m l sess now ownerID labels force periodic cookies).setLabels = true) :
    (Live.controls m l sess now ownerID labels force periodic cookies).rotate = true ∨
      l.rewrite = true := by
  simp only [Live.controls] at set ⊢
  cases l.rewrite with
  | false =>
      rw [set]
      simp
  | true => exact .inr rfl

end Controls

theorem applyControls_effects (l : Live) (ownerID : Option Int)
    (labels : Option (List GoString)) (force periodic : Bool) (cookies : List CookieMutation)
    (held : l.rewrite = true → Issued past l.keyID) :
    Obeys Relabels
      (fun result past' => ∃ calls, effects past' = calls ++ effects past ∧
        (result.1 = .ok () → Applied past' l result.2 calls) ∧
        (∀ e, result.1 = .error e → calls = []))
      (l.applyControls m ownerID labels force periodic cookies) past := by
  have nothing : ∀ {e : Err} {past' : History}, effects past' = effects past →
      ∃ calls, effects past' = calls ++ effects past ∧
        ((.error e : Except Err Unit) = .ok () → Applied past' l l calls) ∧
        (∀ e', (.error e : Except Err Unit) = .error e' → calls = []) :=
    fun same => ⟨[], same, fun h => (by cases h), fun _ _ => rfl⟩
  refine obeys_act trivial fun now _ => ?_
  refine obeys_act trivial fun row _ => ?_
  cases row with
  | error e => exact nothing rfl
  | ok sess =>
      dsimp only
      unfold Live.carryOut
      split_ifs with idle rotate
      · exact ⟨[], rfl, fun _ => ⟨rfl, .inl ⟨rfl, rfl⟩⟩, fun _ h => by cases h⟩
      · refine newID_obeys trivial (nothing rfl) fun key => ?_
        refine obeys_act (fun _ => .inl rotate) fun done _ => ?_
        cases done with
        | error e => exact nothing rfl
        | ok done =>
            refine ⟨[_], rfl, fun _ => ⟨committed_sessionID _ _ _ _, .inr ⟨_, _, _, rfl, rfl,
              fun _ => ⟨controls_rotate rotate, ⟨_, List.mem_cons_of_mem _ List.mem_cons_self, rfl⟩,
                committed_rotated rotate⟩, fun still => ?_⟩⟩, fun _ h => by cases h⟩
            cases rotate.symm.trans still
      · refine obeys_act (fun set => ?_) fun done _ => ?_
        · have pending := (controls_setLabels set).resolve_left rotate
          exact .inr (((held pending).cons _).cons _)
        · cases done with
          | error e => exact nothing rfl
          | ok done =>
              exact ⟨[_], rfl, fun _ => ⟨committed_sessionID _ _ _ _, .inr ⟨_, _, _, rfl, rfl,
                fun turned => absurd turned rotate, fun still => committed_still still⟩⟩,
                fun _ h => by cases h⟩

end Session

end Gosestor
