import Gosestor.Proof.Session.Integrity
import Gosestor.Proof.Store.Slots

/-!
# Which sessions an operation names, and for how long it stores them

The ids in the calls of an operation are that of its handle, one it minted, or one that the store
told it. Every lifetime it hands to the store is that of a row it read, at a time its clock showed,
or that of the session it begins.
-/

namespace Gosestor

open Gosestor.Go Gosestor.Lib Gosestor.Store

def Deed.Tells (id : GoString) : Deed → Prop
  | ⟨.randomRead, some buf⟩ => encodeToString buf = id
  | ⟨.store (.getKey _), .ok sid⟩ => sid = id
  | ⟨.store (.ownerSessions _), .ok sids⟩ => id ∈ sids
  | _ => False

def Told (past : History) (id : GoString) : Prop := ∃ d ∈ past, Deed.Tells id d

theorem Told.cons {past : History} {id : GoString} (told : Told past id) (d : Deed) :
    Told (d :: past) id := by
  obtain ⟨d', member, tells⟩ := told
  exact ⟨d', List.mem_cons_of_mem d member, tells⟩

theorem told_cons {past : History} {id : GoString} (d : Deed) (tells : Deed.Tells id d) :
    Told (d :: past) id :=
  ⟨d, List.mem_cons_self, tells⟩

namespace Session

structure Knows (past : History) (id : GoString) (row : Session) (now : Int) : Prop where
  row : (⟨.store (.getSession id), .ok row⟩ : Deed) ∈ past
  now : (⟨.now, now⟩ : Deed) ∈ past

theorem Knows.cons {past : History} {id : GoString} {row : Session} {now : Int}
    (knows : Knows past id row now) (d : Deed) : Knows (d :: past) id row now :=
  ⟨List.mem_cons_of_mem d knows.row, List.mem_cons_of_mem d knows.now⟩

structure Errand where
  manager : Manager
  handle : Option Live
  owner : Option Int

def Op.owner : Op → Option Int
  | .applyResponse _ ownerID _ _ _ | .applyResponseControls _ ownerID _ _ => ownerID.map (·.val)
  | .bindOwner _ ownerID | .revokeOwner ownerID => some ownerID
  | .withLock _ fn => fn.owner
  | _ => none

def Job.errand (job : Job) : Errand := ⟨job.manager, job.op.handle, job.op.owner⟩

def Lifetime (e : Errand) (past : History) : StoreCall → Prop
  | .putSession s ttl => ∃ now, (⟨.now, now⟩ : Deed) ∈ past ∧ s = e.manager.newSession s.id now ∧
      ttl = Manager.ttl s now
  | .touchSession id _ lastAccess legacyRotation ttl => ∃ row, Knows past id row lastAccess ∧
      (legacyRotation = lastAccess ∨ legacyRotation = row.lastRotation) ∧
      ttl = Manager.ttl row lastAccess
  | .applySessionControls id c ttl ownerTTL => ∃ row now, Knows past id row now ∧
      (c.lastAccess = now ∨ c.lastAccess = 0) ∧ (c.lastRotation = now ∨ c.lastRotation = 0) ∧
      (c.setOwner = true → e.owner = some c.ownerID) ∧
      ttl = Manager.ttl row now ∧ ownerTTL = int64 (row.finalTimeout * second)
  | .rotateSessionKey id _ _ lastRotation ttl => ∃ row, Knows past id row lastRotation ∧
      ttl = Manager.ttl row lastRotation
  | .deleteSessionByOwner ownerID _ => e.owner = some ownerID
  | .lock _ _ | .unlock _ => e.manager.cfg.synchronize = true
  | _ => True

def Lawful (e : Errand) (past : History) : Call → Prop
  | .store c => (∀ id, c.session = some id → (∃ l, e.handle = some l ∧ id = l.sessionID) ∨ Told past id) ∧
      Lifetime e past c
  | _ => True

section Operations

variable {m : Manager} {past : History} {owner : Option Int}

theorem lawful_newID {α : Type} {e : Errand} {post : α → History → Prop}
    {f : Except Err GoString → Act α}
    (failed : Obeys (Lawful e) post (f (.error .random)) (⟨.randomRead, none⟩ :: past))
    (minted : ∀ buf, Obeys (Lawful e) post (f (.ok (encodeToString buf)))
      (⟨.randomRead, some buf⟩ :: past)) :
    Obeys (Lawful e) post (newID >>= f) past := by
  refine Prog.Wp.bind (obeys_act trivial fun buf _ => ?_)
  cases buf with
  | none => exact failed
  | some buf => exact minted buf

theorem begin_lawful : Obeys (Lawful ⟨m, none, owner⟩) (fun _ _ => True) m.begin past := by
  refine obeys_act trivial fun now _ => ?_
  refine lawful_newID trivial fun sid => ?_
  refine lawful_newID trivial fun key => ?_
  have told : Told (⟨.randomRead, some key⟩ :: ⟨.randomRead, some sid⟩ :: ⟨.now, now⟩ :: past)
      (encodeToString sid) :=
    (told_cons ⟨.randomRead, some sid⟩ rfl).cons _
  refine obeys_act ⟨?_, now, by simp, rfl, rfl⟩ fun put _ => ?_
  · rintro id ⟨⟩
    exact .inr told
  cases put with
  | error e => trivial
  | ok done =>
      refine obeys_act ⟨?_, trivial⟩ fun keyed _ => ?_
      · rintro id ⟨⟩
        exact .inr (told.cons _)
      cases keyed <;> trivial

theorem resolve_lawful (keyID : GoString) :
    Obeys (Lawful ⟨m, none, owner⟩) (fun _ _ => True) (m.resolve keyID) past := by
  refine obeys_act ⟨by simp [StoreCall.session], trivial⟩ fun key _ => ?_
  cases key with
  | error e => cases e <;> trivial
  | ok sid =>
      have told : Told (⟨.store (.getKey keyID), .ok sid⟩ :: past) sid := told_cons _ rfl
      refine obeys_act ⟨?_, trivial⟩ fun row _ => ?_
      · rintro id ⟨⟩
        exact .inr told
      cases row with
      | error e => cases e <;> trivial
      | ok row =>
          refine obeys_act trivial fun now _ => ?_
          have told' := (told.cons ⟨.store (.getSession sid), .ok row⟩).cons ⟨.now, now⟩
          dsimp only
          split_ifs with expired
          · refine obeys_act ⟨?_, trivial⟩ fun _ _ => trivial
            rintro id ⟨⟩
            exact .inr told'
          · refine obeys_act ⟨?_, row, ⟨?_, ?_⟩, ?_, rfl⟩ fun touched _ => ?_
            · rintro id ⟨⟩
              exact .inr told'
            · simp
            · simp [Manager.slide]
            · simp only [Manager.slide]
              split_ifs
              · exact .inl rfl
              · exact .inr rfl
            cases touched with
            | error e => trivial
            | ok done =>
                refine obeys_act ⟨?_, trivial⟩ fun cookies _ => ?_
                · rintro id ⟨⟩
                  exact .inr (told'.cons _)
                cases cookies with
                | error e => trivial
                | ok cookies =>
                    refine obeys_act ⟨?_, trivial⟩ fun shas _ => ?_
                    · rintro id ⟨⟩
                      exact .inr ((told'.cons _).cons _)
                    cases shas <;> trivial

theorem revokeEach_lawful (ownerID : Int) (sids : List GoString) (told : ∀ sid ∈ sids, Told past sid)
    (firstErr : Option Err) :
    Obeys (Lawful ⟨m, none, some ownerID⟩) (fun _ _ => True) (Manager.revokeEach ownerID sids firstErr)
      past := by
  induction sids generalizing firstErr past with
  | nil => trivial
  | cons sid sids ih =>
      refine obeys_act ⟨?_, rfl⟩ fun deleted _ => ?_
      · rintro id ⟨⟩
        exact .inr (told sid List.mem_cons_self)
      have rest : ∀ d, ∀ sid ∈ sids, Told (d :: past) sid :=
        fun d sid member => (told sid (List.mem_cons_of_mem _ member)).cons d
      cases deleted with
      | error e => exact ih (rest _) _
      | ok gone => exact ih (rest _) _

theorem revokeOwner_lawful (ownerID : Int) :
    Obeys (Lawful ⟨m, none, some ownerID⟩) (fun _ _ => True) (Manager.revokeOwner ownerID) past := by
  refine obeys_act ⟨by simp [StoreCall.session], trivial⟩ fun sids _ => ?_
  cases sids with
  | error e => trivial
  | ok sids => exact revokeEach_lawful ownerID sids (fun sid member =>
      told_cons ⟨.store (.ownerSessions ownerID), .ok sids⟩ member) none

section Handle

variable {l l' : Live} (same : l'.sessionID = l.sessionID)

include same

theorem lawful_own {c : StoreCall} (names : c.session = some l'.sessionID)
    (lifetime : Lifetime ⟨m, some l, owner⟩ past c) :
    Lawful ⟨m, some l, owner⟩ past (.store c) := by
  refine ⟨fun id named => .inl ⟨l, rfl, ?_⟩, lifetime⟩
  rw [names] at named
  exact (Option.some.inj named).symm.trans same

theorem commitControls_lawful {row : Session} {now : Int} (knows : Knows past l'.sessionID row now)
    (c : SessionControls) (accessed : c.lastAccess = now ∨ c.lastAccess = 0)
    (rotated : c.lastRotation = now ∨ c.lastRotation = 0)
    (asked : c.setOwner = true → owner = some c.ownerID) (ownerID : Option Int)
    (labels : Option (List GoString)) :
    Obeys (Lawful ⟨m, some l, owner⟩) (fun _ _ => True) (l'.commitControls row now c ownerID labels) past := by
  refine obeys_act (lawful_own same rfl ⟨row, now, knows, accessed, rotated, asked, rfl, rfl⟩) fun done _ => ?_
  cases done <;> trivial

omit same in
theorem controls_times (l : Live) (sess : Session) (now : Int) (ownerID : Option Int)
    (labels : Option (List GoString)) (force periodic : Bool) (cookies : List CookieMutation) :
    ((l.controls m sess now ownerID labels force periodic cookies).lastAccess = now ∨
      (l.controls m sess now ownerID labels force periodic cookies).lastAccess = 0) ∧
    ((l.controls m sess now ownerID labels force periodic cookies).lastRotation = now ∨
      (l.controls m sess now ownerID labels force periodic cookies).lastRotation = 0) := by
  simp only [Live.controls]
  constructor
  · split_ifs
    · exact .inl rfl
    · exact .inr rfl
  · split_ifs
    · exact .inl rfl
    · exact .inr rfl

omit same in
theorem controls_owner {ownerID : Option Int} (given : ∀ o, ownerID = some o → owner = some o) (l : Live)
    (sess : Session) (now : Int) (labels : Option (List GoString)) (force periodic : Bool)
    (cookies : List CookieMutation) :
    let c := l.controls m sess now ownerID labels force periodic cookies
    c.setOwner = true → owner = some c.ownerID := by
  intro c changed
  obtain ⟨o, asked, -⟩ := (Option.any_eq_true _ _).mp changed
  exact (given o asked).trans (congrArg some (by simp [c, Live.controls, asked]))

theorem applyControls_lawful {ownerID : Option Int} (given : ∀ o, ownerID = some o → owner = some o)
    (labels : Option (List GoString)) (force periodic : Bool) (cookies : List CookieMutation) :
    Obeys (Lawful ⟨m, some l, owner⟩) (fun _ _ => True)
      (l'.applyControls m ownerID labels force periodic cookies) past := by
  refine obeys_act trivial fun now _ => ?_
  refine obeys_act (lawful_own same rfl trivial) fun row _ => ?_
  cases row with
  | error e => trivial
  | ok row =>
      obtain ⟨accessed, rotated⟩ := controls_times (m := m) l' row now ownerID labels force periodic
        cookies
      have asked := controls_owner (m := m) given l' row now labels force periodic cookies
      have knows : Knows (⟨.store (.getSession l'.sessionID), .ok row⟩ :: ⟨.now, now⟩ :: past)
          l'.sessionID row now := ⟨by simp, by simp⟩
      dsimp only
      unfold Live.carryOut
      split_ifs with idle rotate
      · trivial
      · refine lawful_newID trivial fun key => ?_
        apply commitControls_lawful same (knows.cons _)
        · exact accessed
        · exact rotated
        · exact asked
      · exact commitControls_lawful same knows _ accessed rotated asked ownerID labels

theorem setLabels_lawful (labels : List GoString) :
    Obeys (Lawful ⟨m, some l, owner⟩) (fun _ _ => True) (l'.setLabels m labels) past := by
  refine obeys_act (lawful_own same rfl trivial) fun row _ => ?_
  cases row with
  | error e => trivial
  | ok row =>
      refine Prog.Wp.bind ((applyControls_lawful same ?_ _ false false []).weaken fun _ _ _ => trivial)
      exact fun o none => by cases none

theorem bindOwner_lawful (ownerID : Int) :
    Obeys (Lawful ⟨m, some l, some ownerID⟩) (fun _ _ => True) (l'.bindOwner m ownerID) past := by
  unfold Live.bindOwner
  split_ifs with anonymous
  · trivial
  · refine obeys_act (lawful_own same rfl trivial) fun row _ => ?_
    cases row with
    | error e => trivial
    | ok row =>
        refine Prog.Wp.bind ((applyControls_lawful ?_ (fun _ same => same) none false false []).weaken ?_)
        · split_ifs <;> exact same
        · rintro ⟨result, after⟩ past' -
          cases result <;> trivial

theorem rotateKey_lawful {row : Session} {now : Int} (knows : Knows past l'.sessionID row now) :
    Obeys (Lawful ⟨m, some l, owner⟩) (fun _ _ => True) (l'.rotateKey (Manager.ttl row now) now) past := by
  refine lawful_newID trivial fun key => ?_
  refine obeys_act (lawful_own same rfl ⟨row, knows.cons _, rfl⟩) fun done _ => ?_
  cases done <;> trivial

theorem maybeRotate_lawful : Obeys (Lawful ⟨m, some l, owner⟩) (fun _ _ => True) (l'.maybeRotate m) past := by
  unfold Live.maybeRotate
  split_ifs with skip
  · trivial
  · refine obeys_act trivial fun now _ => ?_
    refine obeys_act (lawful_own same rfl trivial) fun row _ => ?_
    cases row with
    | error e => trivial
    | ok row =>
        dsimp only
        split_ifs with meanwhile
        · trivial
        · exact rotateKey_lawful same ⟨by simp, by simp⟩

theorem forceRotate_lawful : Obeys (Lawful ⟨m, some l, owner⟩) (fun _ _ => True) l'.forceRotate past := by
  unfold Live.forceRotate
  split_ifs with pending
  · trivial
  · refine obeys_act trivial fun now _ => ?_
    refine obeys_act (lawful_own same rfl trivial) fun row _ => ?_
    cases row with
    | error e => trivial
    | ok row => exact rotateKey_lawful same ⟨by simp, by simp⟩

theorem revoke_lawful : Obeys (Lawful ⟨m, some l, owner⟩) (fun _ _ => True) l'.revoke past := by
  refine obeys_act (lawful_own same rfl trivial) fun done _ => ?_
  cases done <;> trivial

end Handle

theorem withLock_lawful {handle : Option Live} {α : Type} (sessionID : GoString) (fail : Err → α)
    {fn : Act α} (body : ∀ {past}, Obeys (Lawful ⟨m, handle, owner⟩) (fun _ _ => True) fn past) :
    Obeys (Lawful ⟨m, handle, owner⟩) (fun _ _ => True) (m.withLock sessionID fail fn) past := by
  unfold Manager.withLock
  split_ifs with off
  · exact body
  · have on : m.cfg.synchronize = true := by simpa using off
    refine obeys_act ⟨by simp [StoreCall.session], on⟩ fun locked _ => ?_
    cases locked with
    | error e => trivial
    | ok got =>
        cases got with
        | false => trivial
        | true =>
            refine Prog.Wp.bind (body.weaken fun result past _ => ?_)
            exact obeys_act ⟨by simp [StoreCall.session], on⟩ fun _ _ => trivial

/-- Every operation names sessions and asks for lifetimes that it has from its handle, its clock and
the store. -/
theorem op_lawful (m : Manager) (op : Op) :
    Obeys (Lawful (Job.errand ⟨m, op⟩)) (fun _ _ => True) (op.prog m) past := by
  have done : ∀ {past : History} {α : Type} {e : Errand} {p : Act α} {f : α → Outcome},
      Obeys (Lawful e) (fun _ _ => True) p past →
      Obeys (Lawful e) (fun _ _ => True) (p >>= fun a => pure (f a)) past :=
    fun obeys => Prog.Wp.bind (obeys.weaken fun _ _ _ => trivial)
  have noOwner : ∀ {owner : Option Int}, ∀ o, (none : Option Int) = some o → owner = some o :=
    fun o none => by cases none
  induction op generalizing past with
  | begin => exact done begin_lawful
  | resolve keyID => exact done (resolve_lawful keyID)
  | applyResponse l ownerID labels force cookies =>
      exact done (applyControls_lawful rfl (fun _ same => same) labels force true cookies)
  | applyResponseControls l ownerID labels force =>
      exact done (applyControls_lawful rfl (fun _ same => same) labels force true [])
  | setLabels l labels => exact done (setLabels_lawful rfl labels)
  | storeCookie l name value => exact done (applyControls_lawful rfl noOwner none false false _)
  | deleteCookie l name => exact done (applyControls_lawful rfl noOwner none false false _)
  | bindOwner l ownerID => exact done (bindOwner_lawful rfl ownerID)
  | forceRotate l => exact done (forceRotate_lawful rfl)
  | maybeRotate l => exact done (maybeRotate_lawful rfl)
  | revoke l => exact done (revoke_lawful rfl)
  | revokeOwner ownerID => exact done (revokeOwner_lawful ownerID)
  | withLock sessionID fn ih => exact withLock_lawful sessionID Outcome.unlocked ih

end Operations

end Session

end Gosestor
