import Gosestor.Proof.Session.Effects
import Gosestor.Proof.Session.ResolveWindow
import Gosestor.Proof.Session.Serial

/-!
# Operations that run alone

A program that runs on the store while nothing else does. What it leaves in the store is said in
terms of the store that it started from.
-/

namespace Gosestor

open Gosestor.Go Gosestor.Lib Gosestor.Store

def Deed.wall : Deed → Option Int
  | ⟨.wallClock, now⟩ => some now
  | _ => none

def walls (t : Nat) (w : World) : List Int := (own t w).filterMap Deed.wall

section Steps

variable {faults : Fault → Bool} {t : Nat} {w w' : World} {c : Call} {r : c.Answer}

theorem exec_walls (step : exec faults t w c r w') :
    walls t w' = (Deed.wall ⟨c, r⟩).toList ++ walls t w := by
  unfold walls
  rw [exec_own step, List.filterMap_cons]
  cases Deed.wall ⟨c, r⟩ <;> rfl

theorem exec_minted (step : exec faults t w c r w') :
    w'.minted = (Deed.minted ⟨c, r⟩).toList ++ w.minted := by
  unfold World.minted
  rw [exec_log step, List.filterMap_cons]
  cases Deed.minted ⟨c, r⟩ <;> rfl

theorem exec_mem (step : exec faults t w c r w') (aside : ∀ sc, c ≠ .store sc) : w'.mem = w.mem := by
  obtain same | ⟨sc, rfl, -⟩ := served_mem (exec_served step)
  · exact same
  · exact absurd rfl (aside sc)

theorem served_ok {m m' : Memory} {sc : StoreCall} {value : sc.Value}
    (served : Served faults m m' ⟨.store sc, .ok value⟩) :
    m' = (m.perform sc).2 ∧ ∃ order, reorder order sc (m.perform sc).1 = some (.ok value) := by
  obtain ⟨order, answered, done⟩ | ⟨failed, -⟩ := served
  · exact ⟨done, order, answered⟩
  · cases failed

end Steps

section Rules

variable {α : Type} {faults : Fault → Bool} {t : Nat} {w : World} {post : α → World → Prop}

abbrev Alone (faults : Fault → Bool) (t : Nat) (post : α → World → Prop) (p : Act α) (w : World) :
    Prop :=
  p.Wp (exec faults t) (fun _ _ => True) post w

theorem alone_act {c : Call} {f : c.Answer → Act α}
    (rest : ∀ r w', exec faults t w c r w' → Alone faults t post (f r) w') :
    Alone faults t post (act c >>= f) w := ⟨trivial, rest⟩

theorem alone_bind {β : Type} {p : Act β} {f : β → Act α} {mid : β → World → Prop}
    (first : Alone faults t mid p w)
    (rest : ∀ b w', mid b w' → Alone faults t post (f b) w') : Alone faults t post (p >>= f) w :=
  Prog.Wp.bind (first.weaken rest)

theorem alone_noted {p : Act α} {d : Deed} (alone : Alone faults t post p w) (noted : d ∈ own t w) :
    Alone faults t (fun a w' => post a w' ∧ d ∈ own t w') p w :=
  (alone.frame (d ∈ own t ·) (fun _ step => own_mono step) noted).mono
    (fun _ _ _ => trivial) fun _ _ done => done

end Rules

namespace Session

variable {faults : Fault → Bool} {t : Nat} {w : World}

theorem newID_alone {w : World} : Alone faults t
    (fun result w' => ∀ id, result = .ok id →
      id ∉ w.minted ∧ w'.mem = w.mem ∧ w'.minted = id :: w.minted ∧ walls t w' = walls t w)
    newID w := by
  refine alone_act fun buf w' step => ?_
  cases buf with
  | none =>
      intro id same
      cases same
  | some buf =>
      intro id same
      cases same
      exact ⟨minted_fresh step, exec_mem step (by simp), exec_minted step, exec_walls step⟩

/-- What `Begin` does to the store `mem`: a row and a key under ids that are not among those
handed out before. -/
structure Begins (m : Manager) (minted : List GoString) (mem : Memory) (l : Live) (mem' : Memory) :
    Prop where
  handle : l = { keyID := l.keyID, sessionID := l.sessionID, newKey := l.keyID, rewrite := true }
  session : l.sessionID ∉ minted
  key : l.keyID ∉ minted
  stored : ∃ now, mem' = { mem with
    sessions := mem.sessions.set l.sessionID (m.newSession l.sessionID now)
    keys := mem.keys.set l.keyID l.sessionID }

theorem begin_alone (m : Manager) :
    Alone faults t
      (fun result w' => ∀ l, result = .ok l →
        Begins m w.minted w.mem l w'.mem ∧ walls t w' = walls t w)
      m.begin w := by
  have failed : ∀ {e : Err} {w' : World} (l : Live), Except.error e = .ok l →
      Begins m w.minted w.mem l w'.mem ∧ walls t w' = walls t w := fun _ same => by cases same
  refine alone_act fun now w₁ clock => ?_
  refine alone_bind newID_alone fun sid w₂ minted => ?_
  cases sid with
  | error e => exact failed
  | ok sid =>
      refine alone_bind newID_alone fun key w₃ drawn => ?_
      cases key with
      | error e => exact failed
      | ok key =>
          obtain ⟨fresh, mem₂, log₂, walls₂⟩ := minted sid rfl
          obtain ⟨fresh', mem₃, -, walls₃⟩ := drawn key rfl
          refine alone_act fun put w₄ step₄ => ?_
          cases put with
          | error e => exact failed
          | ok put =>
              refine alone_act fun put w₅ step₅ => ?_
              cases put with
              | error e => exact failed
              | ok put =>
                  rintro l ⟨⟩
                  have mem₁ := exec_mem clock (by simp)
                  have log₁ : w₁.minted = w.minted := exec_minted clock
                  rw [log₁] at fresh log₂
                  rw [log₂, List.mem_cons, not_or] at fresh'
                  refine ⟨⟨rfl, fresh, fresh'.2, now, ?_⟩, ?_⟩
                  · rw [(served_ok (exec_served step₅)).1, (served_ok (exec_served step₄)).1, mem₃,
                      mem₂, mem₁]
                    simp [Memory.perform, Memory.putSession, Memory.putKey, Manager.newSession]
                  · rw [exec_walls step₅, exec_walls step₄, walls₃, walls₂, exec_walls clock]
                    rfl

/-- `Resolve` alone, when it returns a handle: what the handle holds is what the store held. -/
structure Finds (keyID : GoString) (mem : Memory) (l : Live) (mem' : Memory) : Prop where
  key : l.keyID = keyID
  unpending : l.rewrite = false
  held : mem.keys.get keyID = some l.sessionID
  row : ∃ row row', mem.sessions.get l.sessionID = some row ∧ l.labels = fields row.labels ∧
    row'.labels = row.labels ∧ mem' = { mem with sessions := mem.sessions.set l.sessionID row' }
  cookies : l.cookies = mem.getCookies l.sessionID

theorem resolve_alone (m : Manager) (keyID : GoString) :
    Alone faults t (fun result w' => ∀ l, result = .ok (some l) → Finds keyID w.mem l w'.mem)
      (m.resolve keyID) w := by
  have failed : ∀ {e : Err} {w' : World} (l : Live),
      (.error e : Except Err (Option Live)) = .ok (some l) → Finds keyID w.mem l w'.mem :=
    fun _ same => by cases same
  refine alone_act fun sid w₁ step₁ => ?_
  cases sid with
  | error e => cases e <;> exact fun l same => by cases same
  | ok sid =>
      refine alone_act fun row w₂ step₂ => ?_
      cases row with
      | error e => cases e <;> exact fun l same => by cases same
      | ok row =>
          refine alone_act fun now w₃ step₃ => ?_
          split_ifs with gone
          · exact alone_act fun _ _ _ l same => by cases same
          · refine alone_act fun touched w₄ step₄ => ?_
            cases touched with
            | error e => exact failed
            | ok touched =>
                refine alone_act fun cookies w₅ step₅ => ?_
                cases cookies with
                | error e => exact failed
                | ok cookies =>
                    refine alone_act fun shas w₆ step₆ => ?_
                    cases shas with
                    | error e => exact failed
                    | ok shas =>
                        rintro l ⟨⟩
                        have mem₃ : w₃.mem = w.mem := by
                          rw [exec_mem step₃ (by simp), (served_ok (exec_served step₂)).1,
                            (served_ok (exec_served step₁)).1]
                          rfl
                        have found := served_getSession (exec_served step₂)
                        rw [(served_ok (exec_served step₁)).1] at found
                        obtain ⟨held, row', found', mem₄⟩ := served_touchSession (exec_served step₄)
                        rw [mem₃] at held found' mem₄
                        obtain rfl := Option.some.inj (found.symm.trans found')
                        have mem₆ : w₆.mem = w₄.mem := by
                          rw [(served_ok (exec_served step₆)).1, (served_ok (exec_served step₅)).1]
                          rfl
                        refine ⟨rfl, rfl, held, ⟨row, _, found, rfl, ?_, mem₆.trans mem₄⟩, ?_⟩
                        · rfl
                        · rw [← served_getCookies (exec_served step₅), mem₄]
                          rfl

section Controls

variable (m : Manager) (l : Live) (ownerID : Option Int) (labels : Option (List GoString))
  (force periodic : Bool) (cookies : List CookieMutation)

/-- `applyControls` alone, at the reading `now` of the clock: there is nothing to do, or the commit
takes effect on the row that was read. -/
inductive Applies (now : Int) (mem : Memory) : Live → Memory → Prop
  | idle {row : Session} (found : mem.sessions.get l.sessionID = some row)
      (nothing : Live.nothingToDo
        (Live.controls m l row now ownerID labels force periodic cookies) = true) :
      Applies now mem (l.applied ownerID labels) mem
  | commit {row : Session} {c : SessionControls} {key : GoString}
      (found : mem.sessions.get l.sessionID = some row)
      (controls : c = { Live.controls m l row now ownerID labels force periodic cookies with
        newKeyID := key })
      (held : mem.keys.get l.keyID = some l.sessionID) :
      Applies now mem (l.committed c ownerID labels) (mem.commit l.sessionID row c)

theorem applyControls_alone :
    Alone faults t
      (fun result w' => result.1 = .ok () → ∃ now,
        Applies m l ownerID labels force periodic cookies now w.mem result.2 w'.mem ∧
          walls t w' = walls t w ∧ ⟨.now, now⟩ ∈ own t w')
      (l.applyControls m ownerID labels force periodic cookies) w := by
  refine alone_act fun now w₁ clock => ?_
  have failed : ∀ {e : Err} {l' : Live} {w' : World},
      (((.error e, l') : Except Err Unit × Live).1 = .ok ()) →
        Applies m l ownerID labels force periodic cookies now w.mem l' w'.mem ∧
          walls t w' = walls t w := fun same => by cases same
  have noted : ⟨.now, now⟩ ∈ own t w₁ := by
    rw [exec_own clock]
    exact List.mem_cons_self
  suffices applying : Alone faults t
      (fun (result : Except Err Unit × Live) w' => result.1 = .ok () →
        Applies m l ownerID labels force periodic cookies now w.mem result.2 w'.mem ∧
          walls t w' = walls t w) _ w₁ from
    (alone_noted applying noted).weaken fun result w' done same =>
      ⟨now, (done.1 same).1, (done.1 same).2, done.2⟩
  refine alone_act fun row w₂ read => ?_
  cases row with
  | error e => exact failed
  | ok row =>
      have mem₁ := exec_mem clock (by simp)
      have mem₂ := served_getSession_mem (exec_served read)
      have found : w.mem.sessions.get l.sessionID = some row := by
        rw [← mem₁]
        exact served_getSession (exec_served read)
      have walls₂ : walls t w₂ = walls t w := by
        rw [exec_walls read, exec_walls clock]
        rfl
      -- The commit, from a world that differs from the first only in its log.
      have committing : ∀ (w₃ : World) (key : GoString), w₃.mem = w.mem → walls t w₃ = walls t w →
          Alone faults t (fun result w' => result.1 = .ok () →
            Applies m l ownerID labels force periodic cookies now w.mem result.2 w'.mem ∧
              walls t w' = walls t w)
          (l.commitControls row now
            { Live.controls m l row now ownerID labels force periodic cookies with newKeyID := key }
            ownerID labels) w₃ := by
        intro w₃ key mem₃ walls₃
        refine alone_act fun done w₄ step => ?_
        cases done with
        | error e => exact failed
        | ok done =>
            intro _
            obtain ⟨row', found', held, committed, -⟩ := served_applyControls (exec_served step)
            rw [mem₃] at found' held committed
            obtain rfl := Option.some.inj (found.symm.trans found')
            rw [committed, exec_walls step, walls₃]
            exact ⟨.commit found rfl held, rfl⟩
      show Alone _ _ _ (l.carryOut row now _ ownerID labels) _
      unfold Live.carryOut
      split_ifs with nothing rotate
      · intro _
        rw [mem₂, mem₁]
        exact ⟨.idle found nothing, walls₂⟩
      · refine alone_bind newID_alone fun key w₃ drawn => ?_
        cases key with
        | error e => exact failed
        | ok key =>
            obtain ⟨-, mem₃, -, walls₃⟩ := drawn key rfl
            exact committing w₃ key (by rw [mem₃, mem₂, mem₁]) (by rw [walls₃, walls₂])
      · exact committing w₂ l.keyID (mem₂.trans mem₁) walls₂

end Controls

/-- `w'` differs from `w` in nothing but the locks and in what the log says of them. -/
structure Aside (t : Nat) (w w' : World) : Prop where
  mem : ∃ locks, w'.mem = { w.mem with locks }
  minted : w'.minted = w.minted
  walls : walls t w' = walls t w
  own : own t w ⊆ own t w'

theorem Aside.refl (t : Nat) (w : World) : Aside t w w :=
  ⟨⟨_, rfl⟩, rfl, rfl, List.Subset.refl _⟩

theorem exec_aside {w' : World} {c : StoreCall} {r : c.Answer}
    (step : exec faults t w (.store c) r w')
    (locking : ∀ m : Memory, ∃ locks, (m.perform c).2 = { m with locks }) : Aside t w w' where
  mem := by
    obtain same | ⟨sc, called, done⟩ := served_mem (exec_served step)
    · exact ⟨_, same⟩
    · cases called
      exact done ▸ locking w.mem
  minted := exec_minted step
  walls := exec_walls step
  own := fun _ => own_mono step

theorem withLock_alone {α : Type} {post : α → World → Prop} {fail : Err → α} {fn : Act α}
    {sessionID : GoString} (m : Manager) (failed : ∀ e w', post (fail e) w')
    (rest : ∀ w₁, Aside t w w₁ →
      Alone faults t (fun a w₂ => ∀ w', Aside t w₂ w' → post a w') fn w₁) :
    Alone faults t post (m.withLock sessionID fail fn) w := by
  unfold Manager.withLock
  split_ifs with off
  · exact (rest w (.refl t w)).weaken fun a w' done => done w' (.refl t w')
  · refine alone_act fun locked w₁ step => ?_
    cases locked with
    | error e => exact failed _ _
    | ok got =>
        cases got with
        | false => exact failed _ _
        | true =>
            have aside : Aside t w w₁ := by
              refine exec_aside step fun m => ?_
              simp only [Memory.perform, Memory.lock]
              split_ifs
              · exact ⟨_, rfl⟩
              · exact ⟨_, rfl⟩
            refine alone_bind (rest w₁ aside) fun a w₂ done => ?_
            exact alone_act fun r w' step => done w' (exec_aside step fun m => ⟨_, rfl⟩)

end Session

end Gosestor
