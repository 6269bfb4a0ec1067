import Gosestor.Proof.Session.Runs

/-!
# Competing responses are serializable

`ApplyResponse` decides from an earlier read of the session and validates only its key at the
commit. With rotation on login the key stands for everything the decision rests on: as long as a
handle's key is mapped, the owner, labels and last rotation that it read are still those of the
row. So every response that succeeds takes effect as if it ran alone at its commit, or at its read
when there is nothing to commit.
-/

namespace Gosestor.Session

open Gosestor.Go Gosestor.Lib Gosestor.Store

def Response.controls (r : Response) (sess : Session) (now : Int) : SessionControls :=
  Live.controls r.manager r.live sess now (r.ownerID.map (·.val)) r.labels r.forceRotate true
    r.cookies

inductive Asks (r : Response) : History → Call → Prop
  | now : Asks r [] .now
  | read (now : Int) : Asks r [⟨.now, now⟩] (.store (.getSession r.live.sessionID))
  | mint (now : Int) (sess : Session) (busy : Live.nothingToDo (r.controls sess now) = false)
      (rotate : (r.controls sess now).rotate = true) :
      Asks r [⟨.store (.getSession r.live.sessionID), .ok sess⟩, ⟨.now, now⟩] .randomRead
  | commit (now : Int) (sess : Session) (busy : Live.nothingToDo (r.controls sess now) = false)
      (rotate : (r.controls sess now).rotate = false) (ttl ownerTTL : Duration) :
      Asks r [⟨.store (.getSession r.live.sessionID), .ok sess⟩, ⟨.now, now⟩]
        (.store (.applySessionControls r.live.sessionID (r.controls sess now) ttl ownerTTL))
  | rotate (now : Int) (sess : Session) (busy : Live.nothingToDo (r.controls sess now) = false)
      (rotate : (r.controls sess now).rotate = true) (buf : List UInt8)
      (ttl ownerTTL : Duration) :
      Asks r [⟨.randomRead, some buf⟩, ⟨.store (.getSession r.live.sessionID), .ok sess⟩,
          ⟨.now, now⟩]
        (.store (.applySessionControls r.live.sessionID
          { r.controls sess now with newKeyID := encodeToString buf } ttl ownerTTL))

def Done (r : Response) : History → Prop
  | ⟨.store (.applySessionControls _ _ _ _), .ok _⟩ :: _ => True
  | [⟨.store (.getSession _), .ok sess⟩, ⟨.now, now⟩] =>
      Live.nothingToDo (r.controls sess now) = true
  | _ => False

def Committed (past : History) : Prop :=
  ∃ id c ttl ownerTTL, (⟨.store (.applySessionControls id c ttl ownerTTL), .ok ()⟩ : Deed) ∈ past

def Concluded (r : Response) (result : Except Err Unit × Live) (past : History) : Prop :=
  (result.1 = .ok () ↔ Done r past) ∧ (Committed past → Done r past)

theorem response_asks (r : Response) : Obeys (Asks r) (Concluded r) r.prog [] := by
  have failed : ∀ {e : Err} {l : Live} {past : History}, ¬ Done r past → ¬ Committed past →
      Concluded r (.error e, l) past :=
    fun unfinished clean => ⟨⟨fun h => (by cases h), fun h => absurd h unfinished⟩,
      fun h => absurd h clean⟩
  refine obeys_act .now fun now _ => ?_
  refine obeys_act (.read now) fun row _ => ?_
  cases row with
  | error e => exact failed (fun h => h) (by simp [Committed])
  | ok sess =>
      have final : ∀ {past : History} {c : SessionControls},
          (∀ ttl ownerTTL, Asks r past
            (.store (.applySessionControls r.live.sessionID c ttl ownerTTL))) →
          ¬ Committed past → Obeys (Asks r) (Concluded r)
            (r.live.commitControls sess now c (r.ownerID.map (·.val)) r.labels) past := by
        intro past c asks clean
        refine obeys_act (asks _ _) fun done _ => ?_
        cases done with
        | error e =>
            refine failed (fun h => h) ?_
            rintro ⟨id, c', ttl, ownerTTL, member⟩
            obtain same | earlier := List.mem_cons.mp member
            · cases same
            · exact clean ⟨id, c', ttl, ownerTTL, earlier⟩
        | ok done => exact ⟨⟨fun _ => trivial, fun _ => rfl⟩, fun _ => trivial⟩
      show Obeys _ _ (r.live.carryOut sess now (r.controls sess now) _ r.labels) _
      unfold Live.carryOut
      split_ifs with idle rotate
      · exact ⟨⟨fun _ => idle, fun _ => rfl⟩, fun _ => idle⟩
      · refine Prog.Wp.bind (Prog.Wp.bind ?_)
        refine obeys_act (.mint now sess (eq_false_of_ne_true idle) rotate) fun buf _ => ?_
        cases buf with
        | none => exact failed (fun h => h) (by simp [Committed])
        | some buf =>
            exact final (.rotate now sess (eq_false_of_ne_true idle) rotate buf)
              (by simp [Committed])
      · exact final (.commit now sess (eq_false_of_ne_true idle) (eq_false_of_ne_true rotate))
          (by simp [Committed])

theorem response_proper (r : Response) : Obeys Proper (fun _ => Settled) r.prog [] := by
  refine Prog.Wp.mono (applyControls_proper r.manager r.live _ r.labels r.forceRotate true
    r.cookies settled_nil ?_) (fun _ _ h => h.2) fun _ _ h => h
  intro o found
  obtain ⟨owner, -, rfl⟩ := Option.map_eq_some_iff.mp found
  exact owner.property

/-! ## A response alone -/

def Agree (sess row : Session) : Prop :=
  row.ownerID = sess.ownerID ∧ row.labels = sess.labels ∧ row.lastRotation = sess.lastRotation

theorem Agree.trans {a b c : Session} (first : Agree a b) (second : Agree b c) : Agree a c :=
  ⟨second.1.trans first.1, second.2.1.trans first.2.1, second.2.2.trans first.2.2⟩

theorem controls_agree (r : Response) {sess row : Session} (agree : Agree sess row) (now : Int) :
    r.controls row now = r.controls sess now := by
  obtain ⟨owner, labels, rotation⟩ := agree
  unfold Response.controls Live.controls Manager.rotationDue
  rw [owner, labels, rotation]

section Alone

variable {r : Response} {past : History} {m m' : Memory} {row : Session} {now : Int}
  (clock : past.findSome? Deed.clock = some now)
  (found : m.sessions.get r.live.sessionID = some row)

include clock found

theorem eval_read : r.prog.eval (alone past) m =
    (r.live.carryOut row now (r.controls row now) (r.ownerID.map (·.val)) r.labels).eval
      (alone past) m := by
  unfold Response.prog Live.applyResponse Live.applyControls
  simp only [act, callStore, Prog.perform_bind, Prog.eval, alone, clock, Option.getD_some,
    Memory.perform, Memory.getSession, found]
  rfl

theorem eval_idle (idle : Live.nothingToDo (r.controls row now) = true) :
    r.prog.eval (alone past) m =
      ((.ok (), r.live.applied (r.ownerID.map (·.val)) r.labels), m) := by
  rw [eval_read clock found]
  unfold Live.carryOut
  rw [if_pos idle]
  rfl

theorem eval_commit (busy : Live.nothingToDo (r.controls row now) = false)
    (rotate : (r.controls row now).rotate = false)
    (done : m.applySessionControls r.live.sessionID (r.controls row now) = (.ok (), m')) :
    r.prog.eval (alone past) m =
      ((.ok (), r.live.committed (r.controls row now) (r.ownerID.map (·.val)) r.labels), m') := by
  rw [eval_read clock found]
  unfold Live.carryOut
  rw [if_neg (ne_true_of_eq_false busy), if_neg (ne_true_of_eq_false rotate)]
  unfold Live.commitControls
  simp only [callStore, act, Prog.perform_bind, Prog.eval, alone, Memory.perform, done]
  rfl

theorem eval_rotate {buf : List UInt8} (random : past.findSome? Deed.random = some buf)
    (busy : Live.nothingToDo (r.controls row now) = false)
    (rotate : (r.controls row now).rotate = true)
    (done : m.applySessionControls r.live.sessionID
      { r.controls row now with newKeyID := encodeToString buf } = (.ok (), m')) :
    r.prog.eval (alone past) m =
      ((.ok (), r.live.committed { r.controls row now with newKeyID := encodeToString buf }
        (r.ownerID.map (·.val)) r.labels), m') := by
  have minted : newID.eval (alone past) m = (.ok (encodeToString buf), m) := by
    unfold newID
    simp only [act, Prog.perform_bind, Prog.eval, alone, random]
    rfl
  rw [eval_read clock found]
  unfold Live.carryOut
  rw [if_neg (ne_true_of_eq_false busy), if_pos rotate, Prog.eval_bind, minted]
  unfold Live.commitControls
  simp only [callStore, act, Prog.perform_bind, Prog.eval, alone, Memory.perform, done]
  rfl

end Alone

theorem serial_append (response : Nat → Response) (past : Nat → History) (order : List Nat)
    (t : Nat) {m₀ m m' : Memory} {l : Live} (before : serial response past order m₀ = some m)
    (last : (response t).prog.eval (alone (past t)) m = ((.ok (), l), m')) :
    serial response past (order ++ [t]) m₀ = some m' := by
  induction order generalizing m₀ with
  | nil =>
      cases before
      simp only [List.nil_append, serial, last]
  | cons u order ih =>
      simp only [List.cons_append, serial] at before ⊢
      split at before
      · exact ih before
      · cases before

theorem serial_congr (response : Nat → Response) {past past' : Nat → History} {order : List Nat}
    (same : ∀ t ∈ order, past t = past' t) (m : Memory) :
    serial response past order m = serial response past' order m := by
  induction order generalizing m with
  | nil => rfl
  | cons t order ih =>
      simp only [serial, same t List.mem_cons_self]
      split
      · exact ih (fun u member => same u (List.mem_cons_of_mem t member)) _
      · rfl

/-! ## Commits and the decisions of others -/

theorem controls_still {r : Response} {sess : Session} {now : Int}
    (login : r.manager.cfg.rotateOnLogin = true) (resolved : r.live.rewrite = false)
    (still : (r.controls sess now).rotate = false) :
    (r.controls sess now).setOwner = false ∧ (r.controls sess now).setLabels = false ∧
      (r.controls sess now).lastRotation = 0 := by
  have unrotated : (r.controls sess now).lastRotation =
      if (r.controls sess now).rotate then now else 0 := rfl
  rw [unrotated, still]
  simp only [Response.controls, Live.controls, login, resolved, Bool.not_false, Bool.true_and,
    Bool.and_true, Bool.or_eq_false_iff] at still ⊢
  exact ⟨still.2, still.1.2, rfl⟩

theorem controlled_agree {row : Session} {c : SessionControls} (epoch : 0 ≤ row.lastRotation)
    (still : c.setOwner = false ∧ c.setLabels = false ∧ c.lastRotation = 0) :
    Agree row (Memory.controlled row c) := by
  obtain ⟨owner, labels, rotation⟩ := still
  refine ⟨?_, ?_, ?_⟩
  · simp [Memory.controlled, owner]
  · simp [Memory.controlled, labels]
  · simp only [Memory.controlled, rotation]
    split_ifs
    · omega
    · rfl

/-! ## The invariant of competing responses -/

structure HandleOf (w₀ : World) (sessionID : GoString) (r : Response) : Prop where
  login : r.manager.cfg.rotateOnLogin = true
  session : r.live.sessionID = sessionID
  resolved : r.live.rewrite = false
  held : ∃ e ∈ w₀.log, e.before.keys.get r.live.keyID = some sessionID

structure Serialized (T : Finset Nat) (w₀ : World) (sessionID : GoString) (response : Nat → Response) (w : World) :
    Prop where
  inv : Inv anyFaults w
  used : ∀ t ∈ T, ∃ u, Used (own u w) (response t).live.keyID
  agree : ∀ {t sess}, InPlay T w₀ t →
    (⟨.store (.getSession sessionID), .ok sess⟩ : Deed) ∈ own t w →
    w.mem.keys.get (response t).live.keyID = some sessionID →
    ∃ row, w.mem.sessions.get sessionID = some row ∧ Agree sess row
  ordered : ∃ order, order.Nodup ∧
    (∀ t, t ∈ order ↔ InPlay T w₀ t ∧ Done (response t) (own t w)) ∧
    serial response (fun t => own t w) order w₀.mem = some w.mem
  effects : ∀ e ∈ w.log, e ∈ w₀.log ∨ e.after = e.before ∨
    ∃ id c ttl ownerTTL, e.deed = ⟨.store (.applySessionControls id c ttl ownerTTL), .ok ()⟩

theorem served_applyControls {faults : Fault → Bool} {m m' : Memory} {id : GoString}
    {c : SessionControls} {ttl ownerTTL : Duration}
    (served : Served faults m m' ⟨.store (.applySessionControls id c ttl ownerTTL), .ok ()⟩) :
    ∃ row, m.sessions.get id = some row ∧ m.keys.get c.oldKeyID = some id ∧
      m' = m.commit id row c ∧ m.applySessionControls id c = (.ok (), m') := by
  obtain ⟨order, answered, done⟩ | ⟨failed, -⟩ := served
  · have answered : (m.applySessionControls id c).1 = .ok () := Option.some.inj answered
    have done : m' = (m.applySessionControls id c).2 := done
    obtain ⟨-, e, failed⟩ | ⟨row, found, held, -, committed⟩ :=
      Memory.applySessionControls_cases m id c
    · simp [failed] at answered
    · rw [committed] at done
      exact ⟨row, found, held, done, by rw [committed, done]⟩
  · cases failed

theorem served_getSession_mem {faults : Fault → Bool} {m m' : Memory} {id : GoString}
    {r : Except StoreErr Session} (served : Served faults m m' ⟨.store (.getSession id), r⟩) :
    m' = m := by
  obtain ⟨-, -, same⟩ | ⟨-, same | ⟨-, same⟩⟩ := served
  all_goals exact same

section Steps

variable {T : Finset Nat} {w₀ w w' : World} {sessionID : GoString} {response : Nat → Response}
  {t : Nat} {c : Call} {answer : c.Answer}

theorem exec_any {faults : Fault → Bool} (step : exec faults t w c answer w') :
    exec anyFaults t w c answer w' := by
  obtain ⟨o, w₁, answered, recorded⟩ := step
  refine ⟨o, w₁, ?_, recorded⟩
  cases c with
  | store c =>
      simp only [respond, respondStore, Option.map_eq_some_iff] at answered ⊢
      obtain ⟨result, stored, same⟩ := answered
      split_ifs at stored with allowed
      exact ⟨result, by simpa [anyFaults] using stored, same⟩
  | _ => exact answered

namespace Serialized

variable (S : Serialized T w₀ sessionID response w) (step : exec cleanFaults t w c answer w')

include S step

theorem used_step (u : Nat) (member : u ∈ T) :
    ∃ v, Used (own v w') (response u).live.keyID := by
  obtain ⟨v, used⟩ := S.used u member
  exact ⟨v, used_mono step used⟩

theorem agree_unchanged (same : w'.mem = w.mem)
    (read : ∀ sess, (⟨c, answer⟩ : Deed) = ⟨.store (.getSession sessionID), .ok sess⟩ →
      w.mem.sessions.get sessionID = some sess)
    {u : Nat} {sess : Session} (new : InPlay T w₀ u)
    (member : (⟨.store (.getSession sessionID), .ok sess⟩ : Deed) ∈ own u w')
    (held : w'.mem.keys.get (response u).live.keyID = some sessionID) :
    ∃ row, w'.mem.sessions.get sessionID = some row ∧ Agree sess row := by
  rw [same] at held ⊢
  by_cases mine : t = u
  · subst mine
    rw [exec_own step] at member
    obtain now | earlier := List.mem_cons.mp member
    · exact ⟨sess, read sess now.symm, rfl, rfl, rfl⟩
    · exact S.agree new earlier held
  · rw [exec_own_other step mine] at member
    exact S.agree new member held

theorem ordered_quiet (same : w'.mem = w.mem) (before : ¬ Done (response t) (own t w))
    (after : ¬ Done (response t) (own t w')) :
    ∃ order, order.Nodup ∧ (∀ u, u ∈ order ↔ InPlay T w₀ u ∧ Done (response u) (own u w')) ∧
      serial response (fun u => own u w') order w₀.mem = some w'.mem := by
  obtain ⟨order, nodup, members, run⟩ := S.ordered
  have others : ∀ u ∈ order, own u w' = own u w := by
    intro u member
    refine exec_own_other step ?_
    rintro rfl
    exact before ((members t).mp member).2
  refine ⟨order, nodup, fun u => ?_, ?_⟩
  · rw [members]
    by_cases mine : t = u
    · subst mine
      simp [before, after]
    · rw [exec_own_other step mine]
  · rw [same, ← run]
    exact serial_congr response others w₀.mem

theorem ordered_completed (new : InPlay T w₀ t) (before : ¬ Done (response t) (own t w))
    (after : Done (response t) (own t w'))
    (effect : ∃ l, (response t).prog.eval (alone (own t w')) w.mem = ((.ok (), l), w'.mem)) :
    ∃ order, order.Nodup ∧ (∀ u, u ∈ order ↔ InPlay T w₀ u ∧ Done (response u) (own u w')) ∧
      serial response (fun u => own u w') order w₀.mem = some w'.mem := by
  obtain ⟨order, nodup, members, run⟩ := S.ordered
  obtain ⟨l, effect⟩ := effect
  have absent : t ∉ order := fun member => before ((members t).mp member).2
  have others : ∀ u ∈ order, own u w' = own u w := by
    intro u member
    refine exec_own_other step ?_
    rintro rfl
    exact absent member
  refine ⟨order ++ [t], ?_, fun u => ?_, ?_⟩
  · rw [List.nodup_append]
    refine ⟨nodup, List.nodup_singleton t, fun a member b single => ?_⟩
    rw [List.mem_singleton] at single
    rintro rfl
    exact absent (single ▸ member)
  · rw [List.mem_append, List.mem_singleton, members]
    by_cases mine : t = u
    · subst mine
      simp [new, after]
    · rw [exec_own_other step mine]
      simp [Ne.symm mine]
  · refine serial_append response _ order t ?_ effect
    rw [serial_congr response others]
    exact run

theorem effects_step (effect : w'.mem = w.mem ∨ ∃ id c' ttl ownerTTL,
      (⟨c, answer⟩ : Deed) = ⟨.store (.applySessionControls id c' ttl ownerTTL), .ok ()⟩) :
    ∀ e ∈ w'.log, e ∈ w₀.log ∨ e.after = e.before ∨
      ∃ id c ttl ownerTTL, e.deed = ⟨.store (.applySessionControls id c ttl ownerTTL), .ok ()⟩ := by
  intro e logged
  rw [exec_log step] at logged
  obtain rfl | earlier := List.mem_cons.mp logged
  · exact .inr effect
  · exact S.effects e earlier

theorem quiet (inv : Inv anyFaults w') (same : w'.mem = w.mem)
    (before : ¬ Done (response t) (own t w)) (after : ¬ Done (response t) (own t w'))
    (read : ∀ sess, (⟨c, answer⟩ : Deed) = ⟨.store (.getSession sessionID), .ok sess⟩ →
      w.mem.sessions.get sessionID = some sess) :
    Serialized T w₀ sessionID response w' where
  inv := inv
  used := S.used_step step
  agree := S.agree_unchanged step same read
  ordered := S.ordered_quiet step same before after
  effects := S.effects_step step (.inl same)

end Serialized

/-- After a commit, whoever still holds the session's key has read what the row says. -/
theorem Serialized.agree_committed (S : Serialized T w₀ sessionID response w)
    {ctl : SessionControls} {ttl ownerTTL : Duration} {row : Session}
    (step : exec cleanFaults t w (.store (.applySessionControls sessionID ctl ttl ownerTTL))
      (.ok ()) w')
    (fresh : ctl.rotate → Fresh (own t w) ctl.newKeyID)
    (found : w.mem.sessions.get sessionID = some row)
    (current : w.mem.keys.get ctl.oldKeyID = some sessionID)
    (committed : w'.mem = w.mem.commit sessionID row ctl)
    (still : ctl.rotate = false → ctl.setOwner = false ∧ ctl.setLabels = false ∧
      ctl.lastRotation = 0)
    {u : Nat} {sess : Session} (new : InPlay T w₀ u)
    (member : (⟨.store (.getSession sessionID), .ok sess⟩ : Deed) ∈ own u w')
    (held : w'.mem.keys.get (response u).live.keyID = some sessionID) :
    ∃ row, w'.mem.sessions.get sessionID = some row ∧ Agree sess row := by
  have earlier : (⟨.store (.getSession sessionID), .ok sess⟩ : Deed) ∈ own u w := by
    by_cases mine : t = u
    · subst mine
      rw [exec_own step] at member
      obtain now | earlier := List.mem_cons.mp member
      · cases congrArg Sigma.fst now
      · exact earlier
    · rw [exec_own_other step mine] at member
      exact member
  rw [committed, Memory.commit_keys] at held
  rw [committed, Memory.commit_sessions, GoMap.get_set_self]
  refine ⟨_, rfl, ?_⟩
  cases rotate : ctl.rotate with
  | true =>
      rw [if_pos rotate] at held
      simp only [GoMap.get_delete, GoMap.get_set] at held
      split_ifs at held with old minted
      · exact absurd (minted ▸ S.used u new.1) (S.inv.unused (fresh rotate))
      · exact absurd (S.inv.wf.keyUnique held current) old
  | false =>
      rw [if_neg (ne_true_of_eq_false rotate)] at held
      obtain ⟨row', found', agree⟩ := S.agree new earlier held
      cases found.symm.trans found'
      exact agree.trans (controlled_agree (S.inv.wf.timely found) (still rotate))

theorem Serialized.committed (S : Serialized T w₀ sessionID response w)
    (new : InPlay T w₀ t) (inv : Inv anyFaults w') (now : Int) (sess : Session)
    {ctl : SessionControls} {ttl ownerTTL : Duration}
    (read : (⟨.store (.getSession sessionID), .ok sess⟩ : Deed) ∈ own t w)
    (unfinished : ¬ Done (response t) (own t w))
    (proper : Proper (own t w) (.store (.applySessionControls sessionID ctl ttl ownerTTL)))
    (key : ctl.oldKeyID = (response t).live.keyID)
    (still : ctl.rotate = false → ctl.setOwner = false ∧ ctl.setLabels = false ∧
      ctl.lastRotation = 0)
    (solo : ∀ {row m'}, w.mem.sessions.get sessionID = some row →
      (response t).controls row now = (response t).controls sess now →
      w.mem.applySessionControls sessionID ctl = (.ok (), m') →
      ∃ l, (response t).prog.eval (alone (own t w')) w.mem = ((.ok (), l), m'))
    {answer : Except StoreErr Unit}
    (step : exec cleanFaults t w (.store (.applySessionControls sessionID ctl ttl ownerTTL))
      answer w') : Serialized T w₀ sessionID response w' := by
  cases answer with
  | error e =>
      refine S.quiet step inv (refused (exec_served step)) unfinished ?_ ?_
      · rw [exec_own step]
        exact fun h => h
      · intro sess' same
        cases congrArg Sigma.fst same
  | ok done =>
      obtain ⟨row, found, current, committed, applied⟩ := served_applyControls (exec_served step)
      rw [key] at current
      obtain ⟨row', found', agree⟩ := S.agree new read current
      cases found.symm.trans found'
      exact
        { inv := inv
          used := S.used_step step
          agree := S.agree_committed step proper.1 found (key ▸ current) committed still
          ordered := by
            refine S.ordered_completed step new unfinished ?_
              (solo found (controls_agree _ agree now) applied)
            rw [exec_own step]
            trivial
          effects := S.effects_step step (.inr ⟨_, _, _, _, rfl⟩) }

theorem Serialized.step (S : Serialized T w₀ sessionID response w)
    (handled : HandleOf w₀ sessionID (response t)) (new : InPlay T w₀ t)
    (proper : Proper (own t w) c) (asks : Asks (response t) (own t w) c)
    (step : exec cleanFaults t w c answer w') : Serialized T w₀ sessionID response w' := by
  have inv : Inv anyFaults w' := S.inv.step proper (exec_any step)
  have history := exec_own step
  obtain ⟨login, rfl, resolved, -⟩ := handled
  generalize past : own t w = before at asks
  rw [past] at history
  cases asks with
  | now =>
      refine S.quiet step inv (exec_served step) (past ▸ fun h => h) (history ▸ fun h => h) ?_
      intro sess same
      cases congrArg Sigma.fst same
  | read now =>
      have same := served_getSession_mem (exec_served step)
      cases answer with
      | error e =>
          refine S.quiet step inv same (past ▸ fun h => h) (history ▸ fun h => h) ?_
          intro sess same
          cases same
      | ok sess =>
          have found := served_getSession (exec_served step)
          have read : ∀ sess', (⟨.store (.getSession (response t).live.sessionID), .ok sess⟩ : Deed) =
              ⟨.store (.getSession (response t).live.sessionID), .ok sess'⟩ →
              w.mem.sessions.get (response t).live.sessionID = some sess' := by
            intro sess' same
            cases same
            exact found
          cases idle : Live.nothingToDo ((response t).controls sess now) with
          | true =>
              exact
                { inv := inv
                  used := S.used_step step
                  agree := S.agree_unchanged step same read
                  ordered := by
                    refine S.ordered_completed step new (past ▸ fun h => h) (history ▸ idle) ?_
                    rw [same, history]
                    exact ⟨_, eval_idle rfl found idle⟩
                  effects := S.effects_step step (.inl same) }
          | false =>
              refine S.quiet step inv same (past ▸ fun h => h) ?_ read
              rw [history]
              exact ne_true_of_eq_false idle
  | mint now sess busy rotate =>
      refine S.quiet step inv (exec_served step) ?_ (history ▸ fun h => h) ?_
      · rw [past]
        exact ne_true_of_eq_false busy
      · intro sess same
        cases congrArg Sigma.fst same
  | commit now sess busy rotate ttl ownerTTL =>
      refine S.committed new inv now sess (by simp [past]) ?_ proper rfl
        (controls_still login resolved) ?_ step
      · rw [past]
        exact ne_true_of_eq_false busy
      · intro row m' found same done
        rw [history]
        rw [← same] at busy rotate done
        exact ⟨_, eval_commit rfl found busy rotate done⟩
  | rotate now sess busy rotate buf ttl ownerTTL =>
      refine S.committed new inv now sess (by simp [past]) (past ▸ fun h => h)
        proper rfl (fun still => absurd rotate (ne_true_of_eq_false still)) ?_ step
      intro row m' found same done
      rw [history]
      rw [← same] at busy rotate done
      exact ⟨_, eval_rotate rfl found rfl busy rotate done⟩

end Steps

theorem resolved_handled {job : Nat → Job} {c₀ : Machine Outcome}
    (before : (jobs job).Reaches idle c₀) {r : Response} {sessionID : GoString}
    (login : r.manager.cfg.rotateOnLogin = true)
    (resolved : ∃ u keyID, (job u).op = .resolve keyID ∧
      c₀.thread u = some (.ret (.resolved (.ok (some r.live)))))
    (session : r.live.sessionID = sessionID) : HandleOf c₀.state sessionID r := by
  obtain ⟨u, keyID, op, done⟩ := resolved
  have good := jobs_good before
  have returned : Returned (job u) _ (own u c₀.state) := good.running done
  obtain ⟨row, now, ttl, -, key, -, -, rewrite, history⟩ := returned keyID r.live op rfl
  have asked : (⟨.store (.getKey keyID), .ok r.live.sessionID⟩ : Deed) ∈ own u c₀.state := by
    rw [history]
    simp
  obtain ⟨e, logged, -, deed⟩ := mem_own.mp asked
  have served := good.inv.chained.served logged
  rw [deed] at served
  refine ⟨login, session, rewrite, e, logged, ?_⟩
  rw [key, ← session]
  exact served_getKey served

theorem inPlay_silent {T : Finset Nat} {w : World} {t : Nat} (new : InPlay T w t) :
    own t w = [] := by
  refine List.eq_nil_iff_forall_not_mem.mpr fun d member => ?_
  obtain ⟨e, logged, tid, -⟩ := mem_own.mp member
  exact new.2 e logged tid

theorem serialized_initial {T : Finset Nat} {w₀ : World} {sessionID : GoString}
    {response : Nat → Response} (inv : Inv anyFaults w₀)
    (handled : ∀ t ∈ T, HandleOf w₀ sessionID (response t)) :
    Serialized T w₀ sessionID response w₀ where
  inv := inv
  used := by
    intro t member
    obtain ⟨e, logged, held⟩ := (handled t member).held
    exact inv.seenKey logged (by simp [held])
  agree := by
    intro t sess new member
    rw [inPlay_silent new] at member
    cases member
  ordered := by
    refine ⟨[], List.nodup_nil, fun t => ?_, rfl⟩
    simp only [List.not_mem_nil, false_iff, not_and]
    intro new
    rw [inPlay_silent new]
    exact fun h => h
  effects := fun e logged => .inl logged

theorem responses_good {T : Finset Nat} {w₀ : World} {sessionID : GoString}
    {response : Nat → Response} (inv : Inv anyFaults w₀)
    (handled : ∀ t ∈ T, HandleOf w₀ sessionID (response t))
    {c : Machine (Except Err Unit × Live)}
    (run : (responses T w₀ response).Reaches (.initial w₀) c) :
    Good (responses T w₀ response)
      (histories cleanFaults w₀ (Serialized T w₀ sessionID response)
        (fun S => S.inv.wf.timely))
      (fun t past c => Proper past c ∧ Asks (response t) past c)
      (fun t => Concluded (response t)) c := by
  refine (Good.initial (serialized_initial inv handled) fun t => rfl).reaches ?_ ?_ ?_ run
  · intro t w new
    have verified := (response_proper (response t)).and (response_asks (response t))
    have silent : own t w₀ = [] := inPlay_silent new
    show Obeys _ _ _ (own t w₀)
    rw [silent]
    exact verified.weaken fun _ _ h => h.2
  · exact fun _ new => new
  · intro t w c r w' S new allowed step
    exact S.step (handled t new.1) new allowed.1 allowed.2 step

theorem responses_serializable (job : Nat → Job) {c₀ : Machine Outcome}
    (before : (jobs job).Reaches idle c₀) (sessionID : GoString) (T : Finset Nat)
    (response : Nat → Response)
    (login : ∀ t ∈ T, (response t).manager.cfg.rotateOnLogin = true)
    (resolved : ∀ t ∈ T, (response t).live.sessionID = sessionID ∧
      ∃ u keyID, (job u).op = .resolve keyID ∧
        c₀.thread u = some (.ret (.resolved (.ok (some (response t).live)))))
    {c : Machine (Except Err Unit × Live)}
    (run : (responses T c₀.state response).Reaches (.initial c₀.state) c)
    (complete : ∀ t p, c.thread t = some p → ∃ result, p = .ret result) :
    (∃ order : List Nat, order.Nodup ∧
      (∀ t, t ∈ order ↔ ∃ l, c.thread t = some (.ret (.ok (), l))) ∧
      serial response (fun t => own t c.state) order c₀.state.mem = some c.state.mem) ∧
    ∀ t e l, c.thread t = some (.ret (.error e, l)) →
      ∀ ev ∈ c.state.log, ev.tid = t → ev.after = ev.before := by
  have handled : ∀ t ∈ T, HandleOf c₀.state sessionID (response t) := fun t member =>
    resolved_handled before (login t member) (resolved t member).2 (resolved t member).1
  have good := responses_good (jobs_good before).inv handled run
  have outcome : ∀ {t result}, c.thread t = some (.ret result) →
      Concluded (response t) result (own t c.state) := fun done => good.running done
  obtain ⟨order, nodup, members, serialized⟩ := good.inv.ordered
  refine ⟨⟨order, nodup, fun t => ?_, serialized⟩, ?_⟩
  · rw [members]
    constructor
    · rintro ⟨new, done⟩
      cases state : c.thread t with
      | none =>
          have silent : own t c.state = [] := (good.idle state).trans (inPlay_silent new)
          rw [silent] at done
          exact done.elim
      | some p =>
          obtain ⟨⟨result, l⟩, rfl⟩ := complete t p state
          have succeeded : result = .ok () := (outcome state).1.mpr done
          exact ⟨l, by rw [succeeded]⟩
    · rintro ⟨l, done⟩
      exact ⟨good.ready done, (outcome done).1.mp rfl⟩
  · intro t e l failed ev logged tid
    have unfinished : ¬ Done (response t) (own t c.state) := fun done => by
      cases (outcome failed).1.mpr done
    obtain old | same | ⟨id, ctl, ttl, ownerTTL, deed⟩ := good.inv.effects ev logged
    · exact absurd tid ((good.ready failed).2 ev old)
    · exact same
    · refine absurd ((outcome failed).2 ⟨id, ctl, ttl, ownerTTL, ?_⟩) unfinished
      exact mem_own.mpr ⟨ev, logged, tid, deed⟩

def competing : Nat → Response
  | 10 =>
      { manager := sampleManager
        live := sampleLive
        ownerID := some sampleOwner
        labels := none
        forceRotate := false
        cookies := [{ name := lit "sid", value := lit "secret" }] }
  | _ =>
      { manager := sampleManager
        live := sampleLive
        ownerID := none
        labels := none
        forceRotate := false
        cookies := [{ name := lit "theme", value := lit "dark" }] }

def competingMoves : List Move :=
  [.start 10, .start 11, .act 10 { clock := 120 }, .act 11 { clock := 121 }, .act 10 {}, .act 11 {},
   .act 10 { random := some (List.replicate 32 3) }, .act 10 {}, .act 11 {}]

def returnedAll (c : Machine (Except Err Unit × Live)) (tids : List Nat) : Bool :=
  tids.all fun t => match c.thread t with
    | some (.ret _) => true
    | _ => false

theorem complete_of_returnedAll {c : Machine (Except Err Unit × Live)} {tids : List Nat}
    (returned : returnedAll c tids) (others : ∀ t ∉ tids, c.thread t = none) (t : Nat)
    (p : Act (Except Err Unit × Live)) (running : c.thread t = some p) :
    ∃ result, p = .ret result := by
  by_cases member : t ∈ tids
  · have done := List.all_eq_true.mp returned t member
    rw [running] at done
    cases p with
    | ret result => exact ⟨result, rfl⟩
    | call request next => cases done
  · rw [others t member] at running
    cases running

theorem competing_sample_serializable : ∃ (c₀ : Machine Outcome) (c : Machine _),
    (responses {10, 11} c₀.state competing).Reaches (.initial c₀.state) c ∧
    ∃ order : List Nat, order.Nodup ∧
      (∀ t, t ∈ order ↔ ∃ l, c.thread t = some (.ret (.ok (), l))) ∧
      serial competing (fun t => own t c.state) order c₀.state.mem = some c.state.mem := by
  have played : (play anyFaults (fun _ _ => true) (jobs (sampleJobs fun _ => .resolve sampleKey)).prog
      idle resolveMoves).any fun c₀ => resolvedLive c₀ 1 == some sampleLive &&
        (play cleanFaults (fun _ t => decide (InPlay {10, 11} c₀.state t))
          (responses {10, 11} c₀.state competing).prog (.initial c₀.state) competingMoves).any
          fun c => returnedAll c [10, 11] := by
    decide +kernel
  obtain ⟨c₀, before, -, checked⟩ := reaches_of_played (fun _ => trivial) played
  obtain ⟨resolved, played⟩ := (Bool.and_eq_true _ _).mp checked
  have inPlay : ∀ {w : World} {t}, decide (InPlay {10, 11} c₀.state t) →
      (responses {10, 11} c₀.state competing).ready w t := by
    intro w t holds
    exact (decide_eq_true_iff (p := InPlay {10, 11} c₀.state t)).mp holds
  obtain ⟨c, run, frame, returned⟩ := reaches_of_played inPlay played
  have others : ∀ t ∉ [10, 11], c.thread t = none := by
    intro t absent
    refine frame t fun m member => ?_
    rintro rfl
    revert absent
    revert m
    decide
  have live : ∀ t ∈ ({10, 11} : Finset Nat), (competing t).live = sampleLive := by decide
  have login : ∀ t ∈ ({10, 11} : Finset Nat), (competing t).manager.cfg.rotateOnLogin = true := by
    decide
  refine ⟨c₀, c, run, (responses_serializable _ before sampleSession {10, 11} competing login ?_ run
    (complete_of_returnedAll returned others)).1⟩
  intro t member
  rw [live t member]
  exact ⟨rfl, 1, sampleKey, rfl, resolvedLive_eq (eq_of_beq resolved)⟩

end Gosestor.Session
