import Gosestor.Proof.Store.Memory
import Gosestor.World

/-!
# What a step does, and the history of one program

Programs are verified one by one over their own histories, with answers that are legal but
otherwise arbitrary.
-/

namespace Gosestor

open Gosestor.Go Gosestor.Lib Gosestor.Store

variable {faults : Fault → Bool} {t u : Nat} {w w' : World} {c : Call} {r : c.Answer}

def Served (faults : Fault → Bool) (m m' : Memory) : Deed → Prop
  | ⟨.store c, r⟩ =>
      (∃ order, reorder order c (m.perform c).1 = some r ∧ m' = (m.perform c).2) ∨
      (r = .error .fault ∧ (m' = m ∨ faults .lost ∧ m' = (m.perform c).2))
  | _ => m' = m

theorem served_getCookies {faults : Fault → Bool} {m m' : Memory} {id : GoString}
    {cookies : GoMap GoString GoString}
    (served : Served faults m m' ⟨.store (.getCookies id), .ok cookies⟩) :
    m.getCookies id = cookies := by
  obtain ⟨order, answered, -⟩ | ⟨failed, -⟩ := served
  · exact Except.ok.inj (Option.some.inj answered)
  · cases failed

theorem exec_log (step : exec faults t w c r w') :
    w'.log = ⟨t, ⟨c, r⟩, w.mem, w'.mem⟩ :: w.log := by
  obtain ⟨o, w₁, answered, rfl⟩ := step
  rfl

theorem respondStore_served {m m' : Memory} {c : StoreCall} {r : c.Answer} {o : Choice}
    (answered : respondStore faults m c o = some (r, m')) : Served faults m m' ⟨.store c, r⟩ := by
  unfold respondStore at answered
  split_ifs at answered with allowed
  cases fault : o.fault with
  | none =>
      simp only [fault, Option.map_eq_some_iff, Prod.mk.injEq] at answered
      obtain ⟨r', ordered, rfl, rfl⟩ := answered
      exact .inl ⟨o.order, ordered, rfl⟩
  | clean =>
      simp only [fault, Option.some.injEq, Prod.mk.injEq] at answered
      obtain ⟨rfl, rfl⟩ := answered
      exact .inr ⟨rfl, .inl rfl⟩
  | lost =>
      simp only [fault, Option.some.injEq, Prod.mk.injEq] at answered
      obtain ⟨rfl, rfl⟩ := answered
      exact .inr ⟨rfl, .inr ⟨by simpa [fault] using allowed, rfl⟩⟩

theorem exec_served (step : exec faults t w c r w') : Served faults w.mem w'.mem ⟨c, r⟩ := by
  obtain ⟨o, w₁, answered, rfl⟩ := step
  cases c with
  | store c =>
      simp only [respond, Option.map_eq_some_iff] at answered
      obtain ⟨⟨r', m'⟩, stored, same⟩ := answered
      cases same
      exact respondStore_served stored
  | randomRead =>
      simp only [respond] at answered
      split at answered
      · cases answered
        rfl
      · split_ifs at answered
        cases answered
        rfl
  | reserve n =>
      simp only [respond] at answered
      split_ifs at answered
      all_goals
        cases answered
        rfl
  | now | wallClock | fileWrite p | fileCopy p | write p =>
      simp only [respond] at answered
      split_ifs at answered
      cases answered
      rfl
  | _ =>
      cases answered
      rfl

theorem served_mem {m m' : Memory} (served : Served faults m m' ⟨c, r⟩) :
    m' = m ∨ ∃ sc, c = .store sc ∧ m' = (m.perform sc).2 := by
  cases c with
  | store sc =>
      obtain ⟨-, -, done⟩ | ⟨-, rfl | ⟨-, done⟩⟩ := served
      · exact .inr ⟨sc, rfl, done⟩
      · exact .inl rfl
      · exact .inr ⟨sc, rfl, done⟩
  | _ => exact .inl served

theorem reorder_error (order : List GoString) (c : StoreCall) (cause : StoreErr) :
    reorder order c (.error cause) = some (.error cause) := by
  cases c <;> rfl

theorem error_of_reorder {order : List GoString} {c : StoreCall} {answer : c.Answer}
    {cause : StoreErr} (ordered : reorder order c answer = some (.error cause)) :
    answer = .error cause := by
  cases answer with
  | error e => exact Option.some.inj ((reorder_error order c e).symm.trans ordered)
  | ok value =>
      cases c with
      | ownerSessions owner =>
          simp only [reorder] at ordered
          split_ifs at ordered
          cases ordered
      | _ => cases ordered

theorem refused {m m' : Memory} {c : StoreCall} {e : StoreErr}
    (served : Served cleanFaults m m' ⟨.store c, .error e⟩) : m' = m := by
  obtain ⟨order, answered, done⟩ | ⟨-, same | ⟨lost, -⟩⟩ := served
  · rw [done]
    exact Memory.perform_error (error_of_reorder answered)
  · exact same
  · simp [cleanFaults] at lost

def Chained (faults : Fault → Bool) : Memory → List Event → Prop
  | _, [] => True
  | m, e :: log => e.after = m ∧ Served faults e.before e.after e.deed ∧ Chained faults e.before log

theorem exec_chained (chained : Chained faults w.mem w.log) (step : exec faults t w c r w') :
    Chained faults w'.mem w'.log := by
  rw [exec_log step]
  exact ⟨rfl, exec_served step, chained⟩

theorem Chained.served {m : Memory} {log : List Event} (chained : Chained faults m log) {e : Event}
    (logged : e ∈ log) : Served faults e.before e.after e.deed := by
  induction log generalizing m with
  | nil => cases logged
  | cons e' log ih =>
      obtain rfl | earlier := List.mem_cons.mp logged
      · exact chained.2.1
      · exact ih chained.2.2 earlier

theorem Chained.split {m : Memory} {later earlier : List Event} {e : Event}
    (chained : Chained faults m (later ++ e :: earlier)) : Chained faults e.before earlier := by
  induction later generalizing m with
  | nil => exact chained.2.2
  | cons e' later ih => exact ih chained.2.2

theorem Chained.turned {P : Memory → Prop} {m : Memory} {later earlier : List Event} {e : Event}
    (chained : Chained faults m (later ++ e :: earlier)) (before : ¬ P e.after) (now : P m) :
    ∃ e' ∈ later, ¬ P e'.before ∧ P e'.after := by
  -- What does not hold after `e` and holds now was brought about by a later call.
  induction later generalizing m with
  | nil =>
      obtain ⟨rfl, -⟩ := chained
      exact absurd now before
  | cons e' later ih =>
      obtain ⟨rfl, -, rest⟩ := chained
      by_cases already : P e'.before
      · obtain ⟨turn, member, turned⟩ := ih rest already
        exact ⟨turn, List.mem_cons_of_mem _ member, turned⟩
      · exact ⟨e', List.mem_cons_self, already, now⟩

/-- A logged call was a step of the run, taken where the log ended before it. -/
theorem logged_step {α : Type} {S : System (exec faults) α} {start c : Machine α}
    (run : S.Reaches start c) (fresh : start.state.log = []) {later earlier : List Event}
    {e : Event} (split : c.state.log = later ++ e :: earlier) : ∃ mid next w',
      S.Reaches start mid ∧ mid.thread e.tid = some (.call e.call next) ∧
      exec faults e.tid mid.state e.call e.deed.2 w' ∧ mid.state.log = earlier ∧
      e.before = mid.state.mem ∧ e.after = w'.mem ∧
      S.Reaches ⟨w', Function.update mid.thread e.tid (some (next e.deed.2))⟩ c := by
  induction run generalizing later with
  | refl => simp [fresh] at split
  | @tail mid last run step ih =>
      cases step with
      | start t idle isReady =>
          obtain ⟨mid', next, w', before, running, step, log, same, same', rest⟩ := ih split
          exact ⟨mid', next, w', before, running, step, log, same, same',
            rest.tail (.start t idle isReady)⟩
      | @act t request next running answer w' step =>
          rw [exec_log step] at split
          cases later with
          | nil =>
              obtain ⟨rfl, log⟩ := List.cons.inj split
              exact ⟨mid, next, w', run, running, step, log, rfl, rfl, .refl⟩
          | cons newest later =>
              obtain ⟨-, split⟩ := List.cons.inj split
              obtain ⟨mid', next', w'', before, running', step', log, same, same', rest⟩ := ih split
              exact ⟨mid', next', w'', before, running', step', log, same, same',
                rest.tail (.act t running step)⟩

theorem log_extends {α : Type} {S : System (exec faults) α} {c c' : Machine α}
    (run : S.Reaches c c') : ∃ new, c'.state.log = new ++ c.state.log := by
  induction run with
  | refl => exact ⟨[], rfl⟩
  | tail _ step ih =>
      obtain ⟨new, log⟩ := ih
      cases step with
      | start t idle isReady => exact ⟨new, log⟩
      | act t running step =>
          rw [exec_log step, log]
          exact ⟨_ :: new, rfl⟩

theorem behind_of_notMem {α : Type} {front back new old : List α} {d : α}
    (same : front ++ d :: back = new ++ old) (notMem : d ∉ old) : ∃ between, back = between ++ old := by
  obtain ⟨rest, rfl, tail⟩ | ⟨rest, rfl, tail⟩ := List.append_eq_append_iff.mp same
  · cases rest with
    | nil => exact absurd (by rw [← List.nil_append old, ← tail]; exact List.mem_cons_self) notMem
    | cons d' rest =>
        obtain ⟨-, rfl⟩ := List.cons.inj tail
        exact ⟨rest, rfl⟩
  · exact absurd (by simp [tail]) notMem

theorem mem_ownDeeds {log : List Event} {d : Deed} :
    d ∈ ownDeeds t log ↔ ∃ e ∈ log, e.tid = t ∧ e.deed = d := by
  simp [ownDeeds, and_assoc]

theorem mem_own {d : Deed} : d ∈ own t w ↔ ∃ e ∈ w.log, e.tid = t ∧ e.deed = d := mem_ownDeeds

theorem ownDeeds_append (later earlier : List Event) :
    ownDeeds t (later ++ earlier) = ownDeeds t later ++ ownDeeds t earlier := by
  simp [ownDeeds]

theorem ownDeeds_older (t : Nat) (later : List Event) (e : Event) (earlier : List Event) :
    ownDeeds t earlier ⊆ ownDeeds t (later ++ e :: earlier) := by
  rw [List.append_cons, ownDeeds_append]
  exact List.subset_append_right _ _

theorem exec_own (step : exec faults t w c r w') : own t w' = ⟨c, r⟩ :: own t w := by
  unfold own ownDeeds
  rw [exec_log step]
  simp

theorem exec_own_other (step : exec faults u w c r w') (ne : u ≠ t) : own t w' = own t w := by
  unfold own ownDeeds
  rw [exec_log step]
  simp [ne]

theorem ownDeeds_split {log : List Event} (newer : History) {older : History} {d : Deed}
    (found : ownDeeds t log = newer ++ d :: older) : ∃ later e earlier,
      log = later ++ e :: earlier ∧ e.tid = t ∧ e.deed = d ∧
      ownDeeds t later = newer ∧ ownDeeds t earlier = older := by
  obtain ⟨es, rest, filtered, rfl, mapped⟩ := List.map_eq_append_iff.mp found
  obtain ⟨e, es', rfl, rfl, rfl⟩ := List.map_eq_cons_iff.mp mapped
  obtain ⟨later, rest, rfl, rfl, tail⟩ := List.filter_eq_append_iff.mp filtered
  obtain ⟨skipped, earlier, rfl, others, isOwn, rfl⟩ := List.filter_eq_cons_iff.mp tail
  refine ⟨later ++ skipped, e, earlier, by simp, by simpa using isOwn, rfl, ?_, rfl⟩
  have none : skipped.filter (·.tid == t) = [] := List.filter_eq_nil_iff.mpr others
  simp [ownDeeds, none]

theorem own_mono (step : exec faults u w c r w') {d : Deed} (member : d ∈ own t w) :
    d ∈ own t w' := by
  rw [mem_own] at member ⊢
  rw [exec_log step]
  obtain ⟨e, logged, rest⟩ := member
  exact ⟨e, List.mem_cons_of_mem _ logged, rest⟩

def Minted (past : History) (x : GoString) : Prop := ∃ d ∈ past, Deed.minted d = some x

theorem mem_minted {x : GoString} : x ∈ w.minted ↔ ∃ t, Minted (own t w) x := by
  unfold World.minted Minted
  rw [List.mem_filterMap]
  constructor
  · rintro ⟨e, logged, minted⟩
    exact ⟨e.tid, e.deed, mem_own.mpr ⟨e, logged, rfl, rfl⟩, minted⟩
  · rintro ⟨t, d, member, minted⟩
    obtain ⟨e, logged, -, rfl⟩ := mem_own.mp member
    exact ⟨e, logged, minted⟩

/-- What a program can rely on in an answer: the contract of `io.Writer`, fresh ids, and times that
are not before the epoch. -/
def Legal (past : History) : (c : Call) → c.Answer → Prop
  | .store (.getSession _), .ok row => 0 ≤ row.lastRotation
  | .now, now | .wallClock, now => 0 ≤ now
  | .randomRead, some buf => buf.length = 32 ∧ ¬ Minted past (encodeToString buf)
  | .fileWrite p, (n, e) | .write p, (n, e) => n ≤ p.length ∧ (n < p.length → e ≠ none)
  | .fileCopy remaining, (n, _) => n ≤ remaining
  | _, _ => True

theorem served_getSession {m m' : Memory} {id : GoString} {row : Session}
    (served : Served faults m m' ⟨.store (.getSession id), .ok row⟩) :
    m.sessions.get id = some row := by
  obtain ⟨order, answered, -⟩ | ⟨failed, -⟩ := served
  · have answered : m.getSession id = .ok row := Option.some.inj answered
    unfold Memory.getSession at answered
    split at answered
    · cases answered
    · cases answered
      assumption
  · cases failed

theorem exec_legal (timely : w.mem.Timely) (step : exec faults t w c r w') :
    Legal (own t w) c r := by
  have served := exec_served step
  obtain ⟨o, w₁, answered, rfl⟩ := step
  cases c with
  | store c =>
      cases c with
      | getSession id =>
          cases r with
          | error e => trivial
          | ok row => exact timely (served_getSession served)
      | _ => trivial
  | now | wallClock =>
      simp only [respond] at answered
      split_ifs at answered with epoch
      cases answered
      exact epoch
  | randomRead =>
      simp only [respond] at answered
      split at answered
      · cases answered
        trivial
      · rename_i buf found
        split_ifs at answered with fresh
        cases answered
        exact ⟨fresh.1, fun minted => fresh.2 (mem_minted.mpr ⟨t, minted⟩)⟩
  | fileWrite p | write p =>
      simp only [respond] at answered
      split_ifs at answered with bound
      cases answered
      exact bound
  | fileCopy remaining =>
      simp only [respond] at answered
      split_ifs at answered with bound
      cases answered
      exact bound
  | _ => trivial

def History.step (past : History) (c : Call) (r : c.Answer) (past' : History) : Prop :=
  Legal past c r ∧ past' = ⟨c, r⟩ :: past

def histories (faults : Fault → Bool) (w₀ : World) (I : World → Prop)
    (timely : ∀ {w}, I w → w.mem.Timely) : View (exec faults) I History where
  own := own
  start t := own t w₀
  step := History.step
  mine := fun inv step => ⟨exec_legal (timely inv) step, exec_own step⟩
  others := exec_own_other

theorem minted_fresh {buf : List UInt8} (step : exec faults t w .randomRead (some buf) w') :
    encodeToString buf ∉ w.minted := by
  obtain ⟨o, w₁, answered, rfl⟩ := step
  simp only [respond] at answered
  split at answered
  · cases answered
  · split_ifs at answered with fresh
    cases answered
    exact fresh.2

def Made (may : History → Call → Prop) (past : History) : Prop :=
  ∀ newer c r older, past = newer ++ ⟨c, r⟩ :: older → may older c

theorem made_nil (may : History → Call → Prop) : Made may [] := by
  intro newer c r older same
  cases newer <;> cases same

theorem Made.cons {may : History → Call → Prop} {past : History} {c : Call} (made : Made may past)
    (allowed : may past c) (r : c.Answer) : Made may (⟨c, r⟩ :: past) := by
  intro newer c' r' older same
  cases newer with
  | nil =>
      cases same
      exact allowed
  | cons d newer =>
      obtain ⟨-, rest⟩ := List.cons.inj same
      exact made newer c' r' older rest

section Rules

variable {α : Type} {may : History → Call → Prop} {post : α → History → Prop} {past : History}

abbrev Obeys (may : History → Call → Prop) (post : α → History → Prop) (p : Act α)
    (past : History) : Prop :=
  p.Wp History.step may post past

theorem obeys_act {f : c.Answer → Act α} (allowed : may past c)
    (rest : ∀ r, Legal past c r → Obeys may post (f r) (⟨c, r⟩ :: past)) :
    Obeys may post (act c >>= f) past := by
  refine ⟨allowed, fun r past' taken => ?_⟩
  obtain ⟨legal, rfl⟩ := taken
  exact rest r legal

theorem run_extends {p : Act α} {a : α} {past' : History}
    (run : Prog.Run History.step p past a past') : ∃ new, past' = new ++ past := by
  induction run with
  | ret value past => exact ⟨[], rfl⟩
  | call taken rest ih =>
      obtain ⟨-, rfl⟩ := taken
      obtain ⟨new, rfl⟩ := ih
      exact ⟨new ++ [_], List.append_cons _ _ _⟩

theorem run_suffix {p : Act α} {a : α} {past' : History}
    (run : Prog.Run History.step p past a past') : past <:+ past' := by
  obtain ⟨new, rfl⟩ := run_extends run
  exact List.suffix_append new past

/-- The answers determine a program: one history does not begin with two runs of it. -/
theorem run_determined {p : Act α} {a b : α} {past₁ past₂ whole : History}
    (first : Prog.Run History.step p past a past₁) (second : Prog.Run History.step p past b past₂)
    (begins₁ : past₁ <:+ whole) (begins₂ : past₂ <:+ whole) : a = b ∧ past₁ = past₂ := by
  induction p generalizing past with
  | ret value =>
      cases first
      cases second
      exact ⟨rfl, rfl⟩
  | call c next ih =>
      cases first with
      | @call _ _ _ _ _ r₁ _ taken₁ rest₁ =>
          cases second with
          | @call _ _ _ _ _ r₂ _ taken₂ rest₂ =>
              obtain ⟨-, rfl⟩ := taken₁
              obtain ⟨-, rfl⟩ := taken₂
              have answers : r₁ = r₂ := by
                obtain ⟨older₁, rfl⟩ := run_extends rest₁
                obtain ⟨older₂, rfl⟩ := run_extends rest₂
                obtain ⟨new₁, same₁⟩ := begins₁
                obtain ⟨new₂, same₂⟩ := begins₂
                have same := same₁.trans same₂.symm
                rw [← List.append_assoc, ← List.append_assoc] at same
                have calls := (List.append_inj' same rfl).2
                cases calls
                rfl
              subst answers
              exact ih r₁ rest₁ rest₂

theorem run_act {f : c.Answer → Act α} {a : α} {past' : History}
    (run : Prog.Run History.step (act c >>= f) past a past') :
    ∃ r, Legal past c r ∧ Prog.Run History.step (f r) (⟨c, r⟩ :: past) a past' := by
  cases run with
  | call taken rest =>
      obtain ⟨legal, rfl⟩ := taken
      exact ⟨_, legal, rest⟩

theorem Obeys.made {p : Act α} (obeys : Obeys may post p past) (made : Made may past) :
    Obeys may (fun a after => post a after ∧ Made may after) p past := by
  refine (Prog.Wp.frame (Made may) ?_ obeys made).mono (fun _ _ allowed => allowed.1)
    fun _ _ done => done
  intro past c r past' allowed step made
  obtain ⟨-, rfl⟩ := step
  exact made.cons allowed r

end Rules

end Gosestor
