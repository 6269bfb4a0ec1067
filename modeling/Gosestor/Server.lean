import Gosestor.Store.Redis
import Gosestor.Session.Operation

/-!
# The Redis store under a clock

A server holds the keyspace and the time, in microseconds. Every call of a program takes effect at
one time, and time does not go back. A store call that reaches the server runs its script there,
and its answer may be lost. `reads` relates the time to what a program's clock shows, in seconds.
-/

namespace Gosestor

open Gosestor.Go Gosestor.Lib Gosestor.Store

/-- A call with the time it took effect at, the commands it ran, and the keyspace around it. -/
structure Stamp where
  tid : Nat
  deed : Deed
  time : Int
  commands : List (Lib.Redis.Cmd GoString)
  before : Lib.Redis.Keyspace GoString
  after : Lib.Redis.Keyspace GoString

structure Server where
  db : Lib.Redis.Keyspace GoString := .empty
  time : Int := 0
  log : List Stamp := []

def Server.own (t : Nat) (s : Server) : History := (s.log.filter (·.tid == t)).map Stamp.deed

def Server.minted (s : Server) : List GoString := s.log.filterMap (·.deed.minted)

/-- One store call at a time. An error reply and a raised error are errors of the service. `Lock`
and its unlock have keys of their own, which no script reads, and are left out. -/
inductive Performed (r : Redis) (time : Int) (db : Lib.Redis.Keyspace GoString) (c : StoreCall) :
    c.Answer → List (Lib.Redis.Cmd GoString) → Lib.Redis.Keyspace GoString → Prop
  | unreached : Performed r time db c (.error .fault) [] db
  | ran {script : Lib.Redis.Script GoString c.Answer} (request : r.request c = some script)
      {answer : c.Answer}
      (answered : answer = .error .fault ∨ ∃ order, reorder order c
        ((Lib.Redis.exec time script db).1.getD (.error .fault)) = some answer) :
      Performed r time db c answer (Lib.Redis.trace time script (db.asOf time))
        (Lib.Redis.exec time script db).2
  | apart (none : r.request c = none) (answer : c.Answer) : Performed r time db c answer [] db

def Answered (r : Redis) (reads : Int → Int → Prop) (s : Server) (time : Int) :
    (c : Call) → c.Answer → List (Lib.Redis.Cmd GoString) → Lib.Redis.Keyspace GoString → Prop
  | .store c, answer, commands, db => Performed r time s.db c answer commands db
  | .now, now, commands, db => reads time now ∧ commands = [] ∧ db = s.db
  | .randomRead, some buf, commands, db =>
      (buf.length = 32 ∧ encodeToString buf ∉ s.minted) ∧ commands = [] ∧ db = s.db
  | _, _, commands, db => commands = [] ∧ db = s.db

def serve (r : Redis) (reads : Int → Int → Prop) : Exec Call Call.Answer Server :=
  fun t s c answer s' => s.time ≤ s'.time ∧ ∃ commands,
    Answered r reads s s'.time c answer commands s'.db ∧
    s'.log = ⟨t, ⟨c, answer⟩, s'.time, commands, s.db, s'.db⟩ :: s.log

def sameClock (time now : Int) : Prop := now = time / 1000000

def Server.record (s : Server) (pause : Int) (t : Nat) (c : Call) (answer : c.Answer)
    (commands : List (Lib.Redis.Cmd GoString)) (db : Lib.Redis.Keyspace GoString) :
    c.Answer × Server :=
  let time := s.time + pause
  (answer, { db, time, log := ⟨t, ⟨c, answer⟩, time, commands, s.db, db⟩ :: s.log })

def attend (r : Redis) (shows : Int → Int) (pause : Int) (t : Nat) (c : Call) (s : Server) :
    c.Answer × Server :=
  match c with
  | .store c =>
      match r.request c with
      | none => s.record pause t (.store c) (.error .fault) [] s.db
      | some script =>
          s.record pause t (.store c)
            ((Lib.Redis.exec (s.time + pause) script s.db).1.getD (.error .fault))
            (Lib.Redis.trace (s.time + pause) script (s.db.asOf (s.time + pause)))
            (Lib.Redis.exec (s.time + pause) script s.db).2
  | .now => s.record pause t .now (shows (s.time + pause)) [] s.db
  | .randomRead =>
      let buf := List.replicate 32 (UInt8.ofNat s.log.length)
      s.record pause t .randomRead (if encodeToString buf ∈ s.minted then none else some buf) [] s.db
  | c => s.record pause t c (Session.alone [] c newMemory).1 [] s.db

section Attend

variable {r : Redis} {reads : Int → Int → Prop} {pause : Int}

theorem record_serves (later : 0 ≤ pause) {t : Nat} {s : Server} {c : Call} {answer : c.Answer}
    {commands : List (Lib.Redis.Cmd GoString)} {db : Lib.Redis.Keyspace GoString}
    (answered : Answered r reads s (s.time + pause) c answer commands db) :
    serve r reads t s c (s.record pause t c answer commands db).1
      (s.record pause t c answer commands db).2 :=
  ⟨Int.le_add_of_nonneg_right later, commands, answered, rfl⟩

theorem reorder_self (c : StoreCall) (answer : c.Answer) :
    ∃ order, reorder order c answer = some answer := by
  cases c with
  | ownerSessions owner =>
      cases answer with
      | error e => exact ⟨[], rfl⟩
      | ok sids => exact ⟨sids, if_pos (List.isPerm_iff.mpr (.refl sids))⟩
  | _ => exact ⟨[], rfl⟩

theorem attend_serves {shows : Int → Int} (read : ∀ time, reads time (shows time))
    (later : 0 ≤ pause) (t : Nat) (s : Server) (c : Call) :
    serve r reads t s c (attend r shows pause t c s).1 (attend r shows pause t c s).2 := by
  unfold attend
  split
  · rename_i c
    cases request : r.request c with
    | none => exact record_serves later (.apart request _)
    | some script => exact record_serves later (.ran request (.inr (reorder_self c _)))
  · exact record_serves later ⟨read _, rfl, rfl⟩
  · apply record_serves later
    split_ifs with known
    · exact ⟨rfl, rfl⟩
    · exact ⟨⟨List.length_replicate, known⟩, rfl, rfl⟩
  · apply record_serves later
    rename_i notStore notNow notRandom
    cases c with
    | store c => exact absurd rfl (notStore c)
    | now => exact absurd rfl notNow
    | randomRead => exact absurd rfl notRandom
    | _ => exact ⟨rfl, rfl⟩

end Attend

end Gosestor
