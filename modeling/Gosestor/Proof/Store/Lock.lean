import Gosestor.Proof.Store.Targets
import Gosestor.Store.Lock

/-!
# Safety of the session lock

The entry under a lock key holds the token of the acquisition that created it, and only that
acquisition has the token. So an unlock removes no other entry, and the acquisition that is granted,
unexpired and unreleased is the one whose token is in the entry.
-/

namespace Gosestor.Store

open Gosestor.Go Gosestor.Lib Gosestor.Lib.Redis

/-! ## Names -/

theorem lit_lock : lit "lock:" = [108, 111, 99, 107, 58] := by decide

namespace Redis

variable (r : Redis)

theorem lockKey_ne_sessKey (id id' : GoString) : r.sessKey id ≠ r.lockKey id' := by
  intro same
  rw [sessKey, lockKey, List.append_assoc, List.append_assoc, List.append_cancel_left_eq, lit_sess,
    lit_lock] at same
  cases same

theorem lockKey_not_named {id k : GoString} (named : r.Names id k) (id' : GoString) :
    k ≠ r.lockKey id' := by
  intro same
  cases named with
  | attr | sha | reverse =>
      simp only [attrKey, shaKey, reverseKey, sessKey, lockKey, List.append_assoc,
        List.append_cancel_left_eq, lit_sess, lit_lock] at same
      cases same
  | key x =>
      simp only [keyPrefix, lockKey, List.append_assoc, List.append_cancel_left_eq, lit_key,
        lit_lock] at same
      cases same
  | owner x =>
      simp only [ownerPrefix, lockKey, List.append_assoc, List.append_cancel_left_eq, lit_owner,
        lit_lock] at same
      cases same

/-- No other call of the store writes a lock key. -/
theorem request_spares_locks {c : StoreCall} {script : Script GoString c.Answer}
    (request : r.request c = some script) (now : Int) (db : Keyspace GoString) (id : GoString) :
    (Redis.exec now script db).2 (r.lockKey id) = db.asOf now (r.lockKey id) := by
  apply run_untouched
  apply request_calls request
  · intro cmd reads target
    rw [reads] at target
    cases target
  · intro id' _ cmd k target named same
    exact r.lockKey_not_named named id (Option.some.inj (target.symm.trans same))
  · intro id' same
    exact r.lockKey_ne_sessKey id' id (Option.some.inj same)
  · intro id' _ cmd target same
    exact r.lockKey_ne_sessKey id' id (Option.some.inj (target.symm.trans same))

end Redis

/-! ## The two commands -/

section Commands

variable (now : Int) (db : Keyspace GoString) (key token : GoString)

theorem setNXCommand_cases (px : Option Int) :
    ((Redis.exec now (setNXCommand key token px) db).1 ≠ some (.ok true) ∧
      (Redis.exec now (setNXCommand key token px) db).2 = db.asOf now) ∨
    (db.asOf now key = none ∧ (Redis.exec now (setNXCommand key token px) db).2 =
      (db.asOf now).setText key token (px.map (millis now + ·))) := by
  unfold setNXCommand
  split_ifs with wrong
  · exact .inl ⟨by simp [Redis.exec, run], rfl⟩
  · cases held : db.asOf now key with
    | some e =>
        left
        simp [Redis.exec, run, Redis.call, Prog.perform, Cmd.raises, Cmd.demand, Cmd.ranged,
          Cmd.total, held]
    | none =>
        cases ranged : (Cmd.set key token px).ranged now with
        | false =>
            left
            simp [Redis.exec, run, Redis.call, Prog.perform, Cmd.raises, Cmd.demand, Cmd.total,
              held, ranged]
            simp [Cmd.ranged]
        | true =>
            right
            simp [Redis.exec, run, Redis.call, Prog.perform, Cmd.raises, Cmd.demand, Cmd.total,
              held, ranged]
            simp [Cmd.ranged]

theorem unlockScript_cases :
    (Redis.exec now (unlockScript key token) db).2 = db.asOf now ∨
    ((db.asOf now).text key = some token ∧
      (Redis.exec now (unlockScript key token) db).2 = (db.asOf now).remove key) := by
  have unfolded : unlockScript key token = Prog.call (.get key) fun text =>
      if text = some token then call (.del key) >>= fun _ => pure (.int 1)
      else pure (.int 0) := rfl
  simp only [unfolded, Redis.exec, run]
  split_ifs with raised mine
  · exact .inl rfl
  · exact .inr ⟨mine, rfl⟩
  · exact .inl rfl

end Commands

/-! ## One step at a lock key -/

inductive KeyStep (key : GoString) (s s' : LockServer) (d : LockDeed) (ran : Bool) : Prop
  | kept (same : s'.db key = s.db key ∨ s'.db key = s.db.asOf s'.time key)
      (refused : ∀ token ttl, d ≠ ⟨.setNX key token ttl, .ok true⟩)
  | won {token : GoString} {ttl : Duration} (call : d.1 = .setNX key token ttl)
      (free : s.db.asOf s'.time key = none)
      (created : s'.db key =
        some ⟨.string token, (setNXExpiry ttl).map (millis s'.time + ·)⟩)
  | removed {token : GoString} (call : d.1 = .evalUnlock key token)
      (held : (s.db.asOf s'.time).text key = some token) (gone : s'.db key = none)
      (reached : ran = true)

section Step

variable {r : Redis} {t : Nat} {s s' : LockServer} {ran : Bool}

theorem setNX_keyStep {key token : GoString} {ttl : Duration} {answer : Except StoreErr Bool}
    (reached : Reached s'.time s.db (setNXCommand key token (setNXExpiry ttl)) answer ran s'.db)
    (key' : GoString) : KeyStep key' s s' ⟨.setNX key token ttl, answer⟩ ran := by
  generalize after : s'.db = db' at reached
  cases reached with
  | never => exact .kept (.inl (congrFun after _)) fun token ttl same => by cases same
  | ran answered =>
      obtain ⟨refused, same⟩ | ⟨free, created⟩ :=
        setNXCommand_cases s'.time s.db key token (setNXExpiry ttl)
      · refine .kept (.inr (congrFun (after.trans same) _)) fun token' ttl' granted => ?_
        cases granted
        obtain wrong | replied := answered
        · cases wrong
        · cases result : (Redis.exec s'.time (setNXCommand key token (setNXExpiry ttl)) s.db).1 with
          | none =>
              rw [result] at replied
              cases replied
          | some value =>
              rw [result] at replied refused
              exact refused (congrArg some replied.symm)
      · by_cases here : key' = key
        · subst here
          refine .won rfl free ?_
          rw [after, created]
          exact Function.update_self _ _ _
        · refine .kept (.inr ?_) fun token' ttl' granted => ?_
          · rw [after, created, Keyspace.setText_of_ne here]
          · cases granted
            exact here rfl

theorem evalUnlock_keyStep {key token : GoString} {answer : Except StoreErr Unit}
    (reached : Reached s'.time s.db (Redis.errOf <$> unlockScript key token) answer ran s'.db)
    (key' : GoString) : KeyStep key' s s' ⟨.evalUnlock key token, answer⟩ ran := by
  generalize after : s'.db = db' at reached
  cases reached with
  | never => exact .kept (.inl (congrFun after _)) fun token ttl same => by cases same
  | ran answered =>
      rw [exec_map] at after
      obtain same | ⟨held, removed⟩ := unlockScript_cases s'.time s.db key token
      · refine .kept (.inr (congrFun (after.trans same) _)) fun token' ttl' granted => ?_
        cases granted
      · by_cases here : key' = key
        · subst here
          refine .removed rfl held ?_ rfl
          rw [after, removed]
          exact Function.update_self _ _ _
        · refine .kept (.inr ?_) fun token' ttl' granted => by cases granted
          rw [after, removed, Keyspace.remove_of_ne here]

theorem answered_keyStep {c : LockCall} {answer : c.Answer}
    (answered : LockAnswered r s s'.time c answer ran s'.db) (id : GoString) :
    KeyStep (r.lockKey id) s s' ⟨c, answer⟩ ran := by
  cases c with
  | randomRead => exact .kept (.inl (congrFun answered.2.2 _)) fun token ttl same => by cases same
  | setNX key token ttl => exact setNX_keyStep answered _
  | evalUnlock key token => exact evalUnlock_keyStep answered _
  | store c =>
      obtain ⟨-, same⟩ | ⟨script, request, -, same⟩ := answered
      · exact .kept (.inl (congrFun same _)) fun token ttl same => by cases same
      · refine .kept (.inr ?_) fun token ttl same => by cases same
        rw [same]
        exact r.request_spares_locks request _ _ id

end Step

/-! ## Acquisitions -/

def LockStamp.until (e : LockStamp) (ttl : Duration) : Option Int :=
  (setNXExpiry ttl).map (millis e.time + ·)

/-- An acquisition of `key` that is granted and not expired at the time `now`. -/
def LockStamp.grants (e : LockStamp) (key : GoString) (now : Int) : Bool :=
  match e.deed with
  | ⟨.setNX key' _ ttl, .ok true⟩ => key' = key && (e.until ttl).all (millis now ≤ ·)
  | _ => false

def LockStamp.releases (e : LockStamp) (key : GoString) : Bool :=
  match e.call with
  | .evalUnlock key' _ => key' = key && e.ran
  | _ => false

/-- The acquisition of `t` is granted, and at the time `now` neither expired nor released. -/
def HoldsLock (log : List LockStamp) (t : Nat) (key : GoString) (now : Int) : Prop :=
  (∃ e ∈ log, e.tid = t ∧ e.grants key now = true) ∧ ∀ e ∈ log, e.tid = t → e.releases key = false
  deriving Decidable

def Released (log : List LockStamp) (t : Nat) (key : GoString) : Prop :=
  ∃ e ∈ log, e.tid = t ∧ e.releases key = true

theorem LockStamp.grants_iff {e : LockStamp} {key : GoString} {now : Int} :
    e.grants key now = true ↔ ∃ token ttl, e.deed = ⟨.setNX key token ttl, .ok true⟩ ∧
      (e.until ttl).all (millis now ≤ ·) = true := by
  constructor
  · intro grants
    unfold LockStamp.grants at grants
    split at grants
    · rename_i key' token ttl deed
      simp only [Bool.and_eq_true, decide_eq_true_eq] at grants
      obtain ⟨rfl, unexpired⟩ := grants
      exact ⟨token, ttl, deed, unexpired⟩
    · cases grants
  · rintro ⟨token, ttl, deed, unexpired⟩
    simp [LockStamp.grants, deed, unexpired]

/-- The acquisition of `t` put the entry under a free key, and it has been there since. -/
def Created (log : List LockStamp) (key : GoString) (entry : Entry GoString) (t : Nat) : Prop :=
  ∃ newer e older token ttl, log = newer ++ e :: older ∧ e.tid = t ∧
    e.call = .setNX key token ttl ∧ entry.value = .string token ∧
    e.before.asOf e.time key = none ∧ e.after key = some entry ∧
    ∀ e' ∈ newer, e'.after key = some entry

/-- An unlock that removes an entry removes that of its own acquisition. -/
def Unlocks (log : List LockStamp) (key : GoString) : Prop :=
  ∀ newer e older token entry, log = newer ++ e :: older → e.call = .evalUnlock key token →
    e.before.asOf e.time key = some entry → e.after key ≠ some entry →
    Created older key entry e.tid

def Drew (log : List LockStamp) (t : Nat) (token : GoString) : Prop :=
  ∃ d ∈ log, d.tid = t ∧ d.deed.drawn = some token

structure LockInv (r : Redis) (s : LockServer) : Prop where
  distinct : ∀ {t u token}, Drew s.log t token → Drew s.log u token → t = u
  tokens : ∀ {e key token ttl}, e ∈ s.log → e.call = .setNX key token ttl → Drew s.log e.tid token
  entry : ∀ id entry, s.db (r.lockKey id) = some entry → ∃ t, Created s.log (r.lockKey id) entry t
  held : ∀ {e id token ttl}, e ∈ s.log → e.deed = ⟨.setNX (r.lockKey id) token ttl, .ok true⟩ →
    Released s.log e.tid (r.lockKey id) ∨ (e.until ttl).all (millis s.time ≤ ·) = false ∨
      s.db (r.lockKey id) = some ⟨.string token, e.until ttl⟩
  unlocks : ∀ id, Unlocks s.log (r.lockKey id)

section Logs

variable {log : List LockStamp} {t : Nat} {key token : GoString} {entry : Entry GoString}

theorem Drew.cons (drew : Drew log t token) (e : LockStamp) : Drew (e :: log) t token := by
  obtain ⟨d, member, rest⟩ := drew
  exact ⟨d, List.mem_cons_of_mem e member, rest⟩

theorem Released.cons (released : Released log t key) (e : LockStamp) :
    Released (e :: log) t key := by
  obtain ⟨e', member, rest⟩ := released
  exact ⟨e', List.mem_cons_of_mem e member, rest⟩

theorem Created.cons (created : Created log key entry t) {e : LockStamp}
    (still : e.after key = some entry) : Created (e :: log) key entry t := by
  obtain ⟨newer, e', older, token, ttl, rfl, mine, call, value, free, after, since⟩ := created
  refine ⟨e :: newer, e', older, token, ttl, rfl, mine, call, value, free, after, ?_⟩
  intro e'' member
  obtain rfl | earlier := List.mem_cons.mp member
  · exact still
  · exact since e'' earlier

theorem Created.owner {r : Redis} {s : LockServer} (inv : LockInv r s)
    (created : Created s.log key entry t) {u : Nat} (value : entry.value = .string token)
    (drew : Drew s.log u token) : u = t := by
  obtain ⟨newer, e, older, token', ttl, split, rfl, call, value', -⟩ := created
  have same : token = token' := by
    rw [value] at value'
    exact Value.string.inj value'
  subst same
  have logged : e ∈ s.log := by simp [split]
  exact inv.distinct drew (inv.tokens logged call)

end Logs

/-! ## One step -/

section Inv

variable {r : Redis} {t : Nat} {s s' : LockServer} {c : LockCall} {answer : c.Answer}

theorem drawn_fresh {ran : Bool} {db : Keyspace GoString} {time : Int}
    (answered : LockAnswered r s time c answer ran db) {token : GoString}
    (drawn : LockDeed.drawn ⟨c, answer⟩ = some token) (u : Nat) : ¬ Drew s.log u token := by
  rintro ⟨d, member, -, earlier⟩
  cases c with
  | randomRead =>
      cases answer with
      | none => cases drawn
      | some buf =>
          cases drawn
          exact (answered.1 buf rfl).2 (List.mem_filterMap.mpr ⟨d, member, earlier⟩)
  | _ => cases drawn

theorem unexpired_mono {expiry : Option Int} {now now' : Int} (le : now ≤ now')
    (unexpired : expiry.all (millis now' ≤ ·) = true) : expiry.all (millis now ≤ ·) = true := by
  rw [Option.all_eq_true] at unexpired ⊢
  intro instant due
  have later : millis now ≤ millis now' := Int.ediv_le_ediv (by decide) le
  exact decide_eq_true (later.trans (of_decide_eq_true (unexpired instant due)))

theorem expired_of_asOf {db : Keyspace GoString} {key : GoString} {entry : Entry GoString}
    (held : db key = some entry) (now : Int) :
    db.asOf now key = some entry ∨ entry.expiry.all (millis now ≤ ·) = false := by
  cases unexpired : entry.expiry.all (millis now ≤ ·) with
  | true => exact .inl (Keyspace.asOf_eq_some.mpr ⟨held, unexpired⟩)
  | false => exact .inr rfl

theorem entry_of_text {db : Keyspace GoString} {key token : GoString}
    (text : db.text key = some token) : ∃ entry, db key = some entry ∧ entry.value = .string token := by
  obtain ⟨entry, found, text⟩ := Option.bind_eq_some_iff.mp text
  refine ⟨entry, found, ?_⟩
  cases value : entry.value with
  | string text' =>
      rw [value] at text
      exact congrArg Value.string (Option.some.inj text)
  | _ =>
      rw [value] at text
      cases text

variable (inv : LockInv r s) (step : lockServe r t s c answer s')
  (drew : ∀ key token, c = .evalUnlock key token ∨ (∃ ttl, c = .setNX key token ttl) →
    Drew s.log t token)

include inv step

theorem step_distinct {u v : Nat} {token : GoString} (first : Drew s'.log u token)
    (second : Drew s'.log v token) : u = v := by
  obtain ⟨-, ran, answered, log⟩ := step
  rw [log] at first second
  have fresh : LockDeed.drawn ⟨c, answer⟩ = some token → ∀ u, ¬ Drew s.log u token :=
    drawn_fresh answered
  obtain ⟨d, member, rfl, drawn⟩ := first
  obtain ⟨d', member', rfl, drawn'⟩ := second
  obtain rfl | old := List.mem_cons.mp member
  · obtain rfl | old' := List.mem_cons.mp member'
    · rfl
    · exact absurd ⟨d', old', rfl, drawn'⟩ (fresh drawn _)
  · obtain rfl | old' := List.mem_cons.mp member'
    · exact absurd ⟨d, old, rfl, drawn⟩ (fresh drawn' _)
    · exact inv.distinct ⟨d, old, rfl, drawn⟩ ⟨d', old', rfl, drawn'⟩

theorem step_entry {id : GoString} {entry : Entry GoString}
    (found : s'.db (r.lockKey id) = some entry) :
    ∃ u, Created s'.log (r.lockKey id) entry u := by
  obtain ⟨-, ran, answered, log⟩ := step
  rw [log]
  cases answered_keyStep answered id with
  | kept same refused =>
      have before : s.db (r.lockKey id) = some entry := by
        obtain same | same := same
        · exact same.symm.trans found
        · exact (Keyspace.asOf_eq_some.mp (same.symm.trans found)).1
      obtain ⟨u, created⟩ := inv.entry id entry before
      exact ⟨u, created.cons found⟩
  | won call free created =>
      cases found.symm.trans created
      exact ⟨t, [], _, s.log, _, _, rfl, rfl, call, rfl, free, created, by simp⟩
  | removed call held gone reached =>
      rw [gone] at found
      cases found

include drew

theorem step_held {e : LockStamp} {id token : GoString} {ttl : Duration} (member : e ∈ s'.log)
    (granted : e.deed = ⟨.setNX (r.lockKey id) token ttl, .ok true⟩) :
    Released s'.log e.tid (r.lockKey id) ∨ (e.until ttl).all (millis s'.time ≤ ·) = false ∨
      s'.db (r.lockKey id) = some ⟨.string token, e.until ttl⟩ := by
  obtain ⟨later, ran, answered, log⟩ := step
  have keyStep := answered_keyStep answered id
  rw [log] at member ⊢
  obtain rfl | old := List.mem_cons.mp member
  · -- The acquisition is the step itself.
    right
    right
    cases keyStep with
    | kept same refused => exact absurd granted (refused token ttl)
    | won call free created =>
        have same : LockCall.setNX _ _ _ = LockCall.setNX _ _ _ :=
          call.symm.trans (congrArg Sigma.fst granted)
        cases same
        exact created
    | removed call held gone reached =>
        cases call.symm.trans (congrArg Sigma.fst granted)
  · obtain released | expired | held := inv.held old granted
    · exact .inl (released.cons _)
    · refine .inr (.inl ?_)
      by_contra unexpired
      rw [unexpired_mono later (by simpa using unexpired)] at expired
      cases expired
    · cases keyStep with
      | kept same refused =>
          obtain same | same := same
          · exact .inr (.inr (same.trans held))
          · obtain still | expired := expired_of_asOf held s'.time
            · exact .inr (.inr (same.trans still))
            · exact .inr (.inl expired)
      | won call free created =>
          obtain still | expired := expired_of_asOf held s'.time
          · rw [free] at still
            cases still
          · exact .inr (.inl expired)
      | removed call text gone reached =>
          -- The unlock has the token of the entry, so it is that of the acquisition.
          obtain ⟨entry, found, value⟩ := entry_of_text text
          cases held.symm.trans (Keyspace.asOf_eq_some.mp found).1
          cases value
          have mine := inv.distinct (drew _ _ (.inl call))
            (inv.tokens old (congrArg Sigma.fst granted))
          refine .inl ⟨_, List.mem_cons_self, mine, ?_⟩
          cases call
          simpa [LockStamp.releases] using reached

theorem step_unlocks (id : GoString) : Unlocks s'.log (r.lockKey id) := by
  obtain ⟨-, ran, answered, log⟩ := step
  have keyStep := answered_keyStep answered id
  rw [log]
  intro newer e older token entry split call before after
  cases newer with
  | cons e' newer =>
      obtain ⟨-, split⟩ := List.cons.inj split
      exact inv.unlocks id newer e older token entry split call before after
  | nil =>
      obtain ⟨rfl, rfl⟩ := List.cons.inj split
      dsimp only at before after
      have found : s.db (r.lockKey id) = some entry := (Keyspace.asOf_eq_some.mp before).1
      cases keyStep with
      | kept same refused =>
          obtain same | same := same
          · exact absurd (same.trans found) after
          · exact absurd (same.trans before) after
      | won call' free created =>
          cases call'.symm.trans call
      | removed call' text gone reached =>
          obtain ⟨entry', found', value⟩ := entry_of_text text
          cases before.symm.trans found'
          obtain ⟨u, created⟩ := inv.entry id entry found
          have mine := created.owner inv value (drew _ _ (.inl call'))
          rw [← mine] at created
          exact created

theorem lockInv_step : LockInv r s' where
  distinct := step_distinct inv step
  tokens := by
    intro e key token ttl member call
    obtain ⟨-, ran, -, log⟩ := step
    rw [log] at member ⊢
    obtain rfl | old := List.mem_cons.mp member
    · exact (drew key token (.inr ⟨ttl, call⟩)).cons _
    · exact (inv.tokens old call).cons _
  entry := fun id entry => step_entry inv step
  held := step_held inv step drew
  unlocks := step_unlocks inv step drew

end Inv

/-! ## Runs -/

def UsesOwn (past : List LockDeed) : LockCall → Prop
  | .setNX _ token _ | .evalUnlock _ token => ∃ d ∈ past, LockDeed.drawn d = some token
  | _ => True

def LockHistory.step (past : List LockDeed) (c : LockCall) (answer : c.Answer)
    (past' : List LockDeed) : Prop :=
  past' = ⟨c, answer⟩ :: past

def lockHistories (r : Redis) : View (lockServe r) (LockInv r) (List LockDeed) where
  own := LockServer.own
  start _ := []
  step := LockHistory.step
  mine := by
    intro t s c answer s' _ step
    obtain ⟨-, ran, -, log⟩ := step
    simp [LockHistory.step, LockServer.own, log]
  others := by
    intro t u s c answer s' step other
    obtain ⟨-, ran, -, log⟩ := step
    simp [LockServer.own, log, other]

abbrev KeepsToOwn {α : Type} (p : LockCall.Client α) (past : List LockDeed) : Prop :=
  p.Wp LockHistory.step UsesOwn (fun _ _ => True) past

theorem unlockTimes_keepsToOwn {r : Redis} {id token : GoString} (n : Nat) {past : List LockDeed}
    (drew : ∃ d ∈ past, LockDeed.drawn d = some token) :
    KeepsToOwn (LockClient.unlockTimes r id token n) past := by
  induction n generalizing past with
  | zero => trivial
  | succ n ih =>
      refine ⟨drew, fun answer past' heard => ?_⟩
      obtain rfl := heard
      obtain ⟨d, member, drawn⟩ := drew
      exact ih ⟨d, List.mem_cons_of_mem _ member, drawn⟩

theorem client_keepsToOwn (r : Redis) (client : LockClient) : KeepsToOwn (client.prog r) [] := by
  cases client with
  | other c => exact ⟨trivial, fun _ _ _ => trivial⟩
  | locker id ttl unlocks =>
      refine ⟨trivial, fun buf past heard => ?_⟩
      obtain rfl := heard
      cases buf with
      | none => trivial
      | some buf =>
          have drew : ∃ d ∈ ([⟨.randomRead, some buf⟩] : List LockDeed),
              LockDeed.drawn d = some (hexEncode buf) := ⟨_, List.mem_cons_self, rfl⟩
          refine ⟨drew, fun granted past heard => ?_⟩
          obtain rfl := heard
          obtain ⟨d, member, drawn⟩ := drew
          match granted with
          | .error e => trivial
          | .ok false => trivial
          | .ok true => exact unlockTimes_keepsToOwn unlocks ⟨d, List.mem_cons_of_mem _ member, drawn⟩

theorem mem_own_lock {s : LockServer} {t : Nat} {d : LockDeed} :
    d ∈ s.own t ↔ ∃ e ∈ s.log, e.tid = t ∧ e.deed = d := by
  simp [LockServer.own, and_assoc]

theorem lockInv_initial (r : Redis) : LockInv r {} where
  distinct := by
    rintro t u token ⟨d, member, -⟩
    cases member
  tokens := by
    intro e key token ttl member
    cases member
  entry := by
    intro id entry found
    cases found
  held := by
    intro e id token ttl member
    cases member
  unlocks := by
    intro id newer e older token entry split
    cases newer <;> cases split

variable {r : Redis} {client : Nat → LockClient} {c : Config LockCall LockCall.Answer LockServer Unit}

theorem lockInv_reaches (run : (lockers r client).Reaches (.initial {}) c) : LockInv r c.state := by
  have good : Good (lockers r client) (lockHistories r) (fun _ => UsesOwn) (fun _ _ _ => True) c := by
    refine (Good.initial (lockInv_initial r) fun t => rfl).reaches ?_ ?_ ?_ run
    · exact fun {t s} _ => client_keepsToOwn r (client t)
    · exact fun _ ready => ready
    · intro t s c answer s' inv _ uses step
      refine lockInv_step inv step ?_
      rintro key token (rfl | ⟨ttl, rfl⟩)
      all_goals
        obtain ⟨d, mine, drawn⟩ := uses
        obtain ⟨e, member, same, rfl⟩ := mem_own_lock.mp mine
        exact ⟨e, member, same, drawn⟩
  exact good.inv

/-- At most one acquisition of a session lock is granted, unexpired and unreleased at any time, and
an unlock never removes the entry of another acquisition. -/
theorem session_lock_is_safe (run : (lockers r client).Reaches (.initial {}) c) (id : GoString) :
    (∀ now, c.state.time ≤ now → ∀ t u, HoldsLock c.state.log t (r.lockKey id) now →
      HoldsLock c.state.log u (r.lockKey id) now → t = u) ∧
    Unlocks c.state.log (r.lockKey id) := by
  have inv := lockInv_reaches run
  have inEntry : ∀ {now t}, c.state.time ≤ now → HoldsLock c.state.log t (r.lockKey id) now →
      ∃ entry token, c.state.db (r.lockKey id) = some entry ∧ entry.value = .string token ∧
        Drew c.state.log t token := by
    rintro now t later ⟨⟨e, logged, rfl, grants⟩, unreleased⟩
    obtain ⟨token, ttl, granted, unexpired⟩ := LockStamp.grants_iff.mp grants
    obtain ⟨e', logged', mine, releases⟩ | expired | held := inv.held logged granted
    · rw [unreleased e' logged' mine] at releases
      cases releases
    · rw [unexpired_mono later unexpired] at expired
      cases expired
    · exact ⟨_, token, held, rfl, inv.tokens logged (congrArg Sigma.fst granted)⟩
  refine ⟨fun now later t u holds holds' => ?_, inv.unlocks id⟩
  obtain ⟨entry, token, found, value, drew⟩ := inEntry later holds
  obtain ⟨entry', token', found', value', drew'⟩ := inEntry later holds'
  cases found.symm.trans found'
  cases value.symm.trans value'
  exact inv.distinct drew drew'

/-! ## A schedule -/

abbrev LockConfig := Config LockCall LockCall.Answer LockServer Unit

def LockServer.record (s : LockServer) (time : Int) (t : Nat) (c : LockCall) (answer : c.Answer)
    (ran : Bool) (db : Keyspace GoString) : c.Answer × LockServer :=
  (answer, { db, time, log := ⟨t, ⟨c, answer⟩, time, ran, s.db, db⟩ :: s.log })

def lockAttend (time : Int) (t : Nat) (c : LockCall) (s : LockServer) :
    Option (c.Answer × LockServer) :=
  match c with
  | .randomRead =>
      let buf := List.replicate 16 (UInt8.ofNat s.log.length)
      if hexEncode buf ∈ s.tokens then none else some (s.record time t .randomRead (some buf) false s.db)
  | .setNX key token ttl =>
      let (result, db) := Redis.exec time (setNXCommand key token (setNXExpiry ttl)) s.db
      some (s.record time t (.setNX key token ttl) (result.getD (.error .fault)) true db)
  | .evalUnlock key token =>
      let (result, db) := Redis.exec time (Redis.errOf <$> unlockScript key token) s.db
      some (s.record time t (.evalUnlock key token) (result.getD (.error .fault)) true db)
  | .store _ => none

theorem lockAttend_serves {time : Int} {t : Nat} {c : LockCall} {s s' : LockServer}
    {answer : c.Answer} (later : s.time ≤ time)
    (attended : lockAttend time t c s = some (answer, s')) : lockServe r t s c answer s' := by
  cases c with
  | randomRead =>
      simp only [lockAttend] at attended
      split_ifs at attended with known
      cases attended
      refine ⟨later, false, ⟨?_, rfl, rfl⟩, rfl⟩
      rintro buf ⟨⟩
      exact ⟨List.length_replicate, known⟩
  | setNX key token ttl =>
      cases attended
      exact ⟨later, true, .ran (.inr rfl), rfl⟩
  | evalUnlock key token =>
      cases attended
      exact ⟨later, true, .ran (.inr rfl), rfl⟩
  | store c => cases attended

def lockMove (r : Redis) (client : Nat → LockClient) (c : LockConfig) (time : Int) (t : Nat) :
    Option LockConfig :=
  match c.thread t with
  | none => some { c with thread := Function.update c.thread t (some ((client t).prog r)) }
  | some (.ret _) => none
  | some (.call request next) =>
      if c.state.time ≤ time then
        (lockAttend time t request c.state).map fun (answer, s') =>
          ⟨s', Function.update c.thread t (some (next answer))⟩
      else none

theorem lockMove_step {c c' : LockConfig} {time : Int} {t : Nat}
    (moved : lockMove r client c time t = some c') : (lockers r client).Step c c' := by
  unfold lockMove at moved
  split at moved
  · rename_i idle
    cases moved
    exact .start t idle trivial
  · cases moved
  · rename_i request next running
    split_ifs at moved with later
    obtain ⟨⟨answer, s'⟩, attended, rfl⟩ := Option.map_eq_some_iff.mp moved
    exact .act t running (lockAttend_serves later attended)

def lockPlay (r : Redis) (client : Nat → LockClient) (c : LockConfig) (moves : List (Int × Nat)) :
    Option LockConfig :=
  moves.foldlM (fun c move => lockMove r client c move.1 move.2) c

theorem lockPlay_reaches {c c' : LockConfig} {moves : List (Int × Nat)}
    (played : lockPlay r client c moves = some c') : (lockers r client).Reaches c c' := by
  induction moves generalizing c with
  | nil =>
      cases played
      exact .refl
  | cons move moves ih =>
      rw [lockPlay, List.foldlM_cons] at played
      obtain ⟨mid, moved, rest⟩ := Option.bind_eq_some_iff.mp played
      exact .head (lockMove_step moved) (ih rest)

def lateUnlock : Option LockConfig :=
  lockPlay ⟨lit "gs:"⟩ (fun _ => .locker (lit "a") (5 * second) 1) (.initial {})
    [(0, 0), (0, 0), (0, 0), (0, 1), (0, 1), (6000000, 1), (6000000, 0)]

theorem late_unlock_is_safe : ∃ c : LockConfig,
    (lockers ⟨lit "gs:"⟩ fun _ => .locker (lit "a") (5 * second) 1).Reaches (.initial {}) c ∧
    (c.state.log.head?.any fun e => e.tid = 0 && e.releases (lit "gs:lock:a")) = true ∧
    HoldsLock c.state.log 1 (lit "gs:lock:a") c.state.time ∧
    ∀ u, HoldsLock c.state.log u (lit "gs:lock:a") c.state.time → u = 1 := by
  have ends : (lateUnlock.any fun c =>
      (c.state.log.head?.any fun e => e.tid = 0 && e.releases (lit "gs:lock:a")) &&
        decide (HoldsLock c.state.log 1 (lit "gs:lock:a") c.state.time)) = true := by
    decide +kernel
  obtain ⟨c, played, facts⟩ := (Option.any_eq_true _ _).mp ends
  rw [Bool.and_eq_true, decide_eq_true_eq] at facts
  have run := lockPlay_reaches played
  refine ⟨c, run, facts.1, facts.2, fun u holds => ?_⟩
  exact (session_lock_is_safe run (lit "a")).1 c.state.time le_rfl u 1 holds facts.2

end Gosestor.Store
