import Gosestor.Proof.Handler.Atomicity
import Gosestor.Proof.Handler.Logout
import Gosestor.Proof.Handler.ProxyCookie

/-!
# The key the client is left with

A request is handled alone, with store calls that may fail without effect. The client that presented
the key of a live session keeps it, or holds the key that replaced it, or was logged out; a key it
is given for a new session leads to that session.
-/

namespace Gosestor

open Gosestor.Go Gosestor.Lib Gosestor.Session Gosestor.Store

/-! ## The key table behind the effects -/

/-- What a successful call does to the key table; only the owner's revocation reads more than that.
-/
def Store.StoreCall.onKeys : StoreCall → GoMap GoString GoString → GoMap GoString GoString
  | .putKey keyID sessionID _, keys => keys.set keyID sessionID
  | .applySessionControls id c _ _, keys =>
      if c.rotate then (keys.set c.newKeyID id).delete c.oldKeyID else keys
  | .rotateSessionKey id oldKeyID newKeyID _ _, keys => (keys.set newKeyID id).delete oldKeyID
  | .deleteSession id, keys => keys.deleteIf fun _ sid => sid == id
  | _, keys => keys

def Store.StoreCall.byOwner : StoreCall → Bool
  | .deleteSessionByOwner _ _ => true
  | _ => false

theorem applySessionControls_onKeys {m : Memory} {id : GoString} {c : SessionControls}
    (done : (m.applySessionControls id c).1 = .ok ()) :
    (m.applySessionControls id c).2.keys =
      if c.rotate then (m.keys.set c.newKeyID id).delete c.oldKeyID else m.keys := by
  obtain ⟨-, e, failed⟩ | ⟨s, -, -, -, committed⟩ := Memory.applySessionControls_cases m id c
  · cases failed.symm.trans done
  · rw [committed]
    exact Memory.commit_keys m id s c

theorem ok_of_reorder {order : List GoString} {c : StoreCall} {answer : c.Answer} {value : c.Value}
    (ordered : reorder order c answer = some (.ok value)) : ∃ value', answer = .ok value' := by
  cases answer with
  | ok value' => exact ⟨value', rfl⟩
  | error e => cases (reorder_error order c e).symm.trans ordered

theorem perform_onKeys {m : Memory} {c : StoreCall} {value : c.Value}
    (done : (m.perform c).1 = .ok value) (known : c.byOwner = false) :
    (m.perform c).2.keys = if c.changes then c.onKeys m.keys else m.keys := by
  cases c with
  | deleteSessionByOwner owner id => cases known
  | touchSession id keyID lastAccess legacy ttl =>
      simp only [Memory.perform, Memory.touchSession]
      split
      · rfl
      · split_ifs <;> rfl
  | applySessionControls id c sessionTTL ownerTTL => exact applySessionControls_onKeys done
  | rotateSessionKey id oldKeyID newKeyID lastRotation ttl =>
      exact applySessionControls_onKeys (c := { lastRotation, oldKeyID, newKeyID, rotate := true })
        done
  | putKey keyID sessionID ttl =>
      by_cases absent : m.sessions.get sessionID = none
      · simp [Memory.perform, Memory.putKey, absent] at done
      · simp [Memory.perform, Memory.putKey, absent, StoreCall.changes, StoreCall.onKeys]
  | lock id ttl =>
      simp only [Memory.perform, Memory.lock]
      split_ifs <;> rfl
  | _ => rfl

theorem served_onKeys {m m' : Memory} {d : Deed} (served : Served cleanFaults m m' d)
    (known : ∀ sc, d.effect = some sc → sc.byOwner = false) :
    m'.keys = d.effect.elim m.keys fun sc => sc.onKeys m.keys := by
  obtain ⟨c, r⟩ := d
  cases c with
  | store sc =>
      cases r with
      | error e =>
          rw [refused served]
          rfl
      | ok value =>
          obtain ⟨order, answered, rfl⟩ | ⟨failed, -⟩ := served
          · obtain ⟨value', done⟩ := ok_of_reorder answered
            have known : sc.byOwner = false := by
              cases changes : sc.changes with
              | true => exact known sc (effect_ok changes)
              | false => cases sc <;> first | rfl | cases changes
            rw [perform_onKeys done known, Deed.effect]
            split_ifs <;> rfl
          · cases failed
  | _ => exact congrArg Memory.keys served

theorem run_onKeys {α : Type} {t : Nat} {p : Act α} {w w' : World} {a : α}
    (run : p.Run (exec cleanFaults t) w a w') : ∃ new, own t w' = new ++ own t w ∧
      ((∀ sc ∈ effects new, sc.byOwner = false) →
        w'.mem.keys = (effects new).foldr StoreCall.onKeys w.mem.keys) := by
  induction run with
  | ret value w => exact ⟨[], rfl, fun _ => rfl⟩
  | @call c next w w₁ w' r a taken rest ih =>
      obtain ⟨new, grown, keys⟩ := ih
      refine ⟨new ++ [⟨c, r⟩], by rw [grown, exec_own taken, List.append_assoc]; rfl, fun known => ?_⟩
      have last : effects [⟨c, r⟩] = (Deed.effect ⟨c, r⟩).toList := by
        cases effect : Deed.effect ⟨c, r⟩ with
        | none => simp [effects, effect]
        | some sc => simp [effects, effect]
      rw [effects_append, last] at known ⊢
      rw [List.foldr_append, keys fun sc member => known sc (List.mem_append_left _ member),
        served_onKeys (exec_served taken) fun sc effect => known sc (by simp [effect])]
      cases Deed.effect ⟨c, r⟩ <;> rfl

theorem run_first {α : Type} {t : Nat} {p : Act α} {w w' : World} {a : α}
    (run : p.Run (exec cleanFaults t) w a w') {d : Deed} (begins : d :: own t w <:+ own t w') :
    ∃ m, Served cleanFaults w.mem m d := by
  obtain ⟨newer, history⟩ := begins
  cases run with
  | ret value w =>
      have longer := congrArg List.length history
      simp only [List.length_append, List.length_cons] at longer
      omega
  | @call c next w w₁ w' r a taken rest =>
      obtain ⟨new, grown, -⟩ := run_onKeys rest
      rw [exec_own taken, ← history] at grown
      obtain ⟨-, same⟩ := List.append_inj' grown rfl
      cases same
      exact ⟨w₁.mem, exec_served taken⟩

/-- From `w₀` on, nobody but program `t` has run, and it is new. -/
structure RanAlone (t : Nat) (w₀ w : World) : Prop where
  before : Inv anyFaults w₀
  after : Inv anyFaults w
  new : own t w₀ = []
  grows : ∀ u, own u w₀ ⊆ own u w
  first : ∀ {d}, [d] <:+ own t w → ∃ m, Served cleanFaults w₀.mem m d
  keys : (∀ sc ∈ effects (own t w), sc.byOwner = false) →
    w.mem.keys = (effects (own t w)).foldr StoreCall.onKeys w₀.mem.keys

theorem ranAlone {α : Type} {t : Nat} {w w' : World} {p : Act α} {post : α → History → Prop}
    {may : History → Call → Prop} (proper : ∀ {past c}, may past c → Proper past c)
    (inv : Inv anyFaults w) (new : own t w = []) (obeys : Obeys may post p []) {a : α}
    (run : p.Run (exec cleanFaults t) w a w') : RanAlone t w w' ∧ post a (own t w') := by
  rw [← new] at obeys
  obtain ⟨inv', done, untouched⟩ := runs_alone proper inv obeys run
  obtain ⟨calls, grown, keys⟩ := run_onKeys run
  rw [new, List.append_nil] at grown
  subst grown
  refine ⟨⟨inv, inv', new, untouched.grows, fun begins => run_first run ?_, keys⟩, done⟩
  rw [new]
  exact begins

theorem RanAlone.minted_ne {t : Nat} {w₀ w : World} (ran : RanAlone t w₀ w) {key key' : GoString}
    (held : w₀.mem.keys.get key ≠ none) (minted : Minted (own t w) key') : key' ≠ key := by
  rintro rfl
  obtain ⟨u, used⟩ := ran.before.keyUsed held
  have earlier : Minted (own u w₀) key' := ran.before.settled u key' (.inl used)
  have same : t = u := ran.after.mintedOnce minted (earlier.mono (ran.grows u))
  subst same
  rw [ran.new] at earlier
  obtain ⟨d, member, -⟩ := earlier
  cases member

theorem Only.effectless {P : Call → Prop} {new : History} (only : Only P new)
    (aside : ∀ sc, ¬ P (.store sc)) : effects new = [] := by
  refine List.filterMap_eq_nil_iff.mpr fun d member => ?_
  have allowed := only d member
  obtain ⟨c, r⟩ := d
  cases c with
  | store sc => exact absurd allowed (aside sc)
  | _ => rfl

theorem Staging.ne_hijack {c : Call} (staging : Staging c) : c ≠ .hijack := by
  rintro rfl
  exact staging

theorem Session.Resolves.ne_hijack {c : Call} (resolves : Resolves c) : c ≠ .hijack := by
  rintro rfl
  exact resolves

theorem Declining.ne_hijack {hdr : Header} {c : Call} (declining : Declining hdr c) :
    c ≠ .hijack := by
  obtain (staging | rfl) | ⟨err, left, rfl⟩ := declining
  · exact staging.ne_hijack
  · exact fun same => by cases same
  · exact fun same => by cases same

/-! ## What is sent of the key -/

/-- A header block with `line` was sent, under any spelling of the field's name. -/
def SendsLine (past : History) (line : GoString) : Prop :=
  ∃ status hdr, (⟨.writeHeader status hdr, ()⟩ : Deed) ∈ past ∧ line ∈ hdr.received setCookieName

/-- The final header block has `line`. -/
def CarriesLine (past : History) (line : GoString) : Prop :=
  ∃ status hdr, (⟨.writeHeader status hdr, ()⟩ : Deed) ∈ past ∧
    Writer.informational status = false ∧ line ∈ hdr.values setCookieName

theorem SendsLine.append {new old : History} {line : GoString} (sends : SendsLine (new ++ old) line) :
    SendsLine new line ∨ SendsLine old line := by
  obtain ⟨status, hdr, member, found⟩ := sends
  exact (List.mem_append.mp member).imp (fun member => ⟨status, hdr, member, found⟩)
    fun member => ⟨status, hdr, member, found⟩

theorem SendsLine.cons {c : Call} {r : c.Answer} {past : History} {line : GoString}
    (sends : SendsLine (⟨c, r⟩ :: past) line) (other : ∀ status hdr, c ≠ .writeHeader status hdr) :
    SendsLine past line := by
  obtain ⟨status, hdr, member, found⟩ := sends
  obtain same | member := List.mem_cons.mp member
  · cases same
    exact absurd rfl (other status hdr)
  · exact ⟨status, hdr, member, found⟩

theorem Only.unsent {P : Call → Prop} {past : History} (only : Only P past)
    (aside : ∀ status hdr, P (.writeHeader status hdr) → hdr.received setCookieName = [])
    {line : GoString} : ¬ SendsLine past line := by
  rintro ⟨status, hdr, member, found⟩
  rw [aside status hdr (only _ member)] at found
  cases found

namespace Exchange

variable (x : Exchange)

/-- The client is told to store `key` under the name of the proxy cookie, and not by what stood in the
header before the handler was called. -/
def Emits (past : History) (key : GoString) : Prop :=
  ∃ line cookie, SendsLine past line ∧ line ∉ x.outer.received setCookieName ∧
    parseSetCookie x.handler.parseTime line = some cookie ∧
    cookie.name = x.handler.cookie.name ∧ cookie.value = key

/-- The backend's response has the revoke signal. -/
def RequestsRevocation (past : History) : Prop :=
  ∃ left, (⟨.returned none left, ()⟩ : Deed) ∈ past ∧ x.handler.revokeEnabled = true ∧
    ∃ raw ∈ (x.handler.scrubTrailers left).values x.handler.revokeHeaderName,
      parseBool raw = some true

/-- The exchange sent no line of its own, and left the session it was made under alone. -/
structure Mute (p : Handler.Presented) (resolved past : History) : Prop where
  effect : ∃ calls, effects past = calls ++ effects resolved ∧ (p.live.isSome → calls = [])
  silent : ∀ line, SendsLine past line → line ∈ x.outer.received setCookieName

/-- The exchange processed the response and sent it. -/
structure Spoken (p : Handler.Presented) (resolved past : History) : Prop where
  does : ∃ asked extra calls,
    Interceptor.SessionEffect x.handler asked p.hadProxyCookie p.live past (.ok ()) extra calls ∧
    effects past = calls ++ effects resolved ∧ (asked = true → x.RequestsRevocation past) ∧
    (∀ line, SendsLine past line → x.handler.forwarded line ∨ extra = some line) ∧
    ∀ line, extra = some line → CarriesLine past line

variable {x}

theorem not_staging_store (sc : StoreCall) : ¬ Staging (.store sc) := id

theorem Staging.unsent {past : History} (only : Only Staging past) {line : GoString} :
    ¬ SendsLine past line := only.unsent fun _ _ staging => staging.elim

theorem Resolving.unsent {p : Handler.Presented} {past : History} {r : Request}
    (resolving : x.Resolving p past) {line : GoString} : ¬ SendsLine (⟨.next r, ()⟩ :: past) line :=
  resolving.preliminary.unsent fun _ _ early => absurd early not_preliminary_writeHeader

theorem Completed.requests {p : Handler.Presented} {ic : Interceptor} {past new : History}
    (completed : x.Completed p ic past)
    (asked : (ic.readRevoke x.handler).revokeRequested = true) (suffix : past <:+ new) :
    x.RequestsRevocation new := by
  obtain ⟨newer, rfl⟩ := suffix
  obtain ⟨resolved, staged, new', r, -, rfl, -, -⟩ := completed.history
  simp only [Interceptor.readRevoke, completed.unasked, Bool.false_or, Bool.and_eq_true,
    List.any_eq_true, decide_eq_true_eq] at asked
  exact ⟨ic.responseHeader, by simp, asked.1, asked.2⟩

theorem Denial.lines {status : Int} {hdr : Header} (denial : x.Denial status hdr)
    (outer : Canonical x.outer) :
    hdr.received setCookieName = x.outer.received setCookieName := by
  rw [outer.received]
  obtain ⟨-, value, rfl | rfl⟩ := denial
  · rw [(outer.set _ _).received]
    refine Header.values_of_get ?_
    rw [Header.get_set, if_neg (by decide)]
  · rw [(outer.set _ _).received]
    refine Header.values_of_get ?_
    rw [Header.get_set, if_neg (by decide)]

theorem Declining.unsent {past : History} (outer : Canonical x.outer)
    (only : Only (Declining (clearHeaders x.outer)) past) {line : GoString} :
    ¬ SendsLine past line := by
  refine only.unsent fun status hdr declining => ?_
  rw [(declining.silent.2.2 status hdr rfl).2, outer.clearHeaders]
  rfl

theorem mute_of_quiet {p : Handler.Presented} {resolved new : History} {r : Request}
    (resolving : x.Resolving p resolved) (still : effects new = [])
    (unsent : ∀ line, ¬ SendsLine new line) :
    x.Mute p resolved (new ++ ⟨.next r, ()⟩ :: resolved) where
  effect := ⟨[], by rw [effects_append, still]; rfl, fun _ => rfl⟩
  silent := fun line sends => sends.append.elim (fun new => absurd new (unsent line))
    fun old => absurd old resolving.unsent

theorem Completed.suffix {p : Handler.Presented} {ic : Interceptor} {past : History}
    (completed : x.Completed p ic past) : ∃ resolved, x.Resolving p resolved ∧ resolved <:+ past ∧
      effects past = effects resolved := by
  obtain ⟨resolved, staged, new, r, resolving, rfl, only, only'⟩ := completed.history
  refine ⟨resolved, resolving, ⟨new ++ ⟨.returned none ic.responseHeader, ()⟩ ::
    (staged ++ [⟨.next r, ()⟩]), by simp⟩, ?_⟩
  rw [effects_append, only'.effectless not_staging_store, List.nil_append]
  change effects (staged ++ ⟨.next r, ()⟩ :: resolved) = effects resolved
  rw [effects_append, only.effectless not_staging_store, List.nil_append]
  rfl

theorem processed_suffix {resolved past done new : History} {err : Option Err}
    (suffix : resolved <:+ past) : resolved <:+ new ++ ⟨.processed err, ()⟩ :: (done ++ past) :=
  suffix.trans ⟨new ++ ⟨.processed err, ()⟩ :: done, by simp⟩

theorem Completed.unsent {p : Handler.Presented} {ic : Interceptor} {past done : History}
    {err : Option Err} (completed : x.Completed p ic past) (worked : x.Worked ic done)
    {line : GoString} : ¬ SendsLine (⟨.processed err, ()⟩ :: (done ++ past)) line := fun sends =>
  (completed.processing worked.only).unsent
    (fun _ _ early => absurd early not_preliminary_writeHeader) (sends.cons fun _ _ h => by cases h)

theorem mute_of_failed {p : Handler.Presented} {ic : Interceptor} {past done new resolved : History}
    {result : Except Err Unit} {asked had : Bool} {extra : Option GoString}
    {calls : List StoreCall} (completed : x.Completed p ic past) (worked : x.Worked ic done)
    (failed : result ≠ .ok ())
    (does : Interceptor.SessionEffect x.handler asked had ic.live (done ++ past) result extra calls)
    (effect : effects (done ++ past) = calls ++ effects resolved) (still : effects new = [])
    (unsent : ∀ line, ¬ SendsLine new line) :
    x.Mute p resolved (new ++ ⟨.processed (Handler.failure result), ()⟩ :: (done ++ past)) where
  effect := by
    refine ⟨calls, ?_, fun alive => ?_⟩
    · rw [effects_append, still]
      exact effect
    · rw [← completed.live] at alive
      cases does with
      | failed birth unharmed => exact unharmed alive
      | _ => exact absurd rfl failed
  silent := fun line sends => sends.append.elim (fun new => absurd new (unsent line))
    fun old => absurd old (completed.unsent worked)

theorem Delivered.effectless {infos : List StagedInformationalResponse} {hdr : Header}
    {past new : History} {w : Writer} (delivers : x.Delivered infos hdr past w new) :
    effects new = [] := by
  refine delivers.only.effectless ?_
  rintro sc (⟨info, -, dst, same⟩ | sending)
  · cases same
  · exact sending

theorem Delivered.lines {infos : List StagedInformationalResponse} {hdr : Header}
    {past new : History} {w : Writer} (delivers : x.Delivered infos hdr past w new)
    (blocks : ∀ status hdr, (⟨.writeHeader status hdr, ()⟩ : Deed) ∈ new → Canonical hdr)
    {line : GoString} (sends : SendsLine new line) : line ∈ hdr.values setCookieName := by
  obtain ⟨status, sent, member, found⟩ := sends
  rw [(blocks status sent member).received] at found
  obtain ⟨info, -, dst, same⟩ | ⟨-, dst, rfl⟩ := delivers.only _ member
  · cases same
    rw [values_copyHeaders, Handler.scrubManagedResponseHeader, dropManaged_lines] at found
    cases found
  · rwa [values_copyHeaders] at found

/-- Every exchange that has resolved its session, and tried no takeover again, ends in one of the two
ways. -/
theorem Ends.dealt {ended : Ended} {w : Writer} {past : History} (ends : x.Ends ended w past)
    (outer : Canonical x.outer)
    (blocks : ∀ status hdr, (⟨.writeHeader status hdr, ()⟩ : Deed) ∈ past → Canonical hdr)
    (once : retried past = false) : Only Resolves past ∨ ∃ p resolved, x.Resolving p resolved ∧
      resolved <:+ past ∧ (x.Mute p resolved past ∨ x.Spoken p resolved past) := by
  have behind : ∀ (new resolved : History) (d : Deed), resolved <:+ new ++ d :: resolved :=
    fun new resolved d => ⟨new ++ [d], by simp⟩
  cases ends with
  | unresolved only => exact .inl only
  | @denied p past status hdr resolved denial =>
      refine .inr ⟨p, past, resolved, List.suffix_cons _ _, .inl ⟨⟨[], rfl, fun _ => rfl⟩, ?_⟩⟩
      rintro line ⟨status', hdr', member, found⟩
      obtain same | member := List.mem_cons.mp member
      · cases same
        rwa [denial.lines outer] at found
      · exact (resolved.only _ member).elim
  | taken took =>
      obtain ⟨p, resolved, new, r, resolving, rfl, only⟩ := took.history
      refine .inr ⟨p, resolved, resolving, behind _ _ _,
        .inl (mute_of_quiet resolving (only.effectless fun _ quiet => quiet) ?_)⟩
      rintro line ⟨status, hdr, member, found⟩
      have sent := List.mem_append_left (⟨.next r, ()⟩ :: resolved) member
      rw [(blocks status hdr sent).received, (took.unforged once).1 status hdr sent] at found
      cases found
  | @panicked p past new r cause resolved only =>
      exact .inr ⟨p, past, resolved, behind _ _ _, .inl (mute_of_quiet resolved
        (only.effectless not_staging_store) fun _ => Staging.unsent only)⟩
  | @declined p past new r err w resolved declines =>
      exact .inr ⟨p, past, resolved, behind _ _ _, .inl (mute_of_quiet resolved
        (declines.only.effectless fun sc declining => declining.silent.1 sc rfl)
        fun _ => Declining.unsent outer declines.only)⟩
  | @rejected p ic past done new result w completed tidied worked refused rejects =>
      obtain ⟨resolved, resolving, suffix, same⟩ := completed.suffix
      refine .inr ⟨p, resolved, resolving, processed_suffix suffix, .inl ?_⟩
      obtain ⟨extra, calls, does, effect, -⟩ := tidied.does
      refine mute_of_failed completed worked (refused.1) does (effect.trans (by rw [same]))
        (rejects.only.effectless fun sc rejecting => (Declining.silent (.inl rejecting)).1 sc rfl)
        fun _ => Declining.unsent outer (rejects.only.mono fun _ => .inl)
  | @sent p ic past done new result err w completed tidied worked accepted delivers =>
      obtain ⟨resolved, resolving, suffix, same⟩ := completed.suffix
      refine .inr ⟨p, resolved, resolving, processed_suffix suffix, ?_⟩
      obtain ⟨extra, calls, does, effect, lines⟩ := tidied.does
      have new_blocks := fun status hdr member => blocks status hdr (List.mem_append_left _ member)
      obtain ⟨result, ic'⟩ := result
      cases result with
      | error e =>
          refine .inl (mute_of_failed completed worked (fun h => by cases h) does
            (effect.trans (by rw [same])) delivers.effectless fun line sends => ?_)
          have found := delivers.lines new_blocks sends
          rw [Interceptor.deliveredHeader_error] at found
          cases found
      | ok done' =>
          obtain ⟨known, added, -⟩ := lines rfl
          refine .inr ⟨_, extra, calls, completed.hadProxyCookie ▸ completed.live ▸ does.mono
              (List.subset_append_of_subset_right _ (List.subset_cons_self _ _)), ?_,
            fun asked => completed.requests asked (processed_suffix (List.suffix_refl _)),
            fun line sends => ?_, fun line has => ?_⟩
          · rw [effects_append, delivers.effectless, ← same]
            exact effect
          · obtain here | earlier := sends.append
            · exact (known line (delivers.lines new_blocks here)).imp_left And.right
            · exact absurd earlier (completed.unsent worked)
          · obtain ⟨dst, status, -, final, member⟩ := delivers.header
            refine ⟨status, _, List.mem_append_left _ member, final, ?_⟩
            rw [values_copyHeaders]
            exact added line has

theorem Completed.untaken {p : Handler.Presented} {ic : Interceptor} {past done : History}
    (completed : x.Completed p ic past) (worked : x.Worked ic done) (err : Option Err) :
    Only (· ≠ .hijack) (⟨.processed err, ()⟩ :: (done ++ past)) := by
  refine .cons (fun same => by cases same) ((completed.processing worked.only).mono ?_)
  rintro c (staging | sessional | ⟨r, rfl⟩ | ⟨left, rfl⟩) same
  · exact staging.ne_hijack same
  · rw [same] at sessional
    exact sessional
  · cases same
  · cases same

theorem Ends.untaken {ended : Ended} {w : Writer} {past : History} (ends : x.Ends ended w past)
    (ordinary : ¬ x.Taken w past) : Only (· ≠ .hijack) past := by
  cases ends with
  | unresolved only => exact only.mono fun _ => Resolves.ne_hijack
  | denied resolved denial =>
      exact .cons (fun same => by cases same) (resolved.only.mono fun _ => Resolves.ne_hijack)
  | taken took => exact absurd took ordinary
  | panicked resolved only =>
      exact (only.mono fun _ => Staging.ne_hijack).append
        (.cons (fun same => by cases same) (resolved.only.mono fun _ => Resolves.ne_hijack))
  | declined resolved declines =>
      exact (declines.only.mono fun _ => Declining.ne_hijack).append
        (.cons (fun same => by cases same) (resolved.only.mono fun _ => Resolves.ne_hijack))
  | rejected completed tidied worked refused rejects =>
      exact (rejects.only.mono fun _ sending => Declining.ne_hijack (.inl sending)).append
        (completed.untaken worked _)
  | sent completed tidied worked accepted delivers =>
      refine (delivers.only.mono ?_).append (completed.untaken worked _)
      rintro c (⟨info, -, dst, same⟩ | sending) rfl
      · cases same
      · exact sending

/-- Only a downstream handler that took the connection over can have tried it again. -/
theorem Ends.taken_of_retried {ended : Ended} {w : Writer} {past : History}
    (ends : x.Ends ended w past) (again : retried past = true) : x.Taken w past := by
  by_contra ordinary
  rw [retried, (ends.untaken ordinary).untaken fun other => other rfl] at again
  cases again

/-! ## Where the client stands -/

variable (x)

/-- The request presented the key of the session that `l` is a handle of. -/
def Presents (past : History) (l : Live) : Prop :=
  ∃ p resolved, Prog.Run History.step (x.handler.resolvePresented x.stripped) [] (.ok p) resolved ∧
    resolved <:+ past ∧ p.live = some l

/-- The client's key still leads to the session. -/
structure KeepsKey (t : Nat) (w : World) (key sid : GoString) : Prop where
  maps : w.mem.keys.get key = some sid
  only : ∀ key', x.Emits (own t w) key' → key' = key

/-- The session has another key now, and the client was told it. -/
structure GetsKey (t : Nat) (w : World) (key sid key' : GoString) : Prop where
  other : key' ≠ key
  maps : ∀ k, w.mem.keys.get k = some sid ↔ k = key'
  carried : CarriesLine (own t w) (x.handler.buildProxyCookie key')
  only : ∀ k, x.Emits (own t w) k → k = key'

/-- The backend ended the session, and the client was told to forget its key. -/
structure LosesKey (t : Nat) (w : World) (sid : GoString) : Prop where
  asked : x.RequestsRevocation (own t w)
  gone : Gone w.mem sid
  carried : CarriesLine (own t w) x.handler.buildExpiredProxyCookie
  only : ∀ k, x.Emits (own t w) k → k = []

/-- The client came with the key of `l`, and exactly one of the three happened to it. -/
structure Placed (t : Nat) (w : World) (l : Live) : Prop where
  presented : x.presented = some l.keyID
  known : x.KeepsKey t w l.keyID l.sessionID ∨ (∃ key', x.GetsKey t w l.keyID l.sessionID key') ∨
    x.LosesKey t w l.sessionID
  once : ¬ (x.KeepsKey t w l.keyID l.sessionID ∧ ∃ key', x.GetsKey t w l.keyID l.sessionID key') ∧
    ¬ (x.KeepsKey t w l.keyID l.sessionID ∧ x.LosesKey t w l.sessionID) ∧
    ¬ ((∃ key', x.GetsKey t w l.keyID l.sessionID key') ∧ x.LosesKey t w l.sessionID)

/-- A key that the client was told leads to the session it came with, or to one begun for it. -/
def Announced (t : Nat) (w : World) (key : GoString) : Prop :=
  ∃ sid, w.mem.keys.get key = some sid ∧
    (Minted (own t w) sid ∨ ∃ l, x.Presents (own t w) l ∧ l.sessionID = sid)

variable {x} {t : Nat} {w : World} {key sid : GoString}

theorem KeepsKey.not_gets (keeps : x.KeepsKey t w key sid) {key' : GoString} :
    ¬ x.GetsKey t w key sid key' := fun gets =>
  gets.other ((gets.maps key).mp keeps.maps).symm

theorem KeepsKey.not_loses (keeps : x.KeepsKey t w key sid) : ¬ x.LosesKey t w sid := fun loses =>
  loses.gone.2.1 key keeps.maps

theorem GetsKey.not_loses {key' : GoString} (gets : x.GetsKey t w key sid key') :
    ¬ x.LosesKey t w sid := fun loses =>
  loses.gone.2.1 key' ((gets.maps key').mpr rfl)

theorem placed {l : Live} (presented : x.presented = some l.keyID)
    (known : x.KeepsKey t w l.keyID l.sessionID ∨ (∃ key', x.GetsKey t w l.keyID l.sessionID key') ∨
      x.LosesKey t w l.sessionID) : x.Placed t w l := by
  refine ⟨presented, known, ?_, ?_, ?_⟩
  · rintro ⟨keeps, key', gets⟩
    exact keeps.not_gets gets
  · rintro ⟨keeps, loses⟩
    exact keeps.not_loses loses
  · rintro ⟨⟨key', gets⟩, loses⟩
    exact gets.not_loses loses

theorem Presents.unique {past : History} {l l' : Live} (presents : x.Presents past l)
    (presents' : x.Presents past l') : l' = l := by
  obtain ⟨p, resolved, ran, suffix, alive⟩ := presents
  obtain ⟨p', resolved', ran', suffix', alive'⟩ := presents'
  obtain ⟨same, -⟩ := run_determined ran ran' suffix suffix'
  cases same
  exact Option.some.inj (alive'.symm.trans alive)

theorem not_only_resolves {p : Handler.Presented} {resolved past : History} {result : Ended × Writer}
    (ran : Prog.Run History.step (x.handler.resolvePresented x.stripped) [] (.ok p) resolved)
    (suffix : resolved <:+ past) (run : Prog.Run History.step x.prog [] result past) :
    ¬ Only Resolves past := by
  intro only
  obtain ⟨served, mid, serves, rest⟩ := run.split
  obtain ⟨found, start, first, goes⟩ := serves.split
  have after : mid <:+ past := run_suffix rest
  obtain ⟨rfl, rfl⟩ := run_determined first ran ((run_suffix goes).trans after) suffix
  have forwards : ∀ {result : Ended × Writer}, ¬ Prog.Run History.step
      (x.handler.forward x.conn { header := x.outer } (x.handler.stripSpoofed x.request) p x.next)
      start result mid := by
    intro result goes
    obtain ⟨_, -, goes⟩ := run_act goes
    exact only _ (after.subset ((run_suffix goes).subset List.mem_cons_self))
  dsimp only at goes
  split at goes
  · exact forwards goes
  · split at goes
    · obtain ⟨sent, mid', denies, returns⟩ := goes.split
      obtain ⟨status, hdr, -, rfl, -⟩ := (x.denyAuthz_obeys _ _).run denies
      exact only _ (after.subset ((run_suffix returns).subset List.mem_cons_self))
    · exact forwards goes

theorem Resolving.known {p : Handler.Presented} {resolved : History}
    (resolving : x.Resolving p resolved) : ∀ sc ∈ effects resolved, sc.byOwner = false := by
  intro sc member
  obtain ⟨⟨c, r⟩, made, effect⟩ := List.mem_filterMap.mp member
  have resolves := resolving.only _ made
  cases c with
  | store sc' =>
      cases r with
      | error e => cases effect
      | ok value =>
          simp only [Deed.effect, Option.ite_none_right_eq_some, Option.some.injEq] at effect
          obtain ⟨-, rfl⟩ := effect
          cases sc' with
          | deleteSessionByOwner owner id => exact resolves.elim
          | _ => rfl
  | _ => cases effect

theorem Resolving.keys_after {w₀ : World} {p : Handler.Presented} {resolved : History}
    (resolving : x.Resolving p resolved) (ran : RanAlone t w₀ w) {calls : List StoreCall}
    (effect : effects (own t w) = calls ++ effects resolved)
    (known : ∀ sc ∈ calls, sc.byOwner = false) :
    w.mem.keys = calls.foldr StoreCall.onKeys
      ((effects resolved).foldr StoreCall.onKeys w₀.mem.keys) := by
  have keys := ran.keys
  rw [effect, List.foldr_append] at keys
  exact keys fun sc member => (List.mem_append.mp member).elim (known sc) (resolving.known sc)

/-- The client's key led to the session, and resolving it left the key table alone. -/
theorem Resolving.leads {w₀ : World} {p : Handler.Presented} {resolved : History}
    (resolving : x.Resolving p resolved) (ran : RanAlone t w₀ w) (suffix : resolved <:+ own t w)
    {l : Live} (alive : p.live = some l) : x.presented = some l.keyID ∧ l.rewrite = false ∧
      w₀.mem.keys.get l.keyID = some l.sessionID ∧
      (effects resolved).foldr StoreCall.onKeys w₀.mem.keys = w₀.mem.keys := by
  obtain ⟨keyID, presented, row, now, ttl, -, rfl, -, -, settled, rfl⟩ := resolving.live l alive
  refine ⟨presented, settled, ?_, rfl⟩
  obtain ⟨m, served⟩ := ran.first (d := ⟨.store (.getKey l.keyID), .ok l.sessionID⟩)
    (List.IsSuffix.trans ⟨[_, _, _, _, _], rfl⟩ suffix)
  exact served_getKey served

/-! ## The lines of the handler itself -/

theorem plain_of_minted {past : History} (minted : Minted past key) : PlainValue key := by
  obtain ⟨⟨c, r⟩, -, named⟩ := minted
  cases c with
  | randomRead =>
      cases r with
      | none => cases named
      | some buf =>
          cases named
          exact encodeToString_plain buf
  | _ => cases named

theorem Emits.extra {past : History} {extra : Option GoString} (emits : x.Emits past key)
    (unlisted : x.handler.cookie.name ∉ x.handler.filter.forward)
    (lines : ∀ line, SendsLine past line → x.handler.forwarded line ∨ extra = some line) :
    ∃ line cookie, extra = some line ∧ parseSetCookie x.handler.parseTime line = some cookie ∧
      cookie.value = key := by
  obtain ⟨line, cookie, sends, -, parsed, named, value⟩ := emits
  obtain forwarded | own := lines line sends
  · rw [Handler.forwarded, parsed, Option.any_some, named, decide_eq_true_eq,
      Filter.decide] at forwarded
    split_ifs at forwarded
  · exact ⟨line, cookie, own, parsed, value⟩

theorem value_buildProxyCookie (token : isToken x.handler.cookie.name) (plain : PlainValue key)
    {cookie : Cookie}
    (parsed : parseSetCookie x.handler.parseTime (x.handler.buildProxyCookie key) = some cookie) :
    cookie.value = key := by
  obtain ⟨read, found, -, value, -⟩ := Handler.parse_proxyCookie (h := x.handler)
    (c := { name := x.handler.cookie.name, value := key, path := x.handler.proxyCookiePath,
            httpOnly := true, secure := !x.handler.cookie.insecure,
            sameSite := some x.handler.sameSiteMode }) rfl rfl rfl rfl token plain
  cases found.symm.trans parsed
  exact value

theorem value_buildExpiredProxyCookie (token : isToken x.handler.cookie.name) {cookie : Cookie}
    (parsed : parseSetCookie x.handler.parseTime x.handler.buildExpiredProxyCookie = some cookie) :
    cookie.value = [] := by
  obtain ⟨read, found, -, value, -⟩ := Handler.parse_proxyCookie (h := x.handler)
    (c := { name := x.handler.cookie.name, value := [], path := x.handler.proxyCookiePath,
            httpOnly := true, secure := !x.handler.cookie.insecure, maxAge := -1,
            expires := some 1, sameSite := some x.handler.sameSiteMode }) rfl rfl rfl rfl token
    (fun _ member => by cases member)
  cases found.symm.trans parsed
  exact value

/-! ## The client's key afterwards -/

section Stands

variable {w₀ : World} {p : Handler.Presented} {resolved : History} {l : Live}

theorem Mute.keepsKey (mute : x.Mute p resolved (own t w)) (ran : RanAlone t w₀ w)
    (resolving : x.Resolving p resolved) (suffix : resolved <:+ own t w)
    (alive : p.live = some l) : x.KeepsKey t w l.keyID l.sessionID := by
  obtain ⟨-, -, maps, still⟩ := resolving.leads ran suffix alive
  obtain ⟨calls, effect, none⟩ := mute.effect
  obtain rfl : calls = [] := none (by simp [alive])
  refine ⟨?_, ?_⟩
  · rw [resolving.keys_after ran effect (fun _ member => by cases member), List.foldr_nil,
      still]
    exact maps
  · rintro key ⟨line, -, sends, other, -⟩
    exact absurd (mute.silent line sends) other

/-- A takeover leaves the key table alone, however often it is tried. -/
theorem Taken.maps {u : Writer} (took : x.Taken u (own t w)) (ran : RanAlone t w₀ w)
    (presents : x.Presents (own t w) l) :
    x.presented = some l.keyID ∧ w.mem.keys.get l.keyID = some l.sessionID := by
  obtain ⟨p, resolved, resolves, suffix, alive⟩ := presents
  obtain ⟨p', resolved', new, r, resolving, history, only⟩ := took.history
  obtain ⟨same, rfl⟩ := run_determined resolving.ran resolves
    (history ▸ ⟨new ++ [⟨.next r, ()⟩], by simp⟩) suffix
  cases same
  obtain ⟨presented, -, maps, still⟩ := resolving.leads ran suffix alive
  have effect : effects (own t w) = [] ++ effects resolved' := by
    rw [history, effects_append, only.effectless fun _ quiet => quiet]
    rfl
  refine ⟨presented, ?_⟩
  rw [resolving.keys_after ran effect (fun _ member => by cases member), List.foldr_nil, still]
  exact maps

theorem Taken.unminted {u : Writer} {past : History} (took : x.Taken u past) {id : GoString} :
    ¬ Minted past id := by
  obtain ⟨p, resolved, new, r, resolving, rfl, only⟩ := took.history
  have random : ∀ d : Deed, d.1 ≠ .randomRead → Deed.minted d ≠ some id := by
    rintro ⟨c, answer⟩ other
    cases c with
    | randomRead => exact absurd rfl other
    | _ => exact fun same => by cases same
  rintro ⟨d, member, named⟩
  refine random d (fun same => ?_) named
  obtain later | member := List.mem_append.mp member
  · have quiet := only d later
    rw [same] at quiet
    exact quiet
  · obtain rfl | earlier := List.mem_cons.mp member
    · cases same
    · have resolves := resolving.only d earlier
      rw [same] at resolves
      exact resolves

theorem stands_of_applied {l' : Live} {calls : List StoreCall} (ran : RanAlone t w₀ w)
    (token : isToken x.handler.cookie.name) (resolving : x.Resolving p resolved)
    (suffix : resolved <:+ own t w) (alive : p.live = some l) (applied : Applied (own t w) l l' calls)
    (effect : effects (own t w) = calls ++ effects resolved)
    (emitted : ∀ key, x.Emits (own t w) key → ∃ line cookie,
      l'.newProxyCookie.map x.handler.buildProxyCookie = some line ∧
      parseSetCookie x.handler.parseTime line = some cookie ∧ cookie.value = key)
    (carried : ∀ line, l'.newProxyCookie.map x.handler.buildProxyCookie = some line →
      CarriesLine (own t w) line) :
    x.KeepsKey t w l.keyID l.sessionID ∨ ∃ key', x.GetsKey t w l.keyID l.sessionID key' := by
  obtain ⟨-, settled, maps, still⟩ := resolving.leads ran suffix alive
  have quiet : l.newProxyCookie = none := by simp [Live.newProxyCookie, settled]
  have keeps : l'.newProxyCookie = none → w.mem.keys = w₀.mem.keys →
      x.KeepsKey t w l.keyID l.sessionID := by
    intro none same
    refine ⟨same ▸ maps, fun key emits => ?_⟩
    obtain ⟨line, cookie, absurd, -⟩ := emitted key emits
    simp [none] at absurd
  obtain ⟨-, ⟨rfl, same⟩ | ⟨c, ttl, ownerTTL, rfl, old, rotates, keepsKey⟩⟩ := applied
  · refine .inl (keeps (same.trans quiet) ?_)
    rw [resolving.keys_after ran effect (fun _ member => by cases member), List.foldr_nil,
      still]
  · have keys : w.mem.keys = if c.rotate then (w₀.mem.keys.set c.newKeyID l.sessionID).delete l.keyID
        else w₀.mem.keys := by
      rw [resolving.keys_after ran effect (by simp [StoreCall.byOwner]), still, ← old]
      rfl
    cases rotate : c.rotate with
    | false =>
        refine .inl (keeps ((keepsKey rotate).trans quiet) ?_)
        simpa [rotate] using keys
    | true =>
        obtain ⟨-, minted, issued⟩ := rotates rotate
        have other : c.newKeyID ≠ l.keyID := ran.minted_ne (by simp [maps]) minted
        rw [rotate, if_pos rfl] at keys
        have leads : w.mem.keys.get c.newKeyID = some l.sessionID := by
          rw [keys, GoMap.get_delete_of_ne other, GoMap.get_set_self]
        refine .inr ⟨c.newKeyID, other, fun k => ⟨fun held => ran.after.wf.keyUnique held leads, ?_⟩,
          carried _ (by simp [issued]), fun k emits => ?_⟩
        · rintro rfl
          exact leads
        · obtain ⟨line, cookie, own, parsed, rfl⟩ := emitted k emits
          rw [issued, Option.map_some, Option.some.injEq] at own
          subst own
          exact value_buildProxyCookie token (plain_of_minted minted) parsed

theorem gone_of_revoked (ran : RanAlone t w₀ w) (resolving : x.Resolving p resolved)
    (suffix : resolved <:+ own t w) (alive : p.live = some l)
    (deleted : StoreCall.deleteSession l.sessionID ∈ effects (own t w)) :
    Gone w.mem l.sessionID := by
  obtain ⟨keyID, -, row, now, ttl, -, -, -, -, -, rfl⟩ := resolving.live l alive
  obtain ⟨newer, older, history⟩ := List.append_of_mem (mem_of_deleted deleted)
  obtain ⟨new, same⟩ := suffix
  -- The deletion is none of the calls that resolved the session, so these came before it.
  obtain ⟨between, rfl⟩ := behind_of_notMem (history.symm.trans same.symm) (by simp)
  exact ran.after.gone_of_deleted row history (by simp)

theorem Spoken.stands (spoken : x.Spoken p resolved (own t w)) (ran : RanAlone t w₀ w)
    (token : isToken x.handler.cookie.name)
    (unlisted : x.handler.cookie.name ∉ x.handler.filter.forward)
    (resolving : x.Resolving p resolved) (suffix : resolved <:+ own t w) (alive : p.live = some l) :
    x.KeepsKey t w l.keyID l.sessionID ∨ (∃ key', x.GetsKey t w l.keyID l.sessionID key') ∨
      x.LosesKey t w l.sessionID := by
  obtain ⟨asked, extra, calls, does, effect, requests, lines, carried⟩ := spoken.does
  cases does with
  | expired revoke held | idle keep held => cases held.symm.trans alive
  | @revoked l' revoke held =>
      cases held.symm.trans alive
      have had : p.hadProxyCookie = true := by
        rw [resolving.presented, (resolving.leads ran suffix alive).1]
        rfl
      rw [had, if_pos rfl] at lines carried
      refine .inr (.inr ⟨requests revoke, ?_, carried _ rfl, fun k emits => ?_⟩)
      · exact gone_of_revoked ran resolving suffix alive (by simp [effect])
      · obtain ⟨line, cookie, own, parsed, rfl⟩ := emits.extra unlisted lines
        cases own
        exact value_buildExpiredProxyCookie token parsed
  | @applied l₀ l' opened calls keep opens applies =>
      obtain ⟨same, rfl⟩ | ⟨none, -⟩ := opens
      · cases same.trans alive
        rw [List.append_nil] at effect
        obtain keeps | gets := stands_of_applied ran token resolving suffix alive applies effect
          (fun key emits => emits.extra unlisted lines) carried
        · exact .inl keeps
        · exact .inr (.inl gets)
      · cases none.symm.trans alive

theorem newKey_of_begun {past : History} {l l' : Live} {opened calls : List StoreCall}
    (begun : Begun past l opened) (applies : Applied past l l' calls) :
    l'.newProxyCookie = some l.keyID ∧ (∀ sc ∈ calls ++ opened, sc.byOwner = false) ∧
      ∀ keys, ((calls ++ opened).foldr StoreCall.onKeys keys).get l.keyID = some l.sessionID := by
  have pending : l.newProxyCookie = some l.keyID := by
    simp [Live.newProxyCookie, begun.pending.1, begun.pending.2]
  obtain ⟨row, ttl, -, rfl⟩ := begun.calls
  obtain ⟨-, ⟨rfl, same⟩ | ⟨c, ttl', ownerTTL, rfl, -, rotates, keeps⟩⟩ := applies
  · exact ⟨same.trans pending, by simp [StoreCall.byOwner], by simp [StoreCall.onKeys]⟩
  · cases rotate : c.rotate with
    | false =>
        exact ⟨(keeps rotate).trans pending, by simp [StoreCall.byOwner],
          by simp [StoreCall.onKeys, rotate]⟩
    | true => cases begun.pending.1.symm.trans (rotates rotate).1

theorem Spoken.new_key (spoken : x.Spoken p resolved (own t w)) (ran : RanAlone t w₀ w)
    (token : isToken x.handler.cookie.name)
    (unlisted : x.handler.cookie.name ∉ x.handler.filter.forward)
    (resolving : x.Resolving p resolved) (fresh : p.live = none)
    (emits : x.Emits (own t w) key) (isKey : key ≠ []) :
    ∃ sid, w.mem.keys.get key = some sid ∧ Minted (own t w) sid := by
  obtain ⟨asked, extra, calls, does, effect, -, lines, -⟩ := spoken.does
  obtain ⟨line, cookie, own, parsed, rfl⟩ := emits.extra unlisted lines
  cases does with
  | revoked revoke held => cases held.symm.trans fresh
  | expired revoke held =>
      split_ifs at own
      cases own
      exact absurd (value_buildExpiredProxyCookie token parsed) isKey
  | idle keep held => cases own
  | @applied l l' opened calls keep opens applies =>
      obtain ⟨same, -⟩ | ⟨-, l₀, same, begun⟩ := opens
      · cases same.trans fresh
      · cases same
        obtain ⟨issued, known, leads⟩ := newKey_of_begun begun applies
        rw [issued, Option.map_some, Option.some.injEq] at own
        subst own
        rw [value_buildProxyCookie token (plain_of_minted begun.key) parsed,
          resolving.keys_after ran effect known]
        exact ⟨l.sessionID, leads _, begun.session⟩

/-- Without a second takeover the client is placed, and what it is told leads to a session. -/
theorem Ends.stands_once {result : Ended × Writer} (ends : x.Ends result.1 result.2 (own t w))
    (outer : Canonical x.outer)
    (blocks : ∀ status hdr, (⟨.writeHeader status hdr, ()⟩ : Deed) ∈ own t w → Canonical hdr)
    (once : retried (own t w) = false) (ran : RanAlone t w₀ w)
    (token : isToken x.handler.cookie.name)
    (unlisted : x.handler.cookie.name ∉ x.handler.filter.forward)
    (history : Prog.Run History.step x.prog [] result (own t w)) :
    (∀ l, x.Presents (own t w) l → x.Placed t w l) ∧
      ∀ key, x.Emits (own t w) key → key ≠ [] → x.Announced t w key := by
  have stands : ∀ {p resolved l}, x.Resolving p resolved → resolved <:+ own t w →
      p.live = some l → x.Mute p resolved (own t w) ∨ x.Spoken p resolved (own t w) →
      x.KeepsKey t w l.keyID l.sessionID ∨ (∃ key', x.GetsKey t w l.keyID l.sessionID key') ∨
        x.LosesKey t w l.sessionID := fun resolving suffix alive dealt =>
    dealt.elim (fun mute => .inl (mute.keepsKey ran resolving suffix alive))
      fun spoken => spoken.stands ran token unlisted resolving suffix alive
  constructor
  · rintro l ⟨p, resolved, resolves, suffix, alive⟩
    obtain only | ⟨p', resolved', resolving, suffix', dealt⟩ := ends.dealt outer blocks once
    · exact absurd only (not_only_resolves resolves suffix history)
    obtain ⟨same, rfl⟩ := run_determined resolving.ran resolves suffix' suffix
    cases same
    exact placed (resolving.leads ran suffix alive).1 (stands resolving suffix alive dealt)
  · intro key emits isKey
    obtain only | ⟨p, resolved, resolving, suffix, dealt⟩ := ends.dealt outer blocks once
    · obtain ⟨line, -, sends, -⟩ := emits
      exact absurd sends (only.unsent fun _ _ resolves => resolves.elim)
    cases alive : p.live with
    | none =>
        obtain mute | spoken := dealt
        · obtain ⟨line, -, sends, other, -⟩ := emits
          exact absurd (mute.silent line sends) other
        · obtain ⟨sid, maps, minted⟩ := spoken.new_key ran token unlisted resolving alive emits isKey
          exact ⟨sid, maps, .inl minted⟩
    | some l =>
        refine ⟨l.sessionID, ?_, .inr ⟨l, ⟨p, resolved, resolving.ran, suffix, alive⟩, rfl⟩⟩
        obtain keeps | ⟨key', gets⟩ | loses := stands resolving suffix alive dealt
        · rw [keeps.only key emits]
          exact keeps.maps
        · exact (gets.maps key).mpr (gets.only key emits)
        · exact absurd (loses.only key emits) isKey

/-- After takeovers the client is placed exactly if it was told no key but the one it came with. -/
theorem Taken.stands_iff {u : Writer} (took : x.Taken u (own t w)) (ran : RanAlone t w₀ w) :
    ((∀ l, x.Presents (own t w) l → x.Placed t w l) ∧
      ∀ key, x.Emits (own t w) key → key ≠ [] → x.Announced t w key) ↔
    ∀ key, x.Emits (own t w) key → (∃ l, x.Presents (own t w) l ∧ key = l.keyID) ∨
      (key = [] ∧ ∀ l, ¬ x.Presents (own t w) l) := by
  constructor
  · rintro ⟨stands, announced⟩ key emits
    by_cases alive : ∃ l, x.Presents (own t w) l
    · obtain ⟨l, presents⟩ := alive
      obtain ⟨-, maps⟩ := took.maps ran presents
      refine .inl ⟨l, presents, ?_⟩
      obtain keeps | ⟨key', gets⟩ | loses := (stands l presents).known
      · exact keeps.only key emits
      · exact absurd ((gets.maps l.keyID).mp maps).symm gets.other
      · exact absurd maps (loses.gone.2.1 l.keyID)
    · refine .inr ⟨?_, not_exists.mp alive⟩
      by_contra isKey
      obtain ⟨sid, -, minted | ⟨l, presents, -⟩⟩ := announced key emits isKey
      · exact took.unminted minted
      · exact alive ⟨l, presents⟩
  · intro told
    refine ⟨fun l presents => ?_, fun key emits isKey => ?_⟩
    · obtain ⟨presented, maps⟩ := took.maps ran presents
      refine placed presented (.inl ⟨maps, fun key emits => ?_⟩)
      obtain ⟨l', presents', rfl⟩ | ⟨-, none⟩ := told key emits
      · rw [presents.unique presents']
      · exact absurd presents (none l)
    · obtain ⟨l, presents, rfl⟩ | ⟨empty, -⟩ := told key emits
      · exact ⟨l.sessionID, (took.maps ran presents).2, .inr ⟨l, presents, rfl⟩⟩
      · exact absurd empty isKey

end Stands

end Exchange

theorem Exchange.presents_of_playAlone {x : Exchange} {t : Nat} {w₀ w₁ w : World} {l : Live}
    {p : Handler.Presented} {result : Ended × Writer} {choices : List Choice}
    (inv : Inv anyFaults w₀) (new : own t w₀ = [])
    (played : playAlone cleanFaults t x.prog w₀ choices = some (result, w))
    (found : playAlone cleanFaults t (x.handler.resolvePresented x.stripped) w₀ choices =
      some (.ok p, w₁)) (alive : p.live = some l) : x.Presents (own t w) l := by
  obtain ⟨served, w₃, serves, rest⟩ := playAlone_bind played
  obtain ⟨found', w₂, resolves, goes⟩ := playAlone_bind serves
  cases resolves.symm.trans found
  obtain ⟨-, -, resolving⟩ := ranAlone (fun allowed => allowed.1.2) inv new x.resolvePresented_obeys
    (run_of_playAlone found)
  obtain ⟨new₁, grown₁, -⟩ := run_onKeys goes
  obtain ⟨new₂, grown₂, -⟩ := run_onKeys rest
  refine ⟨p, _, (resolving p rfl).ran, ⟨new₂ ++ new₁, ?_⟩, alive⟩
  rw [grown₂, grown₁, List.append_assoc]

def Exchange.emitted (x : Exchange) (past : History) : List GoString :=
  (past.filterMap Deed.sent).flatMap fun sent =>
    (sent.2.received setCookieName).filterMap fun line =>
      if line ∈ x.outer.received setCookieName then none
      else (parseSetCookie x.handler.parseTime line).bind fun cookie =>
        if cookie.name = x.handler.cookie.name then some cookie.value else none

theorem Exchange.emits_of_mem {x : Exchange} {past : History} {key : GoString}
    (listed : key ∈ x.emitted past) : x.Emits past key := by
  obtain ⟨⟨status, hdr⟩, sent, listed⟩ := List.mem_flatMap.mp listed
  obtain ⟨line, found, value⟩ := List.mem_filterMap.mp listed
  split_ifs at value with outer
  obtain ⟨cookie, parsed, value⟩ := Option.bind_eq_some_iff.mp value
  split_ifs at value with named
  cases value
  exact ⟨line, cookie, ⟨status, hdr, mem_of_sent sent, found⟩, outer, parsed, named, rfl⟩

def steadyChoices : List Choice :=
  List.replicate 40
    { clock := 110, random := some (List.replicate 32 2), ioErr := some .notSupported }

def returnChecked (next : Down) (check : Handler.Presented → World → Bool)
    (c : Machine (Option (Ended × Writer))) : Bool :=
  (own 1 c.state).isEmpty &&
    (playAlone cleanFaults 1 (sampleReturn next).prog c.state steadyChoices).any fun played =>
      (playAlone cleanFaults 1 (sampleHandler.resolvePresented (sampleReturn next).stripped) c.state
        steadyChoices).any fun resolved =>
          match resolved.1 with
          | .ok p => check p played.2
          | .error _ => false

theorem return_of_checked {next : Down} {check : Handler.Presented → World → Bool}
    (played : (play anyFaults (fun _ _ => true) (traffic (sampleVisits next)).prog quietStart
      loginMoves).any (returnChecked next check)) :
    ∃ c p result w, (traffic (sampleVisits next)).Reaches quietStart c ∧ own 1 c.state = [] ∧
      (sampleReturn next).prog.Run (exec cleanFaults 1) c.state result w ∧ check p w = true ∧
      ∀ l, p.live = some l → (sampleReturn next).Presents (own 1 w) l := by
  obtain ⟨c, reached, -, checked⟩ := reaches_of_played (fun _ => trivial) played
  simp only [returnChecked, Bool.and_eq_true, List.isEmpty_iff, Option.any_eq_true] at checked
  obtain ⟨new, ⟨result, w⟩, ran, ⟨found, w₁⟩, resolves, checked⟩ := checked
  cases found with
  | error e => cases checked
  | ok p =>
      exact ⟨c, p, result, w, reached, new, run_of_playAlone ran, checked, fun l alive =>
        Exchange.presents_of_playAlone (traffic_good reached).inv.inv new ran resolves alive⟩

def rotatingNext : Down := headerSetter defaultRotateHeader (lit "true") (.ret none)

/-- A takeover fails; the backend then sets a proxy cookie of its own, sends the header and tries to
take the connection over again. -/
def strandingNext : Down :=
  .call .hijack fun _ => headerSetter setCookieName (lit "SID=stranger") <|
    .call (.writeHeader 200) fun _ => .call .hijack fun _ => .ret none

end Gosestor
