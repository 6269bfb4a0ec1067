import Gosestor.Proof.Handler.Handshake
import Gosestor.Proof.Handler.HeaderBytes
import Gosestor.Proof.Handler.ProxyCookie

/-!
# The metadata that a response reserves

Header blocks are paid for in advance: an informational block when it is staged, the final one
before it is committed, with an allowance for the cookie that processing adds. What is sent stays
within that, unless the final header is paid for by a handshake that is refused and grows
afterwards, a second handshake is committed, `Trailer` grows by being rewritten, or keys that are
not canonical survive in the header map of the connection.
-/

namespace Gosestor

open Gosestor.Go Gosestor.Lib Gosestor.Session
open Gosestor.Store (StoreCall)

/-! ## The allowance -/

theorem length_encodeToString (buf : List UInt8) :
    (encodeToString buf).length = (buf.length * 4 + 2) / 3 := by
  fun_induction encodeToString buf with
  | case1 a b c rest n ih =>
      simp only [List.length_cons, ih]
      omega
  | case2 a b n => simp
  | case3 a => simp
  | case4 => rfl

def Sized (past : History) : Prop :=
  ∀ buf, (⟨.randomRead, some buf⟩ : Deed) ∈ past → buf.length = 32

theorem obeys_sized {α : Type} {may : History → Call → Prop} {post : α → History → Prop}
    {p : Act α} {past : History} (obeys : Obeys may post p past) (sized : Sized past) :
    Obeys may (fun a past' => post a past' ∧ Sized past') p past := by
  refine (obeys.frame Sized ?_ sized).mono (fun _ _ h => h.1) fun _ _ h => h
  rintro past c r past' - ⟨legal, rfl⟩ sized buf member
  obtain same | earlier := List.mem_cons.mp member
  · cases same
    exact legal.1
  · exact sized buf earlier

theorem Minted.length {past : History} {key : GoString} (minted : Minted past key)
    (sized : Sized past) : PlainValue key ∧ key.length = 43 := by
  obtain ⟨⟨c, r⟩, member, named⟩ := minted
  cases c with
  | randomRead =>
      cases r with
      | none => cases named
      | some buf =>
          cases named
          rw [length_encodeToString, sized buf member]
          exact ⟨encodeToString_plain buf, rfl⟩
  | _ => cases named

namespace Handler

variable (h : Handler)

theorem length_buildProxyCookie {key key' : GoString} (plain : PlainValue key)
    (plain' : PlainValue key') (same : key.length = key'.length) :
    (h.buildProxyCookie key).length = (h.buildProxyCookie key').length := by
  rw [buildProxyCookie_eq, buildProxyCookie_eq]
  by_cases token : isToken h.cookie.name
  · rw [Cookie.string_pair (c := h.proxyCookie key) token plain rfl,
      Cookie.string_pair (c := h.proxyCookie key') token plain' rfl, join_cons, join_cons]
    have pair : (writePair (h.cookie.name, key)).length =
        (writePair (h.cookie.name, key')).length := by
      simp [writePair, same]
    rw [List.length_append, List.length_append]
    exact congrArg (· + _) pair
  · have empty : ∀ key, (h.proxyCookie key).string = [] := by
      intro key
      rw [Cookie.string, if_pos]
      simpa [proxyCookie] using token
    rw [empty, empty]

theorem allowance_issued {past : History} {key : GoString} (minted : Minted past key)
    (sized : Sized past) : (setCookieName.length + (h.buildProxyCookie key).length + 4 : Int) ≤
      Interceptor.generatedMetadataAllowance h := by
  obtain ⟨plain, long⟩ := minted.length sized
  have filler : PlainValue (List.replicate 43 120) := by
    intro b member
    rw [List.eq_of_mem_replicate member]
    decide
  have same := length_buildProxyCookie h plain filler (by simpa using long)
  unfold Interceptor.generatedMetadataAllowance
  dsimp only
  split_ifs with longer
  · omega
  · omega

theorem allowance_expired : (setCookieName.length + h.buildExpiredProxyCookie.length + 4 : Int) ≤
    Interceptor.generatedMetadataAllowance h := by
  unfold Interceptor.generatedMetadataAllowance
  dsimp only
  split_ifs with longer
  · exact le_rfl
  · omega

theorem allowance_nonneg : 0 ≤ Interceptor.generatedMetadataAllowance h := by
  have expired := h.allowance_expired
  omega

end Handler

theorem Sized.append {P : Call → Prop} {new past : History} (sized : Sized past) (only : Only P new)
    (silent : ¬ P .randomRead) : Sized (new ++ past) := by
  intro buf member
  obtain recent | earlier := List.mem_append.mp member
  · exact absurd (only _ recent) silent
  · exact sized buf earlier

theorem Sized.cons {past : History} {c : Call} (sized : Sized past) (other : c ≠ .randomRead)
    (r : c.Answer) : Sized (⟨c, r⟩ :: past) := by
  intro buf member
  obtain same | earlier := List.mem_cons.mp member
  · exact absurd (congrArg Sigma.fst same).symm other
  · exact sized buf earlier

theorem sized_of_run {α : Type} {p : Act α} {past past' : History} {a : α}
    (run : Prog.Run History.step p past a past') (sized : Sized past) : Sized past' :=
  ((obeys_sized (Prog.Wp.trivial p past) sized).run run).2

/-! ## Processing -/

namespace Interceptor

variable {h : Handler} {past : History}

def Unpending (live : Option Live) : Prop := ∀ l, live = some l → l.rewrite = false

theorem Unpending.held {live : Option Live} (unpending : Unpending live) : Held past live :=
  fun l same pending => absurd pending (by simp [unpending l same])

theorem controlled_bytes (ic : Interceptor) :
    stagedHeaderBytes (ic.controlled h).responseHeader ≤ stagedHeaderBytes ic.responseHeader :=
  stagedHeaderBytes_delAll ic.responseHeader
    [setCookieName, h.identityHeader, h.rotateHeaderName, h.labelsHeaderName]

theorem readRevoke_bytes (ic : Interceptor) (spaced : Spaced ic.responseHeader) :
    stagedHeaderBytes (ic.readRevoke h).responseHeader ≤ stagedHeaderBytes ic.responseHeader :=
  (stagedHeaderBytes_delAll _ [h.revokeHeaderName]).trans (stagedHeaderBytes_strip spaced _)

theorem Opened.minted {live live' : Option Live} {calls : List StoreCall} {l : Live}
    {key : GoString} (opened : Opened past live live' calls) (unpending : Unpending live)
    (held : live' = some l) (cookie : l.newProxyCookie = some key) : Minted past key := by
  obtain ⟨rfl, -⟩ | ⟨-, l', same, begun⟩ := opened
  · simp [Live.newProxyCookie, unpending l held] at cookie
  · rw [held] at same
    cases same
    simp only [Live.newProxyCookie, begun.pending.1, if_true, Option.some.injEq] at cookie
    rw [← cookie, begun.pending.2]
    exact begun.key

theorem minted_of_applied {l l' : Live} {calls : List StoreCall} {key : GoString}
    (applied : Applied past l l' calls) (before : ∀ key, l.newProxyCookie = some key →
      Minted past key) (cookie : l'.newProxyCookie = some key) : Minted past key := by
  obtain ⟨-, ⟨-, same⟩ | ⟨c, ttl, ownerTTL, -, -, rotates, keeps⟩⟩ := applied
  · exact before key (same.symm.trans cookie)
  · cases rotate : c.rotate with
    | true =>
        obtain ⟨-, minted, new⟩ := rotates rotate
        cases new.symm.trans cookie
        exact minted
    | false => exact before key ((keeps rotate).symm.trans cookie)

theorem processLocked_bytes (ic : Interceptor) (settled : Settled past)
    (unpending : Unpending ic.live) (sized : Sized past) :
    Obeys Guarded
      (fun result _ => stagedHeaderBytes (deliveredHeader h result) ≤
        stagedHeaderBytes ic.responseHeader + generatedMetadataAllowance h)
      (ic.processLocked h) past := by
  have positive := h.allowance_nonneg
  have added : ∀ {hdr : Header} {extra : Option GoString},
      stagedHeaderBytes hdr ≤ stagedHeaderBytes ic.responseHeader →
      (∀ line, extra = some line →
        (setCookieName.length + line.length + 4 : Int) ≤ generatedMetadataAllowance h) →
      stagedHeaderBytes (addLine hdr extra) ≤
        stagedHeaderBytes ic.responseHeader + generatedMetadataAllowance h := by
    intro hdr extra within allowed
    rw [stagedHeaderBytes_addLine]
    cases extra with
    | none =>
        simp only [Option.elim_none]
        omega
    | some line =>
        have small := allowed line rfl
        simp only [Option.elim_some]
        omega
  have dropped : ∀ {hdr : Header}, (∀ key, key ≠ setCookieName →
      GoMap.get hdr key = GoMap.get (ic.controlled h).responseHeader key) →
      stagedHeaderBytes (h.dropManaged hdr) ≤
        stagedHeaderBytes ic.responseHeader + generatedMetadataAllowance h := by
    intro hdr elsewhere
    have less : stagedHeaderBytes (h.dropManaged hdr) ≤
        stagedHeaderBytes (ic.controlled h).responseHeader := by
      apply stagedHeaderBytes_le
      intro key
      rw [dropManaged_get]
      split_ifs with gone
      · exact .inl rfl
      · refine .inr (elsewhere key ?_)
        rintro rfl
        exact gone (by simp [setCookieName_canonical])
    have read := ic.controlled_bytes (h := h)
    omega
  suffices rule : Obeys Guarded
      (fun result past' => Sized past' → stagedHeaderBytes (deliveredHeader h result) ≤
        stagedHeaderBytes ic.responseHeader + generatedMetadataAllowance h)
      (ic.processLocked h) past from
    (obeys_sized rule sized).weaken fun _ _ done => done.1 done.2
  apply processLocked_rule ic settled unpending.held
  · rintro ⟨result, ic'⟩ past' live extra calls asked rfl - does -
    cases does with
    | failed birth alive => exact dropped fun _ _ => rfl
    | revoked revoke held =>
        refine added ic.controlled_bytes fun line same => ?_
        split_ifs at same
        cases same
        exact h.allowance_expired
    | expired revoke held =>
        refine added ic.controlled_bytes fun line same => ?_
        split_ifs at same
        cases same
        exact h.allowance_expired
    | idle keep held => cases asked.symm.trans keep
    | applied keep opens applies => cases asked.symm.trans keep
  · rintro e ic' past' - sorts -
    obtain ⟨hdr, live, calls, rfl, adds, -⟩ := sorts.done
    exact dropped adds.elsewhere
  · rintro ic' past₁ ⟨result, ic''⟩ past' - sorts ⟨kept, sub, lines⟩ commits sized
    obtain ⟨hdr, live, calls, rfl, adds, -, opened, -⟩ := sorts.done
    obtain ⟨grows, live', extra, calls', rfl, -, failed, applied⟩ := commits
    cases result with
    | error e =>
        obtain ⟨-, rfl⟩ := failed e rfl
        exact dropped adds.elsewhere
    | ok done =>
        refine added (stagedHeaderBytes_sorted (fun key other => ?_) ?_) fun line same => ?_
        · dsimp only
          rw [adds.elsewhere key other]
          rw [controlled, readControls_get]
          split_ifs
          · exact .inl rfl
          · exact .inr rfl
        · rw [lines]
          exact sub
        · obtain ⟨-, -, rfl⟩ | ⟨l, l', held, applies, rfl⟩ := applied rfl
          · cases same
          · obtain ⟨key, cookie, rfl⟩ := Option.map_eq_some_iff.mp same
            refine h.allowance_issued (minted_of_applied applies (fun key' before => ?_) cookie) sized
            exact ((opened rfl).mono grows).minted unpending held before

theorem process_bytes (ic : Interceptor) (settled : Settled past) (unpending : Unpending ic.live)
    (sized : Sized past) (spaced : Spaced ic.responseHeader) :
    Obeys Guarded
      (fun result _ => stagedHeaderBytes (deliveredHeader h result) ≤
        stagedHeaderBytes ic.responseHeader + generatedMetadataAllowance h)
      (ic.process h) past := by
  have read := ic.readRevoke_bytes (h := h) spaced
  have positive := h.allowance_nonneg
  have locked : ∀ {past : History}, Settled past → Sized past → Obeys Guarded
      (fun result _ => stagedHeaderBytes (deliveredHeader h result) ≤
        stagedHeaderBytes ic.responseHeader + generatedMetadataAllowance h)
      ((ic.readRevoke h).processLocked h) past := by
    intro past settled sized
    refine ((ic.readRevoke h).processLocked_bytes settled unpending sized).weaken fun _ _ done => ?_
    omega
  have failed : ∀ e : Err, stagedHeaderBytes (deliveredHeader h (.error e, ic.readRevoke h)) ≤
      stagedHeaderBytes ic.responseHeader + generatedMetadataAllowance h := by
    intro e
    have dropped := stagedHeaderBytes_delAll (ic.readRevoke h).responseHeader
      (setCookieName :: h.managedHeaders)
    refine dropped.trans ?_
    omega
  unfold process
  dsimp only
  split
  · exact failed _
  · cases (ic.readRevoke h).live with
    | none => exact locked settled sized
    | some l =>
        refine withLock_obeys (fun _ _ => ⟨⟨trivial, trivial⟩, trivial⟩)
          (fun _ => ⟨⟨trivial, trivial⟩, trivial⟩) (fun e _ _ => failed e) (locked settled sized)
          fun ttl => (locked ?_ ?_).weaken fun _ _ done _ => done
        · exact settled.cons (c := .store (.lock l.sessionID ttl)) trivial _
        · exact sized.cons (fun same => by cases same) _

end Interceptor

/-! ## What has been sent -/

def Deed.asked : Deed → Option Int
  | ⟨.reserve n, _⟩ => some n
  | _ => none

/-- The header blocks that were sent. -/
def sentBytes (past : History) : Int :=
  ((past.filterMap Deed.sent).map fun block => stagedHeaderBytes block.2).sum

theorem sentBytes_silent {d : Deed} (silent : ∀ status hdr, d.1 ≠ .writeHeader status hdr)
    (past : History) : sentBytes (d :: past) = sentBytes past := by
  obtain ⟨c, r⟩ := d
  cases c with
  | writeHeader status hdr => exact absurd rfl (silent status hdr)
  | _ => rfl

theorem sentBytes_sent (status : Int) (hdr : Header) (past : History) :
    sentBytes (⟨.writeHeader status hdr, ()⟩ :: past) = stagedHeaderBytes hdr + sentBytes past := by
  simp [sentBytes, Deed.sent]

section Rules

variable {α : Type} {may : History → Call → Prop} {post : α → History → Prop} {past : History}
  {p : Act α}

abbrev Unguarded (_ : History) (_ : Call) : Prop := True

theorem obeys_unguarded (obeys : Obeys may post p past) : Obeys Unguarded post p past :=
  obeys.mono (fun _ _ _ => trivial) fun _ _ done => done

theorem obeys_unsent (silent : ∀ past c, may past c → ∀ status hdr, c ≠ .writeHeader status hdr)
    (obeys : Obeys may post p past) :
    Obeys Unguarded (fun a past' => post a past' ∧ sentBytes past' = sentBytes past) p past := by
  refine (obeys.frame (fun past' => sentBytes past' = sentBytes past) ?_ rfl).mono
    (fun _ _ _ => trivial) fun _ _ done => done
  rintro past' c r past'' allowed ⟨-, rfl⟩ same
  exact (sentBytes_silent (silent past' c allowed) past').trans same

theorem obeys_staged (obeys : Obeys (fun _ => Staging) post p past) :
    Obeys Unguarded (fun a past' => post a past' ∧ sentBytes past' = sentBytes past) p past := by
  refine obeys_unsent (fun past c staging status hdr same => ?_) obeys
  rw [same] at staging
  exact staging

end Rules

namespace Writer

variable {past : History}

def pending (w : Writer) : Int := if w.wrote || w.hijacked then 0 else stagedHeaderBytes w.header

def ledger (w : Writer) (past : History) : Int := sentBytes past + w.pending

theorem pending_nonneg (w : Writer) : 0 ≤ w.pending := by
  unfold pending
  split_ifs
  · exact le_rfl
  · exact stagedHeaderBytes_nonneg w.header

theorem sentBytes_le_ledger (w : Writer) (past : History) : sentBytes past ≤ w.ledger past := by
  have pending := w.pending_nonneg
  unfold ledger
  omega

theorem pending_le (w : Writer) : w.pending ≤ stagedHeaderBytes w.header := by
  unfold pending
  split_ifs
  · exact stagedHeaderBytes_nonneg w.header
  · exact le_rfl

theorem writeHeader_ledger (w : Writer) (status : Int) :
    Obeys Unguarded
      (fun w' past' => w'.header = w.header ∧
        sentBytes past' ≤ sentBytes past + stagedHeaderBytes w.header ∧
        (informational status = false → w'.ledger past' = w.ledger past))
      (w.writeHeader status) past := by
  have nonneg := stagedHeaderBytes_nonneg w.header
  unfold writeHeader
  split_ifs with closed
  · exact ⟨rfl, by omega, fun _ => rfl⟩
  · refine obeys_act trivial fun _ _ => ⟨rfl, ?_, fun final => ?_⟩
    · rw [sentBytes_sent]
      omega
    · unfold ledger pending
      rw [sentBytes_sent, if_neg closed, final]
      simp only [Bool.not_false, Bool.true_or, if_true]
      omega

theorem write_ledger (w : Writer) (p : List UInt8) :
    Obeys Unguarded
      (fun result past' => result.2.header = w.header ∧ result.2.ledger past' = w.ledger past)
      (w.write p) past := by
  unfold write
  split_ifs with hijacked
  · exact ⟨rfl, rfl⟩
  · refine Prog.Wp.bind ((w.writeHeader_ledger 200).weaken fun w' past' spec => ?_)
    refine obeys_act trivial fun _ _ => ⟨spec.1, Eq.trans ?_ (spec.2.2 (by decide))⟩
    rw [ledger, sentBytes_silent fun _ _ same => by cases same]
    rfl

theorem flush_ledger (w : Writer) :
    Obeys Unguarded
      (fun result past' => result.2.header = w.header ∧ result.2.ledger past' = w.ledger past)
      w.flush past := by
  refine Prog.Wp.bind ((w.writeHeader_ledger 200).weaken fun w' past' spec => ?_)
  refine obeys_act trivial fun _ _ => ⟨spec.1, Eq.trans ?_ (spec.2.2 (by decide))⟩
  rw [ledger, sentBytes_silent fun _ _ same => by cases same]
  rfl

end Writer

/-! ## Paying in advance -/

namespace Interceptor

variable {h : Handler} {conn : Conn} {past : History}

def metadataReserved (h : Handler) (ic : Interceptor) : Int :=
  if ic.finalMetadataReserved then ic.metadataBytes
  else ic.metadataBytes + (stagedHeaderBytes ic.responseHeader + generatedMetadataAllowance h)

theorem reserveMetadataBytes_spec (ic : Interceptor) (n : Int) :
    Obeys (fun _ => Staging)
      (fun result _ => (∃ e, result = (some e, ic)) ∨
        (ic.metadataBytes + n ≤ stagedResponseMaxMetadataBytes ∧ ∃ body,
          result = (none, ic.reserving body (ic.metadataBytes + n) ic.finalMetadataReserved)))
      (ic.reserveMetadataBytes n) past := by
  unfold reserveMetadataBytes
  split_ifs with large
  · exact obeys_trip trivial (.inl ⟨_, rfl⟩)
  · refine obeys_act trivial fun reserved _ => ?_
    cases reserved with
    | false => exact obeys_trip trivial (.inl ⟨_, rfl⟩)
    | true => exact .inr ⟨by omega, _, rfl⟩

theorem reserveFinalMetadata_spec (ic : Interceptor) :
    Obeys (fun _ => Staging)
      (fun result _ => (∃ e, result = (some e, ic)) ∨
        ((ic.finalMetadataReserved = false →
          ic.metadataReserved h ≤ stagedResponseMaxMetadataBytes) ∧ ∃ body,
          result = (none, ic.reserving body (ic.metadataReserved h) true)))
      (ic.reserveFinalMetadata h) past := by
  unfold reserveFinalMetadata metadataReserved
  split_ifs with reserved
  · refine .inr ⟨fun unpaid => absurd reserved (by simp [unpaid]), ic.body, ?_⟩
    rw [← reserved]
    rfl
  · refine Prog.Wp.bind ((ic.reserveMetadataBytes_spec _).weaken fun result past' spec => ?_)
    obtain ⟨e, rfl⟩ | ⟨fits, body, rfl⟩ := spec
    · exact .inl ⟨e, rfl⟩
    · exact .inr ⟨fun _ => fits, body, rfl⟩

/-- The staged header blocks are paid for. -/
structure Accounts (h : Handler) (ic : Interceptor) : Prop where
  bound : ic.metadataBytes ≤ stagedResponseMaxMetadataBytes
  covers : (ic.informational.map fun info => stagedHeaderBytes info.header).sum +
    (if ic.finalMetadataReserved then
      stagedHeaderBytes ic.responseHeader + generatedMetadataAllowance h else 0) ≤ ic.metadataBytes
  compact : ∀ info ∈ ic.informational, Compact info.header
  final : Writer.informational ic.status = false

namespace Accounts

variable {ic : Interceptor} (accounts : Accounts h ic)

include accounts

theorem reserved (fits : ic.finalMetadataReserved = false →
      ic.metadataReserved h ≤ stagedResponseMaxMetadataBytes) (body : StagedBody) :
    Accounts h (ic.reserving body (ic.metadataReserved h) true) := by
  have covers := accounts.covers
  have bound := accounts.bound
  cases unpaid : ic.finalMetadataReserved with
  | true =>
      rw [unpaid, if_pos rfl] at covers
      refine ⟨?_, ?_, accounts.compact, accounts.final⟩
      · simpa [reserving, metadataReserved, unpaid] using bound
      · simpa [reserving, metadataReserved, unpaid] using covers
  | false =>
      rw [unpaid, if_neg (by simp)] at covers
      refine ⟨fits unpaid, ?_, accounts.compact, accounts.final⟩
      simp only [reserving, metadataReserved, unpaid, if_true, Bool.false_eq_true, if_false]
      omega

theorem started : Accounts h ic.started where
  bound := accounts.bound
  covers := accounts.covers
  compact := accounts.compact
  final := by
    unfold Interceptor.started
    dsimp only
    split_ifs
    · exact accounts.final
    · decide

theorem note (e : Err) : Accounts h (ic.note e) :=
  ⟨accounts.bound, accounts.covers, accounts.compact, accounts.final⟩

end Accounts

/-! ## One dealing -/

structure Keeps (h : Handler) (ic : Interceptor) (past : History) (ic' : Interceptor)
    (past' : History) : Prop where
  accounts : Accounts h ic'
  w : ic'.w = ic.w
  terminal : ic'.terminal = ic.terminal
  sent : sentBytes past' = sentBytes past

structure Pays (h : Handler) (ic : Interceptor) (past : History) (ic' : Interceptor)
    (past' : History) : Prop where
  terminal : ic'.terminal = true
  canonical : Canonical ic'.w.header
  covered : ic'.w.ledger past' ≤ sentBytes past + ic.metadataReserved h
  bound : ic.metadataReserved h ≤ stagedResponseMaxMetadataBytes

section Steps

variable {ic : Interceptor} (accounts : Accounts h ic)

include accounts

theorem writeHeader_keeps (compact : Compact ic.responseHeader) (status : Int) :
    Obeys Unguarded (fun result past' => Keeps h ic past result.2 past') (ic.writeHeader status)
      past := by
  have nonneg := stagedHeaderBytes_nonneg ic.responseHeader
  unfold writeHeader
  split_ifs with wrote invalid informational many
  · exact ⟨accounts, rfl, rfl, rfl⟩
  · exact ⟨accounts, rfl, rfl, rfl⟩
  · exact obeys_trip trivial ⟨accounts.note _, rfl, rfl, sentBytes_silent (fun _ _ h => by cases h) _⟩
  · refine Prog.Wp.bind ((obeys_staged (ic.reserveMetadataBytes_spec _)).weaken
      fun result past' spec => ?_)
    obtain ⟨⟨e, rfl⟩ | ⟨fits, body, rfl⟩, sent⟩ := spec
    · exact ⟨accounts.note e, rfl, rfl, sent⟩
    · refine ⟨⟨fits, ?_, fun info member => ?_, accounts.final⟩, rfl, rfl, sent⟩
      · have covers := accounts.covers
        simp only [reserving, List.map_append, List.map_cons, List.map_nil, List.sum_append,
          List.sum_cons, List.sum_nil]
        cases paid : ic.finalMetadataReserved with
        | true =>
            simp only [paid, if_true] at covers ⊢
            omega
        | false =>
            simp only [paid, Bool.false_eq_true, if_false] at covers ⊢
            omega
      · obtain earlier | new := List.mem_append.mp member
        · exact accounts.compact info earlier
        · rw [List.mem_singleton.mp new]
          exact compact
  · exact ⟨⟨accounts.bound, accounts.covers, accounts.compact, eq_false_of_ne_true informational⟩,
      rfl, rfl, rfl⟩

theorem write_keeps (ordinary : ic.terminal = false) (p : List UInt8) :
    Obeys Unguarded (fun result past' => Keeps h ic past result.2 past') (ic.write p) past := by
  unfold write
  rw [if_neg (by simp [ordinary]), writeHeader_started_eq, Prog.ret_bind]
  dsimp only
  split_ifs with refused
  · exact ⟨accounts.started, rfl, rfl, rfl⟩
  · refine Prog.Wp.bind ((obeys_staged (StagedBody.write_obeys _ p)).weaken fun result past' spec => ?_)
    obtain ⟨⟨n, err⟩, body⟩ := result
    have started := accounts.started
    cases err with
    | none => exact ⟨⟨started.bound, started.covers, started.compact, started.final⟩, rfl, rfl, spec.2⟩
    | some e =>
        exact ⟨⟨started.bound, started.covers, started.compact, started.final⟩, rfl, rfl, spec.2⟩

end Steps

theorem commitInformational_sent (infos : List StagedInformationalResponse)
    (compact : ∀ info ∈ infos, Compact info.header) (w : Writer) (canonical : Canonical w.header) :
    Obeys Unguarded
      (fun w' past' => Canonical w'.header ∧
        sentBytes past' ≤ sentBytes past + (infos.map fun info => stagedHeaderBytes info.header).sum)
      (commitInformational h infos w) past := by
  induction infos generalizing w past with
  | nil => exact ⟨canonical, by simp⟩
  | cons info rest ih =>
      have mine : Compact info.header := compact info List.mem_cons_self
      have copied := canonical.copyHeaders (mine.canonical.scrubManaged h)
      have size := stagedHeaderBytes_copyHeaders canonical (h.scrubManagedResponseHeader info.header)
      have smaller := stagedHeaderBytes_scrubManaged h mine
      rw [commitInformational]
      refine Prog.Wp.bind ((Writer.writeHeader_ledger _ _).weaken ?_)
      rintro w₁ past₁ ⟨header, sent, -⟩
      dsimp only at header sent
      refine (ih (fun info member => compact info (List.mem_cons_of_mem _ member)) w₁
        (header ▸ copied)).weaken ?_
      rintro w₂ past₂ ⟨canonical₂, sent₂⟩
      refine ⟨canonical₂, ?_⟩
      rw [List.map_cons, List.sum_cons]
      omega

theorem commitHandshake_pays {ic : Interceptor} (accounts : Accounts h ic)
    (reserved : ic.finalMetadataReserved = true) (first : ic.processed = false)
    (canonical : Canonical ic.w.header) (compact : Compact ic.responseHeader) :
    Obeys Unguarded
      (fun ic' past' => Canonical ic'.w.header ∧
        ic'.w.ledger past' ≤ sentBytes past + ic.metadataBytes)
      (ic.commitHandshake h) past := by
  have covers := accounts.covers
  rw [reserved, if_pos rfl] at covers
  have allowance := h.allowance_nonneg
  have size := stagedHeaderBytes_discarded h compact
  have form := compact.canonical.discarded h
  have discards : ic.discardBackendMetadata h = { ic with
      processed := true, responseHeader := h.scrubTrailers (h.dropManaged ic.responseHeader) } := by
    rw [discardBackendMetadata, first]
    rfl
  unfold commitHandshake
  rw [discards]
  dsimp only
  refine Prog.Wp.bind ((commitInformational_sent _ accounts.compact ic.w canonical).weaken ?_)
  rintro w₁ past₁ ⟨canonical₁, sent₁⟩
  have copied := stagedHeaderBytes_copyHeaders canonical₁
    (h.scrubTrailers (h.dropManaged ic.responseHeader))
  have canonical₂ := canonical₁.copyHeaders form
  -- only the size and the form of the header sent matter from here on
  generalize copyHeaders w₁.header (h.scrubTrailers (h.dropManaged ic.responseHeader)) = header
    at copied canonical₂ ⊢
  have released : ∀ (w : Writer) (past' : History), w.header = header →
      w.ledger past' ≤ sentBytes past + ic.metadataBytes →
      Obeys Unguarded
        (fun ic' past' => Canonical ic'.w.header ∧
          ic'.w.ledger past' ≤ sentBytes past + ic.metadataBytes)
        (releaseTerminalStaging { ic with
          processed := true
          responseHeader := h.scrubTrailers (h.dropManaged ic.responseHeader)
          terminal := true
          w }) past' := by
    rintro w past' rfl paid
    refine Prog.Wp.bind ((obeys_staged (StagedBody.reset_obeys _)).weaken fun body past'' spec => ?_)
    refine ⟨canonical₂, ?_⟩
    show sentBytes past'' + w.pending ≤ _
    rw [spec.2]
    exact paid
  have paid : Writer.ledger { w₁ with header } past₁ ≤ sentBytes past + ic.metadataBytes := by
    have pending := Writer.pending_le { w₁ with header }
    unfold Writer.ledger
    dsimp only at pending
    omega
  split_ifs with wrote
  · refine Prog.Wp.bind ((Writer.writeHeader_ledger _ _).weaken ?_)
    rintro w₂ past₂ ⟨kept, -, same⟩
    refine released w₂ past₂ kept ?_
    rw [same accounts.final]
    exact paid
  · rw [Prog.pure_eq, Prog.ret_bind]
    exact released _ past₁ rfl paid

section Handshakes

variable {ic : Interceptor} (accounts : Accounts h ic) (ordinary : ic.terminal = false)
  (first : ic.processed = false) (canonical : Canonical ic.w.header)
  (compact : Compact ic.responseHeader)

include accounts ordinary first canonical compact

theorem flushError_pays :
    Obeys Unguarded
      (fun result past' => Keeps h ic past result.2 past' ∨ Pays h ic past result.2 past')
      (ic.flushError h conn) past := by
  unfold flushError
  split_ifs with plain terminal failed
  · exact .inl ⟨accounts, rfl, rfl, rfl⟩
  · cases ordinary.symm.trans terminal
  · exact .inl ⟨accounts, rfl, rfl, rfl⟩
  refine Prog.Wp.bind ((obeys_staged ic.reserveFinalMetadata_spec).weaken fun reserved past₁ spec => ?_)
  obtain ⟨⟨e, rfl⟩ | ⟨fits, body, rfl⟩, sent⟩ := spec
  · exact .inl ⟨⟨accounts.bound, accounts.covers, accounts.compact, accounts.final⟩, rfl, rfl, sent⟩
  have accounts₁ := accounts.reserved fits body
  dsimp only
  split_ifs with held
  · exact .inl ⟨accounts₁, rfl, rfl, sent⟩
  rw [writeHeader_started_eq, Prog.ret_bind]
  refine Prog.Wp.bind ((obeys_unguarded ((commitHandshake_pays accounts₁.started rfl first canonical
    compact).and (commitHandshake_copies _))).weaken fun ic₂ past₂ spec => ?_)
  obtain ⟨⟨canonical₂, paid⟩, handshaken⟩ := spec
  refine Prog.Wp.bind (ic₂.w.flush_ledger.weaken ?_)
  rintro ⟨err, w⟩ past₃ ⟨header, same⟩
  refine .inr ⟨handshaken.terminal, ?_, ?_, accounts₁.bound⟩
  · dsimp only at header ⊢
    rw [header]
    exact canonical₂
  · dsimp only at same ⊢
    rw [same, ← sent]
    exact paid

omit ordinary in
theorem hijack_pays :
    Obeys Unguarded
      (fun result past' => Keeps h ic past result.2 past' ∨ Pays h ic past result.2 past')
      (ic.hijack h conn) past := by
  unfold hijack
  split_ifs with plain failed
  · exact .inl ⟨accounts, rfl, rfl, rfl⟩
  · exact .inl ⟨accounts, rfl, rfl, rfl⟩
  refine Prog.Wp.bind ((obeys_staged ic.reserveFinalMetadata_spec).weaken fun reserved past₁ spec => ?_)
  obtain ⟨⟨e, rfl⟩ | ⟨fits, body, rfl⟩, sent⟩ := spec
  · exact .inl ⟨⟨accounts.bound, accounts.covers, accounts.compact, accounts.final⟩, rfl, rfl, sent⟩
  have accounts₁ := accounts.reserved fits body
  dsimp only
  split_ifs with held
  · exact .inl ⟨accounts₁, rfl, rfl, sent⟩
  refine Prog.Wp.bind ((obeys_unguarded ((commitHandshake_pays accounts₁ rfl first canonical
    compact).and (commitHandshake_copies _))).weaken fun ic₂ past₂ spec => ?_)
  obtain ⟨⟨canonical₂, paid⟩, handshaken⟩ := spec
  have paid : sentBytes past₂ + ic₂.w.pending ≤ sentBytes past + ic.metadataReserved h := by
    rw [← sent]
    exact paid
  refine obeys_act trivial fun err _ => .inr ?_
  have silent : sentBytes (⟨.hijack, err⟩ :: past₂) = sentBytes past₂ :=
    sentBytes_silent (fun _ _ same => by cases same) past₂
  cases err with
  | some e =>
      refine ⟨handshaken.terminal, canonical₂, ?_, accounts₁.bound⟩
      show sentBytes _ + ic₂.w.pending ≤ _
      rw [silent]
      exact paid
  | none =>
      refine ⟨handshaken.terminal, canonical₂, ?_, accounts₁.bound⟩
      show sentBytes _ + Writer.pending { ic₂.w with hijacked := true } ≤ _
      have closed : Writer.pending { ic₂.w with hijacked := true } = 0 := by simp [Writer.pending]
      have pending := ic₂.w.pending_nonneg
      rw [silent, closed]
      omega

end Handshakes

end Interceptor

namespace Handler

open Interceptor

variable {h : Handler} {conn : Conn} {past : History}

theorem serveCall_pays {ic : Interceptor} (c : DownCall) (r : Incoming) (accounts : Accounts h ic)
    (ordinary : ic.terminal = false) (first : ic.processed = false)
    (canonical : Canonical ic.w.header) (compact : Compact ic.responseHeader)
    (steady : ∀ change, c = .setHeader change → ic.finalMetadataReserved = true →
      stagedHeaderBytes (change ic.responseHeader) ≤ stagedHeaderBytes ic.responseHeader) :
    Obeys Unguarded
      (fun result past' => Keeps h ic past result.2.1 past' ∨ Pays h ic past result.2.1 past')
      (serveCall h conn c ic r) past := by
  cases c with
  | setHeader change =>
      refine .inl ⟨⟨accounts.bound, ?_, accounts.compact, accounts.final⟩, rfl, rfl, rfl⟩
      have covers := accounts.covers
      dsimp only
      cases paid : ic.finalMetadataReserved with
      | true =>
          have smaller := steady change rfl paid
          simp only [paid, if_true] at covers ⊢
          omega
      | false =>
          simp only [paid, Bool.false_eq_true, if_false] at covers ⊢
          exact covers
  | writeHeader status =>
      exact Prog.Wp.bind ((writeHeader_keeps accounts compact status).weaken fun _ _ keeps => .inl keeps)
  | write p =>
      exact Prog.Wp.bind ((write_keeps accounts ordinary p).weaken fun _ _ keeps => .inl keeps)
  | flushError =>
      exact Prog.Wp.bind ((flushError_pays accounts ordinary first canonical compact).weaken
        fun _ _ pays => pays)
  | hijack =>
      exact Prog.Wp.bind ((hijack_pays accounts first canonical compact).weaken
        fun _ _ pays => pays)
  | header | trailer | readBody | closeBody => exact .inl ⟨accounts, rfl, rfl, rfl⟩

theorem relay_ledger {ic : Interceptor} {c : DownCall} (r : Incoming)
    (terminal : ic.terminal = true) (call : c = .flushError ∨ ∃ p, c = .write p) :
    Obeys Unguarded
      (fun result past' => result.2.1.w.header = ic.w.header ∧
        result.2.1.w.ledger past' = ic.w.ledger past)
      (serveCall h conn c ic r) past := by
  obtain rfl | ⟨p, rfl⟩ := call
  · rw [serveCall, flushError]
    split_ifs with plain
    · exact ⟨rfl, rfl⟩
    · rw [Prog.bind_bind]
      exact Prog.Wp.bind (ic.w.flush_ledger.weaken fun _ _ spec => spec)
  · rw [serveCall, Interceptor.write, if_pos terminal, Prog.bind_bind]
    exact Prog.Wp.bind ((ic.w.write_ledger p).weaken fun _ _ spec => spec)

/-! ## All dealings -/

/-- The downstream handler's headers are compact, do not grow once they are paid for, and are committed
in one handshake at most. -/
structure Accountable (dealings : List Dealing) : Prop where
  compact : ∀ d ∈ dealings, d.before.terminal = false → Compact d.before.responseHeader
  steady : ∀ d ∈ dealings, d.before.terminal = false → ∀ change, d.call = .setHeader change →
    d.before.finalMetadataReserved = true →
    stagedHeaderBytes (change d.before.responseHeader) ≤ stagedHeaderBytes d.before.responseHeader
  once : ∀ d ∈ dealings, d.commits = true → d.before.terminal = false

theorem Accountable.tail {d : Dealing} {dealings : List Dealing}
    (accountable : Accountable (d :: dealings)) : Accountable dealings where
  compact := fun d later => accountable.compact d (List.mem_cons_of_mem _ later)
  steady := fun d later => accountable.steady d (List.mem_cons_of_mem _ later)
  once := fun d later => accountable.once d (List.mem_cons_of_mem _ later)

theorem sentBytes_aside {P : Call → Prop} {new : History} (only : Only P new)
    (aside : ∀ status hdr, ¬ P (.writeHeader status hdr)) (past : History) :
    sentBytes (new ++ past) = sentBytes past := by
  induction new with
  | nil => rfl
  | cons d new ih =>
      rw [List.cons_append, sentBytes_silent, ih fun d later => only d (List.mem_cons_of_mem _ later)]
      intro status hdr same
      exact aside status hdr (same ▸ only d List.mem_cons_self)

theorem sentBytes_staging {new : History} (only : Only Staging new) (past : History) :
    sentBytes (new ++ past) = sentBytes past :=
  sentBytes_aside only (fun _ _ => id) past

/-- The downstream handler has left everything staged. -/
structure Unsettled (h : Handler) (ic : Interceptor) (past : History) (ic' : Interceptor)
    (past' : History) : Prop where
  keeps : Keeps h ic past ic' past'
  processed : ic'.processed = false
  live : ic'.live = ic.live

section Dealt

variable {next : Except Panic Down} {ic ic' : Interceptor} {r : Incoming} {past' : History}
  {dealings : List Dealing} {ended : Ended}

theorem Dealt.relays (dealt : Dealt h conn next ic r past dealings ended ic' past')
    (accountable : Accountable dealings) (terminal : ic.terminal = true) :
    ic'.terminal = true ∧ ic'.w.header = ic.w.header ∧ ic'.w.ledger past' = ic.w.ledger past := by
  induction dealt with
  | panicked | returned => exact ⟨terminal, rfl, rfl⟩
  | @call c _ ic ic₁ _ r _ past new _ _ _ _ served rest ih =>
      have step : ic₁.terminal = true ∧ ic₁.w.header = ic.w.header ∧
          ic₁.w.ledger (new ++ past) = ic.w.ledger past := by
        cases reach_of_served served with
        | stages only kept response =>
            refine ⟨kept.terminal.trans terminal, by rw [kept.w], ?_⟩
            rw [kept.w, Writer.ledger, sentBytes_staging only]
            rfl
        | relays _ call only header processed stays response =>
            exact ⟨stays, (relay_ledger r terminal call).run served⟩
        | handshakes commits only handshaken =>
            cases terminal.symm.trans (accountable.once _ List.mem_cons_self commits)
      obtain ⟨terminal₂, header, same⟩ := ih accountable.tail step.1
      exact ⟨terminal₂, header.trans step.2.1, same.trans step.2.2⟩

theorem Dealt.pays (dealt : Dealt h conn next ic r past dealings ended ic' past')
    (accountable : Accountable dealings) (accounts : Accounts h ic)
    (ordinary : ic.terminal = false) (first : ic.processed = false) (canonical : Canonical ic.w.header) :
    Unsettled h ic past ic' past' ∨ ∃ d ∈ dealings, d.commits = true ∧ ic'.terminal = true ∧
      Canonical ic'.w.header ∧ ic'.w.ledger past' ≤ sentBytes past + d.before.metadataReserved h ∧
      d.before.metadataReserved h ≤ stagedResponseMaxMetadataBytes := by
  induction dealt with
  | panicked | returned => exact .inl ⟨⟨accounts, rfl, rfl, rfl⟩, first, rfl⟩
  | @call c _ ic ic₁ _ r _ past new _ _ _ _ served rest ih =>
      have compact := accountable.compact _ List.mem_cons_self ordinary
      have steady := accountable.steady _ List.mem_cons_self ordinary
      have reach := reach_of_served served
      obtain keeps | pays := (serveCall_pays c r accounts ordinary first canonical compact steady).run
        served
      · have still : ic₁.terminal = false := keeps.terminal.trans ordinary
        have kept : OnlyStaged ic ic₁ := by
          cases reach with
          | stages only kept response => exact kept
          | relays terminal => cases ordinary.symm.trans terminal
          | handshakes commits only handshaken => cases still.symm.trans handshaken.terminal
        have first₁ : ic₁.processed = false := kept.processed.trans first
        have canonical₁ : Canonical ic₁.w.header := by
          rw [keeps.w]
          exact canonical
        obtain ⟨keeps₂, first₂, live⟩ | ⟨d, later, commits, terminal, form, paid, bound⟩ :=
          ih accountable.tail keeps.accounts still first₁ canonical₁
        · exact .inl ⟨⟨keeps₂.accounts, keeps₂.w.trans keeps.w, keeps₂.terminal.trans keeps.terminal,
            keeps₂.sent.trans keeps.sent⟩, first₂, live.trans kept.live⟩
        · refine .inr ⟨d, List.mem_cons_of_mem _ later, commits, terminal, form, ?_, bound⟩
          rw [← keeps.sent]
          exact paid
      · have commits : Dealing.commits ⟨ic, c, ic₁, new⟩ = true := by
          cases reach with
          | stages only kept response =>
              cases ordinary.symm.trans (kept.terminal.symm.trans pays.terminal)
          | relays terminal => cases ordinary.symm.trans terminal
          | handshakes commits only handshaken => exact commits
        obtain ⟨terminal, header, same⟩ := rest.relays accountable.tail pays.terminal
        refine .inr ⟨_, List.mem_cons_self, commits, terminal, ?_, ?_, pays.bound⟩
        · rw [header]
          exact pays.canonical
        · rw [same]
          exact pays.covered

theorem Dealt.wire (dealt : Dealt h conn next ic r past dealings ended ic' past') :
    ∃ new, past' = new ++ past ∧ Only Wire new := by
  obtain ⟨new, same, only, -⟩ := dealt.carries (P := fun _ => True) (fun _ _ _ => trivial)
    (fun _ => trivial) fun _ _ _ _ _ => trivial
  exact ⟨new, same, only.mono fun _ carrying => carrying.1⟩

end Dealt

section Leaving

variable {ic : Interceptor} (canonical : Canonical ic.w.header)

include canonical

theorem rollBack_ledger :
    Obeys Unguarded (fun ic' past' => ic'.w.ledger past' = sentBytes past) (rollBack h ic) past := by
  have empty : Writer.pending { ic.w with header := clearHeaders ic.w.header } = 0 := by
    apply le_antisymm
    · exact (Writer.pending_le _).trans (stagedHeaderBytes_clearHeaders canonical).le
    · exact Writer.pending_nonneg _
  refine (obeys_staged (rollBack_obeys ic)).weaken ?_
  rintro ic' past' ⟨⟨-, cleared⟩, sent⟩
  rw [cleared, Writer.ledger, sent, empty, Int.add_zero]

theorem refuse_ledger :
    Obeys Unguarded (fun ic' past' => ic'.w.ledger past' = sentBytes past) (refuse h ic) past := by
  refine Prog.Wp.bind ((rollBack_ledger canonical).weaken fun ic₁ past₁ empty => ?_)
  refine Prog.Wp.bind ((ic₁.w.writeHeader_ledger 502).weaken fun w past₂ spec => ?_)
  exact (spec.2.2 (by decide)).trans empty

theorem conclude_relays (err : Option Err) (terminal : ic.terminal = true) :
    Obeys Unguarded (fun result past' => result.2.w.ledger past' ≤ ic.w.ledger past)
      (conclude h ic err) past := by
  have sent : sentBytes past ≤ ic.w.ledger past := ic.w.sentBytes_le_ledger past
  unfold conclude
  split_ifs with failed
  · refine Prog.Wp.bind ((refuse_ledger canonical).weaken fun ic₁ past₁ same => ?_)
    exact same.trans_le sent
  · cases err with
    | some e =>
        refine Prog.Wp.bind ((rollBack_ledger canonical).weaken fun ic₁ past₁ same => ?_)
        exact same.trans_le sent
    | none =>
        refine Prog.Wp.bind ((obeys_staged ic.reserveFinalMetadata_spec).weaken
          fun reserved past₁ spec => ?_)
        obtain ⟨⟨e, rfl⟩ | ⟨-, body, rfl⟩, same⟩ := spec
        · rw [← same] at sent
          exact Prog.Wp.bind (Prog.Wp.weaken (refuse_ledger canonical)
            fun ic₁ past₂ refused => refused.trans_le sent)
        · dsimp only
          rw [if_pos (show (ic.reserving body (ic.metadataReserved h) true).terminal = true from
            terminal)]
          show sentBytes past₁ + ic.w.pending ≤ _
          rw [same]
          exact le_rfl

end Leaving

theorem copyFile_ledger (b : StagedBody) (f : SpoolFile) (w : Writer) :
    Obeys Unguarded (fun result past' => result.2.2.ledger past' = w.ledger past) (b.copyFile f w)
      past := by
  refine obeys_act trivial fun copied _ => ?_
  obtain ⟨n, readErr⟩ := copied
  have silent : w.ledger (⟨.fileCopy (f.content.drop f.offset).length, (n, readErr)⟩ :: past) =
      w.ledger past := by
    rw [Writer.ledger, sentBytes_silent fun _ _ same => by cases same]
    rfl
  dsimp only
  split_ifs with empty
  · exact silent
  · exact Prog.Wp.bind ((w.write_ledger _).weaken fun _ _ spec => spec.2.trans silent)

theorem flushTo_ledger (b : StagedBody) (w : Writer) :
    Obeys Unguarded (fun result past' => result.2.2.ledger past' = w.ledger past) (b.flushTo w)
      past := by
  unfold StagedBody.flushTo
  cases b.file with
  | none => exact Prog.Wp.bind ((w.write_ledger _).weaken fun _ _ spec => spec.2)
  | some f =>
      refine Prog.Wp.bind ((obeys_staged b.validate_obeys).weaken fun result past₁ spec => ?_)
      obtain ⟨invalid, b₁⟩ := result
      have same : w.ledger past₁ = w.ledger past := by
        rw [Writer.ledger, spec.2]
        rfl
      cases invalid with
      | some e => exact same
      | none =>
          dsimp only
          cases b₁.file with
          | none => exact same
          | some f => exact (copyFile_ledger b₁ f w).weaken fun _ _ copied => copied.trans same

theorem emit_ledger {ic : Interceptor} (canonical : Canonical ic.w.header)
    (compact : ∀ info ∈ ic.informational, Compact info.header)
    (final : Writer.informational ic.status = false) :
    Obeys Unguarded
      (fun result past' => result.2.w.ledger past' ≤ sentBytes past +
        ((ic.informational.map fun info => stagedHeaderBytes info.header).sum +
          stagedHeaderBytes ic.responseHeader))
      (emit h ic) past := by
  unfold emit
  refine Prog.Wp.bind ((commitInformational_sent _ compact ic.w canonical).weaken ?_)
  rintro w₁ past₁ ⟨canonical₁, sent₁⟩
  have copied := stagedHeaderBytes_copyHeaders canonical₁ ic.responseHeader
  have paid : Writer.ledger { w₁ with header := copyHeaders w₁.header ic.responseHeader } past₁ ≤
      sentBytes past + ((ic.informational.map fun info => stagedHeaderBytes info.header).sum +
        stagedHeaderBytes ic.responseHeader) := by
    have pending := Writer.pending_le { w₁ with
      header := copyHeaders w₁.header ic.responseHeader }
    unfold Writer.ledger
    dsimp only at pending
    omega
  have finalised : Writer.informational (finalStatus ic) = false := by
    unfold finalStatus
    split_ifs
    · decide
    · exact final
  have sends : ∀ w : Writer, Obeys Unguarded
      (fun w' past' => w'.ledger past' = w.ledger past₁) (w.writeHeader (finalStatus ic)) past₁ :=
    fun w => (w.writeHeader_ledger _).weaken fun _ _ spec => spec.2.2 finalised
  dsimp only
  split_ifs with wrote body
  · exact paid
  · refine Prog.Wp.bind ((sends _).weaken fun w₂ past₂ same => ?_)
    refine Prog.Wp.bind ((flushTo_ledger _ w₂).weaken fun result past₃ flushed => ?_)
    exact (flushed.trans same).trans_le paid
  · refine Prog.Wp.bind ((sends _).weaken fun w₂ past₂ same => ?_)
    exact same.trans_le paid

theorem ensureProcessed_pays {ic : Interceptor} (first : ic.processed = false)
    (settled : Settled past) (unpending : Unpending ic.live) (sized : Sized past)
    (spaced : Spaced ic.responseHeader) :
    Obeys Unguarded
      (fun ic' past' => sentBytes past' = sentBytes past ∧ ic'.w = ic.w ∧
        ic'.informational = ic.informational ∧ ic'.status = ic.status ∧
        stagedHeaderBytes ic'.responseHeader ≤
          stagedHeaderBytes ic.responseHeader + generatedMetadataAllowance h)
      (ic.ensureProcessed h) past := by
  have silent : ∀ (past : History) c, Guarded past c ∧ Guarded past c →
      ∀ status hdr, c ≠ .writeHeader status hdr := by
    rintro past c ⟨guarded, -⟩ status hdr rfl
    exact guarded.1.1
  have marked : ∀ (err : Option Err) (past : History),
      sentBytes (⟨.processed err, ()⟩ :: past) = sentBytes past :=
    fun err past => sentBytes_silent (fun _ _ same => by cases same) past
  unfold ensureProcessed
  rw [if_neg (by simp [first])]
  refine Prog.Wp.bind ((obeys_unsent silent ((process_obeys { ic with processed := true } settled
    unpending.held).and (process_bytes { ic with processed := true } settled unpending sized
    spaced))).weaken ?_)
  rintro ⟨result, ic₁⟩ past₁ ⟨⟨tidied, within⟩, sent⟩
  obtain ⟨responseHeader, live, rfl⟩ := tidied.frame
  cases result with
  | ok done => exact obeys_act trivial fun _ _ => ⟨(marked _ _).trans sent, rfl, rfl, rfl, within⟩
  | error e =>
      refine obeys_act trivial fun _ _ => ?_
      dsimp only
      split_ifs
      · exact ⟨(marked _ _).trans sent, rfl, rfl, rfl, within⟩
      · exact ⟨(marked _ _).trans sent, rfl, rfl, rfl, within⟩

theorem settle_pays {ic : Interceptor} (first : ic.processed = false)
    (canonical : Canonical ic.w.header) (compact : ∀ info ∈ ic.informational, Compact info.header)
    (final : Writer.informational ic.status = false) (spaced : Spaced ic.responseHeader)
    (settled : Settled past) (unpending : Unpending ic.live) (sized : Sized past) :
    Obeys Unguarded
      (fun result past' => result.2.w.ledger past' = sentBytes past ∨
        result.2.w.ledger past' ≤ sentBytes past +
          ((ic.informational.map fun info => stagedHeaderBytes info.header).sum +
            (stagedHeaderBytes ic.responseHeader + generatedMetadataAllowance h)))
      (settle h ic) past := by
  unfold settle
  refine Prog.Wp.bind ((ensureProcessed_pays first settled unpending sized spaced).weaken ?_)
  rintro ic₁ past₁ ⟨sent, same, infos, status, within⟩
  have canonical₁ : Canonical ic₁.w.header := by
    rw [same]
    exact canonical
  split_ifs with failed
  · exact Prog.Wp.bind ((refuse_ledger canonical₁).weaken fun _ _ empty => .inl (empty.trans sent))
  · refine (emit_ledger canonical₁ (by rwa [infos]) (by rwa [status])).weaken
      fun result past₂ paid => .inr ?_
    rw [sent, infos] at paid
    omega

theorem conclude_pays {ic : Interceptor} (err : Option Err) (accounts : Accounts h ic)
    (ordinary : ic.terminal = false) (first : ic.processed = false)
    (canonical : Canonical ic.w.header) (compact : Compact ic.responseHeader) (settled : Settled past)
    (unpending : Unpending ic.live) (sized : Sized past) :
    Obeys Unguarded
      (fun result past' => result.2.w.ledger past' = sentBytes past ∨
        (result.2.w.ledger past' ≤ sentBytes past + ic.metadataReserved h ∧
          ic.metadataReserved h ≤ stagedResponseMaxMetadataBytes))
      (conclude h ic err) past := by
  have refused : ∀ {ic' : Interceptor} {past' : History}, ic'.w = ic.w →
      sentBytes past' = sentBytes past →
      Obeys Unguarded
        (fun result past'' => result.2.w.ledger past'' = sentBytes past ∨
          (result.2.w.ledger past'' ≤ sentBytes past + ic.metadataReserved h ∧
            ic.metadataReserved h ≤ stagedResponseMaxMetadataBytes))
        (do let ic ← refuse h ic'; return ((none : Option Err), ic)) past' := by
    intro ic' past' same sent
    refine Prog.Wp.bind ((refuse_ledger (same ▸ canonical)).weaken fun ic₁ past₁ empty => ?_)
    exact .inl (empty.trans sent)
  unfold conclude
  split_ifs with failed
  · exact refused rfl rfl
  cases err with
  | some e =>
      exact Prog.Wp.bind ((rollBack_ledger canonical).weaken fun ic₁ past₁ empty => .inl empty)
  | none =>
      refine Prog.Wp.bind ((obeys_unguarded (obeys_new ic.reserveFinalMetadata_spec)).weaken
        fun reserved past₁ spec => ?_)
      obtain ⟨spec, new₁, rfl, only₁⟩ := spec
      obtain ⟨e, rfl⟩ | ⟨fits, body, rfl⟩ := spec
      · exact refused rfl (sentBytes_staging only₁ past)
      have accounts₁ := accounts.reserved fits body
      dsimp only
      rw [if_neg (show ¬ (ic.reserving body (ic.metadataReserved h) true).terminal = true by
        simp [reserving, ordinary])]
      refine Prog.Wp.bind ((obeys_unguarded (obeys_new (StagedBody.validate_obeys _))).weaken
        fun validated past₂ spec => ?_)
      obtain ⟨invalid, body'⟩ := validated
      obtain ⟨-, new₂, rfl, only₂⟩ := spec
      rw [← List.append_assoc]
      have only := only₂.append only₁
      have sent := sentBytes_staging only past
      cases invalid with
      | some e => exact refused rfl sent
      | none =>
          refine Prog.Wp.weaken (settle_pays ?_ ?_ ?_ ?_ ?_ ?_ ?_ ?_) fun result past₃ pays => ?_
          · exact first
          · exact canonical
          · exact accounts.compact
          · exact accounts.final
          · exact compact.spaced
          · exact settled.append (only.mono fun _ => Staging.proper)
          · exact unpending
          · exact sized.append only id
          · have covers : (ic.informational.map fun info => stagedHeaderBytes info.header).sum +
                (stagedHeaderBytes ic.responseHeader + generatedMetadataAllowance h) ≤
                ic.metadataReserved h := accounts₁.covers
            rw [sent] at pays
            refine pays.imp_right fun paid => ⟨paid.trans ?_, accounts₁.bound⟩
            dsimp only [reserving]
            omega

/-! ## A whole exchange -/

theorem Wire.proper {c : Call} (wire : Wire c) (past : History) : Proper past c := by
  cases c with
  | store => exact wire.elim False.elim False.elim
  | _ => trivial

/-- `bytes` of metadata were reserved when header blocks were committed; none if nothing was. -/
def Reserved (h : Handler) (dealings : List Dealing) (ic : Interceptor) (bytes : Int) : Prop :=
  bytes ≤ stagedResponseMaxMetadataBytes ∧
    (bytes = 0 ∨ bytes = ic.metadataReserved h ∨
      ∃ d ∈ dealings, d.commits = true ∧ bytes = d.before.metadataReserved h)

theorem reserved_nothing (dealings : List Dealing) (ic : Interceptor) : Reserved h dealings ic 0 :=
  ⟨by decide, .inl rfl⟩

theorem opened_accounts (w : Writer) (p : Presented) : Accounts h (opened w p) where
  bound := show (0 : Int) ≤ stagedResponseMaxMetadataBytes by decide
  covers := le_rfl
  compact := fun info member => by cases member
  final := show Writer.informational 0 = false by decide

theorem close_ledger {b : StagedBody} {closed : Option Err × StagedBody} {past' : History}
    (close : Prog.Run History.step b.close past closed past') (w : Writer) :
    w.ledger past' = w.ledger past := by
  have sent := ((obeys_staged b.close_obeys).run close).2
  rw [Writer.ledger, sent]
  rfl

theorem ledger_returned (w : Writer) (err : Option Err) (left : Header) (past : History) :
    w.ledger (⟨.returned err left, ()⟩ :: past) = w.ledger past := by
  rw [Writer.ledger, sentBytes_silent (fun _ _ same => by cases same)]
  rfl

theorem Leaves.relays {ic : Interceptor} {past' : History} {left ended : Ended} {w : Writer}
    (leaves : Leaves h ic past left ended w past') (canonical : Canonical ic.w.header)
    (terminal : ic.terminal = true) : w.ledger past' ≤ ic.w.ledger past := by
  cases leaves with
  | panicked close => exact (close_ledger close _).le
  | @returned err err' ic' closed past₁ _ concludes close =>
      have relays := (conclude_relays canonical err terminal).run concludes
      rw [ledger_returned] at relays
      exact (close_ledger close _).trans_le relays

section Forwarded

variable {x : Exchange} {p : Presented} {before mid : History} {next : Except Panic Down}
  {ic₀ ic : Interceptor} {r : Incoming} {asked : Request} {dealings : List Dealing} {left : Ended}
  (resolving : x.Resolving p before)
  (dealt : Dealt h conn next ic₀ r (⟨.next asked, ()⟩ :: before) dealings left ic mid)

include resolving dealt

theorem Dealt.settled : Settled mid := by
  obtain ⟨new, rfl, only⟩ := dealt.wire
  exact (resolving.settled.cons (c := .next asked) trivial ()).append
    (only.mono fun _ => Wire.proper)

theorem Dealt.sized : Sized mid := by
  obtain ⟨new, rfl, only⟩ := dealt.wire
  have fresh : Sized before := sized_of_run resolving.ran fun buf member => by cases member
  exact (fresh.cons (c := .next asked) (fun same => by cases same) ()).append only
    fun wire => wire.elim id id

end Forwarded

variable {x : Exchange}

theorem forward_pays {p : Presented} {before past whole : History} {ended : Ended} {w : Writer}
    {dealings : List Dealing} {ic : Interceptor} (resolving : x.Resolving p before)
    (run : Prog.Run History.step
      (x.handler.forward x.conn { header := x.outer } x.stripped p x.next) before (ended, w) past)
    (deals : Deals x.handler x.conn { header := x.outer } x.stripped p x.next before whole dealings
      ic)
    (begins : past <:+ whole) (outer : Canonical x.outer) (accountable : Accountable dealings)
    (compact : ic.terminal = false → Compact ic.responseHeader) :
    ∃ bytes, Reserved x.handler dealings ic bytes ∧ sentBytes past ≤ sentBytes before + bytes ∧
      (ended = .returned none → w.ledger past ≤ sentBytes before + bytes) := by
  obtain ⟨left, mid, dealt, leaves⟩ := forward_leaves run deals begins
  have start : sentBytes (⟨.next (x.handler.upstream x.stripped p), ()⟩ :: before) =
      sentBytes before := sentBytes_silent (fun _ _ same => by cases same) before
  obtain unsettled | ⟨d, member, commits, terminal, canonical, paid, bound⟩ :=
    dealt.pays accountable (opened_accounts _ _) rfl rfl outer
  · have ordinary : ic.terminal = false := unsettled.keeps.terminal
    have sent : sentBytes mid = sentBytes before := unsettled.keeps.sent.trans start
    cases leaves with
    | panicked close =>
        have closed := close_ledger close ic.w
        refine ⟨0, reserved_nothing _ _, ?_, fun same => by cases same⟩
        unfold Writer.ledger at closed
        omega
    | @returned err err' ic' closed past₁ _ concludes close =>
        have settled := (dealt.settled resolving).cons (c := .returned err ic.responseHeader) trivial ()
        have sized := (dealt.sized resolving).cons (c := .returned err ic.responseHeader)
          (fun same => by cases same) ()
        have unpending : Unpending ic.live := by
          intro l same
          rw [unsettled.live] at same
          obtain ⟨keyID, -, row, now, ttl, -, -, -, -, still, -⟩ := resolving.live l same
          exact still
        have canonical : Canonical ic.w.header := by
          rw [unsettled.keeps.w]
          exact outer
        have pays := (conclude_pays err unsettled.keeps.accounts ordinary unsettled.processed
          canonical (compact ordinary) settled unpending sized).run concludes
        rw [sentBytes_silent (fun _ _ same => by cases same), sent] at pays
        have le := ic'.w.sentBytes_le_ledger past
        rw [close_ledger close ic'.w] at le ⊢
        obtain nothing | ⟨paid, bound⟩ := pays
        · refine ⟨0, reserved_nothing _ _, ?_, fun _ => ?_⟩
          · exact le.trans (nothing.trans (Int.add_zero _).symm).le
          · exact (nothing.trans (Int.add_zero _).symm).le
        · exact ⟨_, ⟨bound, .inr (.inl rfl)⟩, le.trans paid, fun _ => paid⟩
  · rw [start] at paid
    have within := (leaves.relays canonical terminal).trans paid
    exact ⟨_, ⟨bound, .inr (.inr ⟨d, member, commits, rfl⟩)⟩,
      (w.sentBytes_le_ledger past).trans within, fun _ => within⟩

def finish (ended : Ended) (w : Writer) : Act (Ended × Writer) :=
  match ended with
  | .returned none => do return (.returned none, ← w.writeHeader 200)
  | ended => return (ended, w)

theorem finish_ledger {ended ended' : Ended} {w w' : Writer} {past' : History} {bytes : Int}
    (run : Prog.Run History.step (finish ended w) past (ended', w') past')
    (sent : sentBytes past ≤ bytes) (paid : ended = .returned none → w.ledger past ≤ bytes) :
    sentBytes past' ≤ bytes := by
  match ended, run with
  | .returned none, run =>
      obtain ⟨w₁, past₁, wrote, done⟩ := run.split
      cases done
      have same := ((w.writeHeader_ledger 200).run wrote).2.2 (by decide)
      exact (w'.sentBytes_le_ledger past').trans (same.trans_le (paid rfl))
  | .returned (some err), run =>
      cases run
      exact sent
  | .panicked p, run =>
      cases run
      exact sent

theorem forward_of_prog {ended : Ended} {w : Writer} {past : History}
    (run : Prog.Run History.step x.prog [] (ended, w) past) :
    (∀ r, (⟨.next r, ()⟩ : Deed) ∉ past) ∨
    ∃ p before ended₁ w₁ past₁, x.Resolving p before ∧ sentBytes before = 0 ∧
      Prog.Run History.step
        (x.handler.forward x.conn { header := x.outer } x.stripped p x.next) before (ended₁, w₁)
        past₁ ∧
      Prog.Run History.step (finish ended₁ w₁) past₁ (ended, w) past := by
  obtain ⟨⟨ended₁, w₁⟩, past₁, served, finishes⟩ := run.split
  obtain ⟨result, before, resolves, rest⟩ := served.split
  obtain ⟨only, resolving⟩ := x.resolvePresented_obeys.run resolves
  have unasked : ∀ r, (⟨.next r, ()⟩ : Deed) ∉ before := fun r member => only _ member
  cases result with
  | error e =>
      cases rest
      cases finishes
      exact .inl unasked
  | ok p =>
      have resolved := resolving p rfl
      have unsent : sentBytes before = 0 := by
        have same := sentBytes_aside only (fun _ _ => id) []
        rwa [List.append_nil] at same
      dsimp only at rest
      cases policy : x.handler.authz with
      | none =>
          rw [policy] at rest
          exact .inr ⟨p, before, ended₁, w₁, past₁, resolved, unsent, rest, finishes⟩
      | some a =>
          rw [policy] at rest
          dsimp only at rest
          cases lacks : lacking a (x.handler.stripSpoofed x.request) p.live with
          | none =>
              rw [lacks] at rest
              exact .inr ⟨p, before, ended₁, w₁, past₁, resolved, unsent, rest, finishes⟩
          | some required =>
              rw [lacks] at rest
              obtain ⟨w₂, past₂, denies, done⟩ := rest.split
              cases done
              obtain ⟨status, hdr, rfl, rfl, -⟩ := (x.denyAuthz_obeys a required).run denies
              obtain ⟨w₃, past₃, writes, done⟩ := Prog.Run.split finishes
              cases done
              cases writes
              refine .inl fun r member => ?_
              obtain same | earlier := List.mem_cons.mp member
              · cases same
              · exact unasked r earlier

/-- The header is set before the body is written. -/
def earlyHeader : Exchange where
  handler := sampleHandler
  conn := ⟨true, false⟩
  outer := ∅
  request := { path := lit "/" }
  next := fun _ => headerSetter (lit "X-Early") (lit "value") <|
    .call (.write (lit "body")) fun _ => .ret none

theorem accountable_nil : Accountable [] :=
  ⟨fun d member => (by cases member), fun d member => (by cases member),
    fun d member => by cases member⟩

theorem Accountable.cons {d : Dealing} {dealings : List Dealing} (accountable : Accountable dealings)
    (compact : Compact d.before.responseHeader) (uncommitted : d.commits = false)
    (steady : ∀ change, d.call = .setHeader change → d.before.finalMetadataReserved = false) :
    Accountable (d :: dealings) where
  compact := List.forall_mem_cons.mpr ⟨fun _ => compact, accountable.compact⟩
  steady := List.forall_mem_cons.mpr ⟨fun _ change same reserved =>
    (by cases (steady change same).symm.trans reserved), accountable.steady⟩
  once := List.forall_mem_cons.mpr ⟨fun commits => (by cases uncommitted.symm.trans commits),
    accountable.once⟩

theorem earlyHeader_accountable {past : History} {dealings : List Dealing} {ic : Interceptor}
    (deals : earlyHeader.Deals past dealings ic) :
    Accountable dealings ∧ Compact ic.responseHeader := by
  have empty : Compact ∅ := ⟨canonical_empty, by unfold Spaced; decide⟩
  have early : Compact ((∅ : Header).set (lit "X-Early") (lit "value")) :=
    ⟨canonical_empty.set _ _, by unfold Spaced; decide⟩
  obtain ⟨p, before, -, left, mid, -, dealt⟩ := deals
  cases dealt with
  | @call _ _ _ ic₁ _ _ _ _ _ _ answer dealings _ served rest =>
      have set : ic₁.responseHeader = _ := (reach_of_served served).response_eq rfl
      suffices later : Accountable dealings ∧ Compact ic.responseHeader from
        ⟨later.1.cons empty rfl fun _ _ => rfl, later.2⟩
      have compact : Compact ic₁.responseHeader := by
        rw [set]
        exact early
      cases answer with
      | error panic =>
          cases rest
          exact ⟨accountable_nil, compact⟩
      | ok _ =>
          cases rest with
          | @call _ _ _ ic₂ _ _ _ _ new _ answer dealings _ served rest =>
              have written : ic₂.responseHeader = _ := (reach_of_served served).response_eq rfl
              have tidy₂ : Compact ic₂.responseHeader := by
                rw [written]
                exact compact
              have steady : Accountable [⟨ic₁, .write (lit "body"), ic₂, new⟩] :=
                accountable_nil.cons compact rfl fun _ same => by cases same
              cases answer with
              | error panic =>
                  cases rest
                  exact ⟨steady, tidy₂⟩
              | ok _ =>
                  cases rest
                  exact ⟨steady, tidy₂⟩

/-- A takeover is refused for the body that is staged already, and the header is changed after it. -/
def lateHeader (value : GoString) : Exchange where
  handler := sampleHandler
  conn := ⟨true, false⟩
  outer := ∅
  request := { path := lit "/" }
  next := fun _ => .call (.write (lit "body")) fun _ => .call .hijack fun _ =>
    headerSetter (lit "X-Late") value (.ret none)

end Handler

end Gosestor
