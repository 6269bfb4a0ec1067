import Gosestor.Proof.Handler.Downstream
import Gosestor.Proof.Handler.Processing

/-!
# How a request ends

Rules for what follows the downstream handler. A response is declined, and then nothing of it is
kept, or it is settled: processed, and sent or refused.
-/

namespace Gosestor

open Gosestor.Go Gosestor.Lib Gosestor.Session

namespace Writer

def Fresh (w : Writer) : Prop := w.wrote = false ∧ w.hijacked = false

theorem Fresh.withHeader {w : Writer} (fresh : w.Fresh) (header : Header) :
    Fresh { w with header } := fresh

theorem writeHeader_fresh {w : Writer} (fresh : w.Fresh) {status : Int} {past : History}
    {may : History → Call → Prop} {post : Writer → History → Prop}
    (allowed : may past (.writeHeader status w.header))
    (done : post { w with wrote := !informational status }
      (⟨.writeHeader status w.header, ()⟩ :: past)) :
    Obeys may post (w.writeHeader status) past := by
  unfold writeHeader
  rw [if_neg (by simp [fresh.1, fresh.2])]
  exact obeys_act allowed fun _ _ => done

theorem writeHeader_wrote {w : Writer} (wrote : w.wrote = true) (status : Int) :
    w.writeHeader status = .ret w := by
  unfold writeHeader
  rw [if_pos (by simp [wrote])]
  rfl

end Writer

def Quiet : Call → Prop
  | .store _ | .now | .wallClock | .randomRead | .next _ => False
  | _ => True

theorem Wire.quiet {c : Call} (wire : Wire c) : Quiet c := by
  cases c with
  | store | now | wallClock | randomRead | next => exact wire.elim id id
  | _ => trivial

def Rejecting (header : Header) (c : Call) : Prop := Staging c ∨ c = .writeHeader 502 header

def Declining (header : Header) (c : Call) : Prop :=
  Rejecting header c ∨ ∃ err left, c = .returned err left

/-- Nothing of a response was kept by the calls `new`; `hdr` is what the header held before. -/
structure Declined (hdr : Header) (err : Option Err) (w : Writer) (new : History) : Prop where
  header : w.header = clearHeaders hdr
  only : Only (Declining (clearHeaders hdr)) new
  answered : err = none → w.wrote = true ∧
    (⟨.writeHeader 502 (clearHeaders hdr), ()⟩ : Deed) ∈ new
  mark : ∀ left, (⟨.returned none left, ()⟩ : Deed) ∈ new → err = none

/-- The calls `new` answered a processed response with 502. -/
structure Rejected (hdr : Header) (past : History) (w : Writer) (new : History) : Prop where
  header : w.header = clearHeaders hdr
  wrote : w.wrote = true
  only : Only (Rejecting (clearHeaders hdr)) new
  calm : tripped (new ++ past) = tripped past
  answered : (⟨.writeHeader 502 (clearHeaders hdr), ()⟩ : Deed) ∈ new

theorem Rejected.closing {hdr : Header} {past new closing : History} {w : Writer}
    (rejected : Rejected hdr past w new) (only : Only Staging closing)
    (same : tripped (closing ++ (new ++ past)) = tripped (new ++ past)) :
    Rejected hdr past w (closing ++ new) :=
  { rejected with
    only := (only.mono fun _ => .inl).append rejected.only
    calm := by
      rw [List.append_assoc, same]
      exact rejected.calm
    answered := List.mem_append_right _ rejected.answered }

namespace Handler

variable {h : Handler} {conn : Conn} {past : History}

theorem rollBack_obeys (ic : Interceptor) :
    Obeys (fun _ => Staging)
      (fun ic' past' => tripped past' = tripped past ∧
        ic'.w = { ic.w with header := clearHeaders ic.w.header })
      (rollBack h ic) past := by
  refine Prog.Wp.bind (ic.body.reset_obeys.weaken fun body past' quiet => ⟨quiet, ?_⟩)
  unfold Interceptor.discardBackendMetadata
  split_ifs <;> rfl

theorem refuse_obeys (ic : Interceptor) (fresh : ic.w.Fresh) :
    Obeys (fun _ => Wire)
      (fun ic' past' => ∃ new, past' = new ++ past ∧ Rejected ic.w.header past ic'.w new)
      (refuse h ic) past := by
  refine Prog.Wp.bind ((obeys_wire (obeys_new (rollBack_obeys ic))).weaken fun ic₁ past₁ spec => ?_)
  obtain ⟨⟨calm, cleared⟩, new, rfl, only⟩ := spec
  rw [cleared]
  refine Prog.Wp.bind ?_
  apply Writer.writeHeader_fresh
  · exact fresh
  · exact .inr trivial
  · refine ⟨⟨.writeHeader 502 (clearHeaders ic.w.header), ()⟩ :: new, rfl, rfl, rfl, fun d member => ?_,
      calm, List.mem_cons_self⟩
    obtain rfl | earlier := List.mem_cons.mp member
    · exact .inr rfl
    · exact .inl (only d earlier)

theorem rollBack_unforged {ic : Interceptor} (unforged : Unforged ic.w past) :
    Obeys (fun _ => Wire) (fun ic' past' => Unforged ic'.w past') (rollBack h ic) past := by
  refine (obeys_unforged (rollBack_obeys ic) unforged).weaken ?_
  rintro ic' past' ⟨⟨-, cleared⟩, unforged'⟩ once
  obtain ⟨cookieless, still⟩ := unforged' once
  rw [cleared]
  refine ⟨cookieless, still.imp_right fun tried => ⟨?_, tried.2⟩⟩
  exact values_clearHeaders _ _

theorem refuse_unforged {ic : Interceptor} (unforged : Unforged ic.w past) :
    Obeys (fun _ => Wire) (fun ic' past' => Unforged ic'.w past') (refuse h ic) past := by
  refine Prog.Wp.bind ((rollBack_unforged unforged).weaken fun ic₁ past₁ unforged₁ => ?_)
  exact Prog.Wp.bind (((Writer.writeHeader_unforged unforged₁ 502).mono (fun _ _ => .inr)
    fun _ _ h => h).weaken fun _ _ unforged₂ => unforged₂)

theorem conclude_unforged {ic : Interceptor} (err : Option Err) (terminal : ic.terminal = true)
    (unforged : Unforged ic.w past) :
    Obeys (fun _ => Wire) (fun result past' => Unforged result.2.w past') (conclude h ic err)
      past := by
  have refused : ∀ {ic : Interceptor} {past : History}, Unforged ic.w past →
      Obeys (fun _ => Wire) (fun result past' => Unforged result.2.w past')
        (do let ic ← refuse h ic; return ((none : Option Err), ic)) past := fun unforged =>
    Prog.Wp.bind ((refuse_unforged unforged).weaken fun _ _ done => done)
  unfold conclude
  split_ifs with failed
  · exact refused unforged
  · cases err with
    | some e => exact Prog.Wp.bind ((rollBack_unforged unforged).weaken fun _ _ done => done)
    | none =>
        refine Prog.Wp.bind ((obeys_unforged ic.reserveFinalMetadata_obeys unforged).weaken
          fun reserved past₁ spec => ?_)
        obtain ⟨reserved, ic₁⟩ := reserved
        obtain ⟨⟨-, body, metadataBytes, final, rfl⟩, unforged₁⟩ := spec
        cases reserved with
        | some e => exact refused unforged₁
        | none =>
            dsimp only
            rw [if_pos (show (ic.reserving body metadataBytes final).terminal = true from terminal)]
            exact unforged₁

theorem interceptRest_unforged {ic : Interceptor} (ended : Ended) (terminal : ic.terminal = true)
    (unforged : Unforged ic.w past) :
    Obeys (fun _ => Quiet) (fun result past' => Unforged result.2 past')
      (match ended with
        | .panicked p => do
          let _ ← ic.body.close
          return (.panicked p, ic.w)
        | .returned err => do
          act (.returned err ic.responseHeader)
          let (err, ic) ← conclude h ic err
          let _ ← ic.body.close
          return (.returned err, ic.w) : Act (Ended × Writer)) past := by
  have wired : ∀ {α : Type} {p : Act α} {q : α → History → Prop} {past : History},
      Obeys (fun _ => Wire) q p past → Obeys (fun _ => Quiet) q p past :=
    fun obeys => obeys.mono (fun _ _ => Wire.quiet) fun _ _ h => h
  cases ended with
  | panicked p =>
      exact Prog.Wp.bind ((wired (obeys_unforged ic.body.close_obeys unforged)).weaken
        fun _ _ done => done.2)
  | returned err =>
      refine obeys_act trivial fun _ _ => ?_
      have still := Writer.unforged_cons unforged (c := .returned err ic.responseHeader) () rfl
        fun _ _ h => by cases h
      refine Prog.Wp.bind ((wired (conclude_unforged err terminal still)).weaken
        fun result past' unforged' => ?_)
      exact Prog.Wp.bind ((wired (obeys_unforged result.2.body.close_obeys unforged')).weaken
        fun _ _ done => done.2)

/-! ## Sending a response -/

def Sending (header : Header) : Call → Prop
  | .writeHeader status hdr =>
      Writer.informational status = false ∧ ∃ dst, hdr = copyHeaders dst header
  | .write _ => True
  | c => Staging c

def Informing (h : Handler) (infos : List StagedInformationalResponse) (c : Call) : Prop :=
  ∃ info ∈ infos, ∃ dst,
    c = .writeHeader info.status (copyHeaders dst (h.scrubManagedResponseHeader info.header))

theorem commitInformational_obeys (infos rest : List StagedInformationalResponse) (w : Writer)
    (fresh : w.Fresh) (sub : rest ⊆ infos)
    (early : ∀ info ∈ rest, Writer.informational info.status) :
    Obeys (fun _ => Informing h infos) (fun w' _ => w'.Fresh)
      (Interceptor.commitInformational h rest w) past := by
  induction rest generalizing w past with
  | nil => exact fresh
  | cons info rest ih =>
      rw [Interceptor.commitInformational]
      refine Prog.Wp.bind ?_
      apply Writer.writeHeader_fresh
      · exact fresh.withHeader _
      · dsimp only
        exact ⟨info, sub List.mem_cons_self, w.header, rfl⟩
      · refine ih _ ⟨?_, fresh.2⟩ (fun info member => sub (List.mem_cons_of_mem _ member))
          fun info member => early info (List.mem_cons_of_mem _ member)
        simp [early info List.mem_cons_self]

theorem Informing.notTrip {infos : List StagedInformationalResponse} {new : History}
    (only : Only (Informing h infos) new) : tripped new = false := by
  refine List.any_eq_false.mpr fun d member => ?_
  obtain ⟨c, r⟩ := d
  obtain ⟨info, -, dst, rfl⟩ := only _ member
  exact Bool.false_ne_true

theorem Informing.quiet {infos : List StagedInformationalResponse} {c : Call}
    (told : Informing h infos c) : Quiet c := by
  obtain ⟨info, -, dst, rfl⟩ := told
  trivial

theorem Sending.quiet {hdr : Header} {c : Call} (sending : Sending hdr c) : Quiet c := by
  cases c with
  | store | now | wallClock | randomRead | next => exact sending
  | _ => trivial

theorem Sending.of_staging {hdr : Header} {c : Call} (staging : Staging c) : Sending hdr c := by
  cases c with
  | writeHeader status hdr => exact staging.elim
  | write p => trivial
  | _ => exact staging

theorem write_sending (header : Header) (w : Writer) (p : List UInt8) (wrote : w.wrote = true) :
    Obeys (fun _ => Sending header)
      (fun result past' => result.2 = w ∧ tripped past' = tripped past) (w.write p) past := by
  unfold Writer.write
  split_ifs with hijacked
  · exact ⟨rfl, rfl⟩
  · rw [Writer.writeHeader_wrote wrote]
    exact obeys_act trivial fun _ _ => ⟨rfl, rfl⟩

theorem copyFile_sending (header : Header) (b : StagedBody) (f : SpoolFile) (w : Writer)
    (wrote : w.wrote = true) :
    Obeys (fun _ => Sending header)
      (fun result past' => result.2.2 = w ∧ tripped past' = tripped past)
      (b.copyFile f w) past := by
  refine obeys_act trivial fun copied _ => ?_
  obtain ⟨n, readErr⟩ := copied
  dsimp only
  split_ifs with empty
  · exact ⟨rfl, rfl⟩
  · exact Prog.Wp.bind ((write_sending header w _ wrote).weaken fun _ _ same => same)

theorem flushTo_sending (header : Header) (b : StagedBody) (w : Writer) (valid : b.Valid)
    (wrote : w.wrote = true) :
    Obeys (fun _ => Sending header)
      (fun result past' => result.2.2 = w ∧ tripped past' = tripped past)
      (b.flushTo w) past := by
  unfold StagedBody.flushTo
  cases spooled : b.file with
  | none => exact Prog.Wp.bind ((write_sending header w _ wrote).weaken fun _ _ same => same)
  | some f =>
      have validated : b.validated = true := valid.resolve_left (by simp [spooled])
      have again : b.validate = .ret (none, b) := by
        unfold StagedBody.validate
        simp [spooled, validated]
      simp only [again, Prog.ret_bind, spooled]
      exact copyFile_sending header b f w wrote

/-- A response with the header `hdr` has been sent by the calls `new`. Without a status set, it is
left to net/http to commit the header. -/
structure Sent (h : Handler) (infos : List StagedInformationalResponse) (hdr : Header)
    (past : History) (err : Option Err) (w : Writer) (new : History) : Prop where
  only : Only (fun c => Informing h infos c ∨ Sending hdr c) new
  calm : tripped (new ++ past) = tripped past
  header : ∃ dst, w.header = copyHeaders dst hdr ∧
    ((w.wrote = true ∧ ∃ status, Writer.informational status = false ∧
        (⟨.writeHeader status (copyHeaders dst hdr), ()⟩ : Deed) ∈ new) ∨
      (w.Fresh ∧ err = none))

theorem emit_obeys (ic : Interceptor) (fresh : ic.w.Fresh)
    (final : Writer.informational ic.status = false)
    (early : ∀ info ∈ ic.informational, Writer.informational info.status) (valid : ic.body.Valid) :
    Obeys (fun _ c => Informing h ic.informational c ∨ Sending ic.responseHeader c)
      (fun sent past' => ∃ new, past' = new ++ past ∧
        Sent h ic.informational ic.responseHeader past sent.1 sent.2.w new)
      (emit h ic) past := by
  have informed : Obeys (fun _ => Informing h ic.informational) _
    (Interceptor.commitInformational h ic.informational ic.w) past :=
    commitInformational_obeys _ _ ic.w fresh (List.Subset.refl _) early
  refine Prog.Wp.bind ?_
  refine ((obeys_new informed).mono (fun _ _ => .inl) fun _ _ h => h).weaken fun w past₁ spec => ?_
  obtain ⟨fresh₁, infos, rfl, informing⟩ := spec
  have calm : tripped (infos ++ past) = tripped past := by
    rw [tripped, List.any_append, ← tripped, Informing.notTrip informing]
    rfl
  have only := informing.mono fun c told =>
    (Or.inl told : Informing h ic.informational c ∨ Sending ic.responseHeader c)
  have finalised : Writer.informational (finalStatus ic) = false := by
    unfold finalStatus
    split_ifs
    · decide
    · exact final
  dsimp only
  cases ic.wroteHeader with
  | false =>
    exact ⟨infos, rfl, only, calm, w.header, rfl, .inr ⟨⟨fresh₁.1, fresh₁.2⟩, rfl⟩⟩
  | true =>
    refine Prog.Wp.bind ?_
    apply Writer.writeHeader_fresh
    · exact fresh₁
    · dsimp only
      exact .inr ⟨finalised, w.header, rfl⟩
    · dsimp only
      rw [finalised]
      have only₁ : Only (fun c => Informing h ic.informational c ∨ Sending ic.responseHeader c)
          (⟨.writeHeader (finalStatus ic) (copyHeaders w.header ic.responseHeader), ()⟩ :: infos) := by
        intro d member
        obtain rfl | earlier := List.mem_cons.mp member
        · exact .inr ⟨finalised, w.header, rfl⟩
        · exact only d earlier
      split_ifs with body
      · refine Prog.Wp.bind ?_
        refine Prog.Wp.mono (obeys_new (flushTo_sending ic.responseHeader ic.body _ valid ?_))
          (fun _ _ => Or.inr) fun result past₂ spec => ?_
        · rfl
        obtain ⟨⟨same, calm₂⟩, new, rfl, sending⟩ := spec
        refine ⟨new ++ ⟨.writeHeader (finalStatus ic) (copyHeaders w.header ic.responseHeader), ()⟩
          :: infos, by simp, (sending.mono fun _ => .inr).append only₁, ?_, w.header,
          congrArg Writer.header same, .inl ⟨congrArg Writer.wrote same, finalStatus ic, finalised,
            by simp⟩⟩
        rw [List.append_assoc]
        exact calm₂.trans calm
      · exact ⟨⟨.writeHeader (finalStatus ic) (copyHeaders w.header ic.responseHeader), ()⟩ :: infos,
          rfl, only₁, calm, w.header, rfl,
          .inl ⟨rfl, finalStatus ic, finalised, List.mem_cons_self⟩⟩

theorem Sent.closing {infos : List StagedInformationalResponse} {hdr : Header} {err : Option Err}
    {w : Writer} {new closing : History} (sent : Sent h infos hdr past err w new)
    (only : Only Staging closing)
    (same : tripped (closing ++ (new ++ past)) = tripped (new ++ past)) :
    Sent h infos hdr past err w (closing ++ new) where
  only := (only.mono fun c staging => .inr (Sending.of_staging staging)).append sent.only
  calm := by
    rw [List.append_assoc, same]
    exact sent.calm
  header := by
    obtain ⟨dst, header, ⟨wrote, status, final, member⟩ | fresh⟩ := sent.header
    · exact ⟨dst, header, .inl ⟨wrote, status, final, List.mem_append_right _ member⟩⟩
    · exact ⟨dst, header, .inr fresh⟩

section Rules

variable {may : History → Call → Prop} (quiet : ∀ past c, Quiet c → may past c)

include quiet

theorem conclude_rule {post : Option Err × Interceptor → History → Prop} (ic : Interceptor)
    (err : Option Err) (fresh : ic.w.Fresh) (ordinary : ic.terminal = false)
    (refused : ∀ ic' new, Declined ic.w.header none ic'.w new → post (none, ic') (new ++ past))
    (returned : ∀ e ic' new, err = some e → ic'.w.header = clearHeaders ic.w.header →
      Only Staging new → post (some e, ic') (new ++ past))
    (settled : err = none → ic.writeErr = none → ∀ body metadataBytes final new,
      body.Valid → Only Staging new → tripped (new ++ past) = tripped past →
      Obeys may post (settle h (ic.reserving body metadataBytes final)) (new ++ past)) :
    Obeys may post (conclude h ic err) past := by
  have wired : ∀ {α : Type} {p : Act α} {q : α → History → Prop} {past : History},
      Obeys (fun _ => Wire) q p past → Obeys may q p past :=
    fun obeys => obeys.mono (fun past c wire => quiet past c wire.quiet) fun _ _ h => h
  have refusing : ∀ (ic' : Interceptor) (new : History), ic'.w = ic.w → Only Staging new →
      Obeys may post (do let ic ← refuse h ic'; return (none, ic)) (new ++ past) := by
    intro ic' new same only
    refine Prog.Wp.bind ((wired (refuse_obeys ic' (same ▸ fresh))).weaken fun ic₁ past₁ spec => ?_)
    obtain ⟨new', rfl, rejected⟩ := spec
    rw [same] at rejected
    rw [← List.append_assoc]
    exact refused ic₁ (new' ++ new) ⟨rejected.header,
      (rejected.only.mono fun _ => .inl).append (only.mono fun _ staging => .inl (.inl staging)),
      fun _ => ⟨rejected.wrote, List.mem_append_left _ rejected.answered⟩, fun _ _ => rfl⟩
  unfold conclude
  split_ifs with failed
  · exact refusing ic [] rfl only_nil
  · have clean : ic.writeErr = none := by simpa using failed
    cases err with
    | some e =>
        refine Prog.Wp.bind ((wired (obeys_wire (obeys_new (rollBack_obeys ic)))).weaken
          fun ic₁ past₁ spec => ?_)
        obtain ⟨⟨-, cleared⟩, new, rfl, only⟩ := spec
        exact returned e ic₁ new rfl (by rw [cleared]) only
    | none =>
        refine Prog.Wp.bind ((wired (obeys_wire (obeys_new ic.reserveFinalMetadata_obeys))).weaken
          fun reserved past₁ spec => ?_)
        obtain ⟨reserved, ic₁⟩ := reserved
        obtain ⟨⟨trips, body, metadataBytes, final, rfl⟩, new, rfl, only⟩ := spec
        cases reserved with
        | some e => exact refusing _ new rfl only
        | none =>
            dsimp only
            rw [if_neg (show ¬ (ic.reserving body metadataBytes final).terminal = true by
              simp [Interceptor.reserving, ordinary])]
            refine Prog.Wp.bind ((wired (obeys_wire (obeys_new
              (ic.reserving body metadataBytes final).body.validate_obeys))).weaken
              fun validated past₂ spec => ?_)
            obtain ⟨invalid, body'⟩ := validated
            obtain ⟨⟨trips', valid⟩, new', rfl, only'⟩ := spec
            cases invalid with
            | some e =>
                dsimp only
                rw [← List.append_assoc]
                exact refusing _ (new' ++ new) rfl (only'.append only)
            | none =>
                dsimp only
                rw [← List.append_assoc]
                refine settled rfl clean body' metadataBytes final (new' ++ new) (valid rfl)
                  (only'.append only) ?_
                rw [List.append_assoc, trips', trips]
                simp

def Refused (h : Handler) (result : Except Err Unit × Interceptor) : Prop :=
  result.1 ≠ .ok () ∧ (h.onStoreError = failClosed ∨ result.2.revokeRequested = true)

def failure : Except Err Unit → Option Err
  | .ok _ => none
  | .error e => some e

def Processed (ic ic' : Interceptor) : Prop :=
  ∃ responseHeader live revokeRequested,
    ic' = { ic with responseHeader, live, revokeRequested, processed := true }

theorem settle_rule {post : Option Err × Interceptor → History → Prop} (ic : Interceptor)
    (first : ic.processed = false) (unfailed : ic.failed = false) (fresh : ic.w.Fresh)
    (final : Writer.informational ic.status = false)
    (early : ∀ info ∈ ic.informational, Writer.informational info.status) (valid : ic.body.Valid)
    (run : Obeys may
      (fun result past' => Processed ic result.2 ∧
        (Refused h result → ∀ ic' new,
          Rejected ic.w.header (⟨.processed (failure result.1), ()⟩ :: past') ic'.w new →
          post (none, ic') (new ++ ⟨.processed (failure result.1), ()⟩ :: past')) ∧
        (¬ Refused h result → ∀ sent new,
          Sent h ic.informational (Interceptor.deliveredHeader h result)
            (⟨.processed (failure result.1), ()⟩ :: past') sent.1 sent.2.w new →
          post sent (new ++ ⟨.processed (failure result.1), ()⟩ :: past')))
      (Interceptor.process h { ic with processed := true }) past) :
    Obeys may post (settle h ic) past := by
  unfold settle Interceptor.ensureProcessed
  rw [first]
  simp only [Bool.false_eq_true, ↓reduceIte, Prog.bind_bind]
  refine Prog.Wp.bind (run.weaken fun result past' spec => ?_)
  obtain ⟨result, ic₁⟩ := result
  obtain ⟨⟨responseHeader, live, asked, rfl⟩, refused, sent⟩ := spec
  have refusing : ∀ (ic' : Interceptor) (past : History), ic'.w = ic.w →
      (∀ ic' new, Rejected ic.w.header past ic'.w new → post (none, ic') (new ++ past)) →
      Obeys may post (do let ic ← refuse h ic'; return (none, ic)) past := by
    intro ic' past same done
    refine Prog.Wp.bind (((refuse_obeys ic' (same ▸ fresh)).mono
      (fun past c wire => quiet past c wire.quiet) fun _ _ h => h).weaken fun ic₁ past₁ spec => ?_)
    obtain ⟨new, rfl, rejected⟩ := spec
    rw [same] at rejected
    exact done ic₁ new rejected
  have emitting : ∀ (ic' : Interceptor) (past : History), ic'.w = ic.w → ic'.status = ic.status →
      ic'.informational = ic.informational → ic'.body = ic.body →
      (∀ sent new, Sent h ic.informational ic'.responseHeader past sent.1 sent.2.w new →
        post sent (new ++ past)) →
      Obeys may post (emit h ic') past := by
    intro ic' past same status infos body done
    rw [← infos] at early done
    refine ((emit_obeys ic' (same ▸ fresh) (status ▸ final) early (body ▸ valid)).mono
      (fun past c allowed => quiet past c (allowed.elim Informing.quiet Sending.quiet))
      fun _ _ h => h).weaken ?_
    rintro sent past₁ ⟨new, rfl, isSent⟩
    exact done sent new isSent
  cases result with
  | ok done =>
      refine obeys_act (quiet _ _ trivial) fun _ _ => ?_
      simp only [unfailed, Bool.false_eq_true, ↓reduceIte]
      exact emitting _ _ rfl rfl rfl rfl (sent fun refused => refused.1 rfl)
  | error e =>
      refine obeys_act (quiet _ _ trivial) fun _ _ => ?_
      have isError : (.error e : Except Err Unit) ≠ .ok () := by
        intro same
        cases same
      by_cases closed : h.onStoreError = failClosed ∨ asked = true
      · rw [if_pos closed]
        exact refusing _ _ rfl (refused ⟨isError, closed⟩)
      · rw [if_neg closed]
        simp only [Prog.pure_eq, unfailed]
        exact emitting _ _ rfl rfl rfl rfl (sent fun refused => closed refused.2)

theorem intercept_rule {post : Ended × Writer → History → Prop} (ic : Interceptor) (r : Request)
    (incoming : Incoming) (next : Down) (calls : may past (.next r)) (fresh : ic.w.Fresh)
    (ordinary : ic.terminal = false) (first : ic.processed = false) (unfailed : ic.failed = false)
    (final : Writer.informational ic.status = false)
    (early : ∀ info ∈ ic.informational, Writer.informational info.status)
    (calm : tripped past = false)
    (unsent : Cookieless past) (untried : takeovers past = [])
    (taken : ∀ ended w new, Only Quiet new → shaken (new ++ ⟨.next r, ()⟩ :: past) →
      Unforged w (new ++ ⟨.next r, ()⟩ :: past) → post (ended, w) (new ++ ⟨.next r, ()⟩ :: past))
    (panicked : ∀ p new, Only Staging new → post (.panicked p, ic.w) (new ++ ⟨.next r, ()⟩ :: past))
    (declined : ∀ err w new, Declined ic.w.header err w new →
      post (.returned err, w) (new ++ ⟨.next r, ()⟩ :: past))
    (settled : ∀ ic₁ staged new, Interceptor.OnlyStaged ic ic₁ → Only Staging staged →
      Only Staging new →
      tripped (new ++ ⟨.returned none ic₁.responseHeader, ()⟩ ::
        (staged ++ ⟨.next r, ()⟩ :: past)) = false →
      Obeys may
        (fun result past' => Processed ic₁ result.2 ∧
          (Refused h result → ∀ w new,
            Rejected ic.w.header (⟨.processed (failure result.1), ()⟩ :: past') w new →
            post (.returned none, w) (new ++ ⟨.processed (failure result.1), ()⟩ :: past')) ∧
          (¬ Refused h result → ∀ err w new,
            Sent h ic₁.informational (Interceptor.deliveredHeader h result)
              (⟨.processed (failure result.1), ()⟩ :: past') err w new →
            post (.returned err, w) (new ++ ⟨.processed (failure result.1), ()⟩ :: past')))
        (Interceptor.process h { ic₁ with processed := true })
        (new ++ ⟨.returned none ic₁.responseHeader, ()⟩ :: (staged ++ ⟨.next r, ()⟩ :: past))) :
    Obeys may post (intercept h conn ic r incoming next) past := by
  have wired : ∀ {α : Type} {p : Act α} {q : α → History → Prop} {past : History},
      Obeys (fun _ => Wire) q p past → Obeys may q p past :=
    fun obeys => obeys.mono (fun past c wire => quiet past c wire.quiet) fun _ _ h => h
  have closing : ∀ (ic' : Interceptor) (err : Option Err) (past' : History),
      (∀ closing, Only Staging closing → tripped (closing ++ past') = tripped past' →
        post (.returned err, ic'.w) (closing ++ past')) →
      Obeys may post (do let _ ← ic'.body.close; return (.returned err, ic'.w)) past' := by
    intro ic' err past' done
    refine Prog.Wp.bind ((wired (obeys_wire (obeys_new ic'.body.close_obeys))).weaken
      fun _ past₁ spec => ?_)
    obtain ⟨same, new, rfl, only⟩ := spec
    exact done new only same
  refine obeys_act calls fun _ _ => ?_
  have ready : Interceptor.Ready ic (⟨.next r, ()⟩ :: past) := by
    refine ⟨fun _ => ⟨first, final, fun status hdr member => ?_, untried⟩, fun terminal => ?_⟩
    · obtain same | earlier := List.mem_cons.mp member
      · cases same
      · exact unsent status hdr earlier
    · cases ordinary.symm.trans terminal
  refine Prog.Wp.bind ((wired (obeys_new (runNext_obeys h conn next ic incoming ordinary
    ready))).weaken fun ran past₁ spec => ?_)
  obtain ⟨ended, ic₁⟩ := ran
  obtain ⟨⟨terminal, isShaken, unforged⟩ | ⟨kept, trips, staged, rfl, only⟩, wire⟩ := spec
  · obtain ⟨new, rfl, only⟩ := wire
    -- What follows a handshake.
    refine ((obeys_new (P := Quiet) ((obeys_shaken (interceptRest_unforged ended terminal
      unforged) isShaken))).mono (fun past c => quiet past c) fun _ _ h => h).weaken ?_
    rintro ⟨ended', w⟩ past₂ ⟨⟨unforged', isShaken'⟩, new', rfl, only'⟩
    rw [← List.append_assoc] at unforged' isShaken' ⊢
    exact taken ended' w (new' ++ new) (only'.append (only.mono fun _ => Wire.quiet)) isShaken'
      unforged'
  · cases ended with
    | panicked p =>
        refine Prog.Wp.bind ((wired (obeys_wire (obeys_new ic₁.body.close_obeys))).weaken
          fun _ past₂ spec => ?_)
        obtain ⟨-, new, rfl, only'⟩ := spec
        rw [kept.w, ← List.append_assoc]
        exact panicked p (new ++ staged) (only'.append only)
    | returned err =>
        refine obeys_act (quiet _ _ trivial) fun _ _ => ?_
        have declining : Only (Declining (clearHeaders ic.w.header))
            (⟨.returned err ic₁.responseHeader, ()⟩ :: staged) := by
          intro d member
          obtain rfl | earlier := List.mem_cons.mp member
          · exact .inr ⟨_, _, rfl⟩
          · exact .inl (.inl (only d earlier))
        have staging : ∀ {new : History}, Only Staging new →
            Only (Declining (clearHeaders ic.w.header)) new :=
          fun only => only.mono fun _ staging => .inl (.inl staging)
        refine Prog.Wp.bind (conclude_rule quiet ic₁ err (kept.w ▸ fresh)
          (kept.terminal.trans ordinary) ?_ ?_ ?_)
        · intro ic₂ new isDeclined
          refine closing ic₂ none _ fun closing only₃ _ => ?_
          rw [kept.w] at isDeclined
          have shape := declined none ic₂.w
            (closing ++ (new ++ ⟨.returned err ic₁.responseHeader, ()⟩ :: staged))
            { isDeclined with
              only := (staging only₃).append (isDeclined.only.append declining)
              answered := fun _ => ⟨(isDeclined.answered rfl).1, List.mem_append_right _
                (List.mem_append_left _ (isDeclined.answered rfl).2)⟩
              mark := fun _ _ => rfl }
          simpa using shape
        · intro e ic₂ new same header only₂
          refine closing ic₂ (some e) _ fun closing only₃ _ => ?_
          rw [kept.w] at header
          have shape := declined (some e) ic₂.w
            (closing ++ (new ++ ⟨.returned err ic₁.responseHeader, ()⟩ :: staged))
            ⟨header, (staging only₃).append ((staging only₂).append declining),
              fun same => (by cases same), fun left marked => ?_⟩
          · simpa using shape
          · obtain closes | marked := List.mem_append.mp marked
            · exact (only₃ _ closes).elim
            · obtain rolls | marked := List.mem_append.mp marked
              · exact (only₂ _ rolls).elim
              · obtain same' | earlier := List.mem_cons.mp marked
                · cases same
                  cases same'
                · exact (only _ earlier).elim
        · intro same unmarked body metadataBytes reserved new valid only₂ trips₂
          subst same
          have kept₁ := kept.trans (ic₁.reserving_kept body metadataBytes reserved)
          have silent : tripped (staged ++ ⟨.next r, ()⟩ :: past) = false := by
            refine eq_false_of_ne_true fun loud => ?_
            obtain before | marked := trips loud
            · exact Bool.false_ne_true (calm.symm.trans before)
            · simp [unmarked] at marked
          refine (settle_rule quiet _ (kept₁.processed.trans first) (kept₁.failed.trans unfailed)
            (kept₁.w ▸ fresh) (kept₁.final final) (kept₁.infos early) valid
            ((settled _ staged new kept₁ only only₂ (trips₂.trans silent)).weaken ?_)).weaken
            fun ran past₂ done => closing ran.2 ran.1 past₂ done
          rintro result past₂ ⟨processed, refused, sent⟩
          refine ⟨processed, fun isRefused ic₂ new₂ isRejected closing only₄ same => ?_,
            fun isSent ran new₂ isSent₂ closing only₄ same => ?_⟩
          · rw [kept₁.w] at isRejected
            have shape := refused isRefused ic₂.w (closing ++ new₂) (isRejected.closing only₄ same)
            simpa using shape
          · have shape := sent isSent ran.1 ran.2.w (closing ++ new₂) (isSent₂.closing only₄ same)
            simpa using shape

end Rules

end Handler

end Gosestor
