import Gosestor.Handler.Budget
import Gosestor.Proof.Handler.HeaderBytes
import Gosestor.Proof.Handler.Sessional
import Gosestor.Proof.Handler.Traffic

/-!
# One response and the staging budget

A response releases at most what it has reserved, and its `reserved` field is what it holds of the
budget: through every function of the staged body, the interceptor and `ServeHTTP`.
-/

namespace Gosestor

open Gosestor.Go Gosestor.Lib Gosestor.Session

variable {past : History}

@[simp] theorem held_nil : held [] = 0 := rfl

@[simp] theorem held_cons (d : Deed) (past : History) :
    held (d :: past) = Deed.charge d + held past := rfl

/-! ## What a response may do to the budget -/

def Frugal (past : History) : Call → Prop
  | .reserve n => 0 ≤ n
  | .release n => 0 ≤ n ∧ n ≤ held past
  | _ => True

def Unbudgeted : Call → Prop
  | .reserve _ | .release _ => False
  | _ => True

theorem Unbudgeted.charge {c : Call} (free : Unbudgeted c) (r : c.Answer) :
    Deed.charge ⟨c, r⟩ = 0 := by
  cases c with
  | reserve | release => exact free.elim
  | _ => rfl

theorem Unbudgeted.frugal {c : Call} (free : Unbudgeted c) (past : History) : Frugal past c := by
  cases c with
  | reserve | release => exact free.elim
  | _ => trivial

theorem Sessional.unbudgeted {c : Call} (sessional : Sessional c) : Unbudgeted c := by
  cases c with
  | reserve | release => exact sessional.elim
  | _ => trivial

section Rules

variable {α : Type} {may : History → Call → Prop} {post : α → History → Prop} {p : Act α}

theorem obeys_unbudgeted (obeys : Obeys may post p past)
    (free : ∀ past c, may past c → Unbudgeted c) :
    Obeys Frugal (fun a past' => post a past' ∧ held past' = held past) p past := by
  refine (obeys.frame (fun past' => held past' = held past) ?_ rfl).mono
    (fun past' c allowed => (free past' c allowed.1).frugal past') fun _ _ done => done
  rintro past' c r past'' allowed ⟨-, rfl⟩ same
  rw [held_cons, (free past' c allowed).charge r, same]
  simp

theorem frugal_act {c : Call} {f : c.Answer → Act α} (free : Unbudgeted c)
    (rest : ∀ r past', Legal past c r → held past' = held past → Obeys Frugal post (f r) past') :
    Obeys Frugal post (act c >>= f) past := by
  refine obeys_act (free.frugal past) fun r legal => rest r _ legal ?_
  rw [held_cons, free.charge r]
  simp

end Rules

/-! ## Staged bodies -/

/-- The fields of a body agree with each other and with what its response holds of the budget. -/
structure Balanced (b : StagedBody) (past : History) : Prop where
  reserved : b.reserved = held past
  nonneg : 0 ≤ b.size
  size : b.size ≤ b.reserved
  bounded : b.size ≤ stagedResponseMaxBytes

theorem Balanced.held {b : StagedBody} {past' : History} (balanced : Balanced b past)
    (same : held past' = held past) : Balanced b past' :=
  { balanced with reserved := balanced.reserved.trans same.symm }

namespace StagedBody

variable {b : StagedBody}

theorem releaseReserved_frugal {n : Int} (nonneg : 0 ≤ n) (covered : n ≤ b.reserved)
    (reserved : b.reserved = held past) :
    Obeys Frugal
      (fun b' past' => b' = { b with reserved := b.reserved - n } ∧ b'.reserved = held past')
      (b.releaseReserved n) past := by
  unfold releaseReserved
  split_ifs with zero
  · subst zero
    exact ⟨by simp, reserved⟩
  · refine obeys_act ⟨nonneg, reserved ▸ covered⟩ fun _ _ => ⟨rfl, ?_⟩
    simp only [held_cons, Deed.charge]
    omega

theorem close_frugal (reserved : b.reserved = held past) (nonneg : 0 ≤ b.reserved) :
    Obeys Frugal
      (fun result past' => Balanced result.2 past' ∧ result.2.reserved = 0 ∧ result.2.size = 0)
      b.close past := by
  have released : ∀ {b' : StagedBody} {past' : History} {err : Option Err}, b'.size = 0 →
      b'.reserved = b.reserved → held past' = held past →
      Obeys Frugal
        (fun result past' => Balanced result.2 past' ∧ result.2.reserved = 0 ∧ result.2.size = 0)
        (do return (err, ← b'.releaseReserved b'.reserved)) past' := by
    intro b' past' err empty same heldSame
    apply Prog.Wp.bind
    refine (releaseReserved_frugal (by omega) le_rfl (by omega)).weaken ?_
    rintro b'' past'' ⟨rfl, now⟩
    refine ⟨⟨now, ?_, ?_, ?_⟩, ?_, empty⟩ <;> simp [empty, stagedResponseMaxBytes]
  unfold close
  dsimp only
  cases b.file with
  | none => exact released rfl rfl rfl
  | some f =>
      dsimp only
      unfold closeFile
      rw [Prog.bind_bind]
      refine frugal_act trivial fun closeErr past' _ same => ?_
      split_ifs with unlinked
      · exact released rfl rfl same
      · rw [Prog.bind_bind]
        refine frugal_act trivial fun removed past'' _ same' => ?_
        exact released rfl rfl (same'.trans same)

theorem writeFile_frugal {f : SpoolFile} {p : List UInt8} (reserved : b.reserved = held past)
    (nonneg : 0 ≤ b.size) (covered : b.size + p.length ≤ b.reserved)
    (bounded : b.size + p.length ≤ stagedResponseMaxBytes) :
    Obeys Frugal (fun result past' => Balanced result.2 past') (b.writeFile f p) past := by
  refine frugal_act trivial fun written past' legal same => ?_
  obtain ⟨n, err⟩ := written
  have short : n ≤ p.length := legal.1
  apply Prog.Wp.bind
  refine (releaseReserved_frugal ?_ ?_ ?_).weaken ?_
  · omega
  · dsimp only
    omega
  · exact reserved.trans same.symm
  · rintro b' past'' ⟨rfl, now⟩
    have balanced : Balanced { b with
        file := some (f.written p n), size := b.size + n,
        reserved := b.reserved - (p.length - n) } past'' := by
      refine ⟨now, ?_, ?_, ?_⟩ <;> dsimp only <;> omega
    cases err with
    | none => exact balanced
    | some e => exact Prog.Wp.bind (frugal_act trivial fun _ past₃ _ same' => balanced.held same')

theorem spill_frugal {p : List UInt8} (reserved : b.reserved = held past) (nonneg : 0 ≤ b.size)
    (covered : b.size + p.length ≤ b.reserved)
    (bounded : b.size + p.length ≤ stagedResponseMaxBytes) :
    Obeys Frugal (fun result past' => Balanced result.2 past') (b.spill p) past := by
  refine frugal_act trivial fun created past₁ _ same₁ => ?_
  cases created with
  | some e =>
      apply Prog.Wp.bind
      refine (releaseReserved_frugal (by omega) (by omega) (reserved.trans same₁.symm)).weaken ?_
      rintro b' past₂ ⟨rfl, now⟩
      refine Prog.Wp.bind (frugal_act trivial fun _ past₃ _ same₃ => ?_)
      refine ⟨now.trans same₃.symm, nonneg, ?_, ?_⟩ <;> dsimp only <;> omega
  | none =>
      refine frugal_act trivial fun unlinked past₂ _ same₂ => ?_
      refine frugal_act trivial fun written past₃ _ same₃ => ?_
      obtain ⟨n, err⟩ := written
      have same : held past₃ = held past := same₃.trans (same₂.trans same₁)
      cases err with
      | some e =>
          have closed := close_frugal (b := { b with file := some {}, unlinked })
            (reserved.trans same.symm) (nonneg.trans (by dsimp only; omega))
          apply Prog.Wp.bind
          refine closed.weaken ?_
          rintro ⟨err, b'⟩ past₄ ⟨balanced, -⟩
          exact Prog.Wp.bind (frugal_act trivial fun _ past₅ _ same' => balanced.held same')
      | none => exact writeFile_frugal (reserved.trans same.symm) nonneg covered bounded

theorem write_frugal {p : List UInt8} (balanced : Balanced b past) :
    Obeys Frugal (fun result past' => Balanced result.2 past') (b.write p) past := by
  have nonneg := balanced.nonneg
  have size := balanced.size
  unfold write
  split_ifs with large
  · exact Prog.Wp.bind (frugal_act trivial fun _ past' _ same => balanced.held same)
  · refine obeys_act (Int.natCast_nonneg _) fun granted _ => ?_
    cases granted with
    | false =>
        refine Prog.Wp.bind (frugal_act trivial fun _ past' _ same => balanced.held ?_)
        simpa [Deed.charge] using same
    | true =>
        dsimp only
        have reserved : b.reserved + p.length = held (⟨.reserve p.length, true⟩ :: past) := by
          rw [held_cons, balanced.reserved]
          exact Int.add_comm _ _
        cases b.file with
        | some f =>
            refine writeFile_frugal reserved nonneg ?_ ?_ <;> dsimp only <;> omega
        | none =>
            dsimp only
            split_ifs with fits
            · refine ⟨reserved, ?_, ?_, ?_⟩ <;> dsimp only <;> omega
            · refine spill_frugal reserved nonneg ?_ ?_ <;> dsimp only <;> omega

theorem reset_frugal (balanced : Balanced b past) :
    Obeys Frugal (fun b' past' => Balanced b' past' ∧ b'.reserved = 0 ∧ b'.size = 0) b.reset past := by
  have nonneg : 0 ≤ b.reserved := balanced.nonneg.trans balanced.size
  exact Prog.Wp.bind ((close_frugal balanced.reserved nonneg).weaken fun _ _ done => done)

end StagedBody

/-! ## Interceptors -/

namespace Writer

theorem writeHeader_frugal (w : Writer) (status : Int) :
    Obeys Frugal (fun _ past' => held past' = held past) (w.writeHeader status) past := by
  unfold writeHeader
  split_ifs with done
  · rfl
  · exact frugal_act trivial fun _ past' _ same => same

theorem write_frugal (w : Writer) (p : List UInt8) :
    Obeys Frugal (fun _ past' => held past' = held past) (w.write p) past := by
  unfold write
  split_ifs with hijacked
  · rfl
  · apply Prog.Wp.bind
    refine (w.writeHeader_frugal 200).weaken fun w' past₁ same₁ => ?_
    exact frugal_act trivial fun _ past₂ _ same₂ => same₂.trans same₁

theorem flush_frugal (w : Writer) :
    Obeys Frugal (fun _ past' => held past' = held past) w.flush past := by
  apply Prog.Wp.bind
  refine (w.writeHeader_frugal 200).weaken fun w' past₁ same₁ => ?_
  exact frugal_act trivial fun _ past₂ _ same₂ => same₂.trans same₁

end Writer

namespace Interceptor

variable {h : Handler} {conn : Conn} {ic : Interceptor}

theorem reserveMetadataBytes_frugal (balanced : Balanced ic.body past) {n : Int} (nonneg : 0 ≤ n) :
    Obeys Frugal (fun result past' => Balanced result.2.body past')
      (ic.reserveMetadataBytes n) past := by
  unfold reserveMetadataBytes
  split_ifs with large
  · exact Prog.Wp.bind (frugal_act trivial fun _ past' _ same => balanced.held same)
  · refine obeys_act nonneg fun granted _ => ?_
    cases granted with
    | false =>
        refine Prog.Wp.bind (frugal_act trivial fun _ past' _ same => balanced.held ?_)
        simpa [Deed.charge] using same
    | true =>
        have size := balanced.size
        refine ⟨?_, balanced.nonneg, ?_, balanced.bounded⟩
        · simp [Deed.charge, balanced.reserved, Int.add_comm]
        · dsimp only
          omega

theorem generatedMetadataAllowance_nonneg : 0 ≤ generatedMetadataAllowance h := by
  unfold generatedMetadataAllowance
  dsimp only
  omega

theorem reserveFinalMetadata_frugal (balanced : Balanced ic.body past) :
    Obeys Frugal (fun result past' => Balanced result.2.body past')
      (ic.reserveFinalMetadata h) past := by
  unfold reserveFinalMetadata
  split_ifs with done
  · exact balanced
  · have nonneg := Int.add_nonneg (stagedHeaderBytes_nonneg ic.responseHeader)
      (generatedMetadataAllowance_nonneg (h := h))
    refine Prog.Wp.bind ((reserveMetadataBytes_frugal balanced nonneg).weaken ?_)
    rintro ⟨err, ic'⟩ past' balanced'
    cases err <;> exact balanced'

theorem writeHeader_frugal (balanced : Balanced ic.body past) (status : Int) :
    Obeys Frugal (fun result past' => Balanced result.2.body past')
      (ic.writeHeader status) past := by
  unfold writeHeader
  split_ifs with wrote invalid early many
  · exact balanced
  · exact balanced
  · exact Prog.Wp.bind (frugal_act trivial fun _ past' _ same => balanced.held same)
  · refine Prog.Wp.bind ((reserveMetadataBytes_frugal balanced
      (stagedHeaderBytes_nonneg _)).weaken ?_)
    rintro ⟨err, ic'⟩ past' balanced'
    cases err <;> exact balanced'
  · exact balanced

theorem write_frugal (balanced : Balanced ic.body past) (p : List UInt8) :
    Obeys Frugal (fun result past' => Balanced result.2.body past') (ic.write p) past := by
  unfold write
  split_ifs with terminal
  · exact Prog.Wp.bind ((ic.w.write_frugal p).weaken fun _ _ same => balanced.held same)
  · refine Prog.Wp.bind ((writeHeader_frugal balanced 200).weaken ?_)
    rintro ⟨result, ic'⟩ past' balanced'
    dsimp only
    split_ifs with empty
    · exact balanced'
    · refine Prog.Wp.bind ((StagedBody.write_frugal balanced').weaken ?_)
      rintro ⟨⟨n, err⟩, body⟩ past'' balanced''
      cases err <;> exact balanced''

theorem commitInformational_frugal (infos : List StagedInformationalResponse) (w : Writer) :
    Obeys Frugal (fun _ past' => held past' = held past) (commitInformational h infos w) past := by
  induction infos generalizing w past with
  | nil => rfl
  | cons info rest ih =>
      apply Prog.Wp.bind
      refine (Writer.writeHeader_frugal _ info.status).weaken fun w' past' same => ?_
      exact (ih w').weaken fun _ _ same' => same'.trans same

theorem releaseTerminalStaging_frugal (balanced : Balanced ic.body past) :
    Obeys Frugal (fun ic' past' => Balanced ic'.body past') ic.releaseTerminalStaging past :=
  Prog.Wp.bind ((StagedBody.reset_frugal balanced).weaken fun _ _ done => done.1)

theorem commitHandshake_frugal (balanced : Balanced ic.body past) :
    Obeys Frugal (fun ic' past' => Balanced ic'.body past') (ic.commitHandshake h) past := by
  unfold commitHandshake
  obtain ⟨processed, responseHeader, same⟩ := discardBackendMetadata_frame (h := h) ic
  rw [same]
  refine Prog.Wp.bind ((commitInformational_frugal _ _).weaken fun w past₁ same₁ => ?_)
  dsimp only
  split_ifs with wrote
  · refine Prog.Wp.bind ((Writer.writeHeader_frugal _ _).weaken fun w' past₂ same₂ => ?_)
    exact releaseTerminalStaging_frugal (balanced.held (same₂.trans same₁))
  · exact releaseTerminalStaging_frugal (balanced.held same₁)

theorem flushError_frugal (balanced : Balanced ic.body past) :
    Obeys Frugal (fun result past' => Balanced result.2.body past')
      (ic.flushError h conn) past := by
  unfold flushError
  split_ifs with unsupported terminal failed
  · exact balanced
  · exact Prog.Wp.bind (ic.w.flush_frugal.weaken fun _ _ same => balanced.held same)
  · exact balanced
  · refine Prog.Wp.bind ((reserveFinalMetadata_frugal balanced).weaken ?_)
    rintro ⟨err, ic₁⟩ past₁ balanced₁
    cases err with
    | some e => exact balanced₁
    | none =>
        dsimp only
        split_ifs with staged
        · exact balanced₁
        · refine Prog.Wp.bind ((writeHeader_frugal balanced₁ 200).weaken ?_)
          rintro ⟨result, ic₂⟩ past₂ balanced₂
          refine Prog.Wp.bind ((commitHandshake_frugal balanced₂).weaken fun ic₃ past₃ balanced₃ => ?_)
          exact Prog.Wp.bind (ic₃.w.flush_frugal.weaken fun _ _ same => balanced₃.held same)

theorem hijack_frugal (balanced : Balanced ic.body past) :
    Obeys Frugal (fun result past' => Balanced result.2.body past') (ic.hijack h conn) past := by
  unfold hijack
  split_ifs with unsupported failed
  · exact balanced
  · exact balanced
  · refine Prog.Wp.bind ((reserveFinalMetadata_frugal balanced).weaken ?_)
    rintro ⟨err, ic₁⟩ past₁ balanced₁
    cases err with
    | some e => exact balanced₁
    | none =>
        dsimp only
        split_ifs with staged
        · exact balanced₁
        · refine Prog.Wp.bind ((commitHandshake_frugal balanced₁).weaken fun ic₂ past₂ balanced₂ => ?_)
          refine frugal_act trivial fun err past₃ _ same => ?_
          cases err <;> exact balanced₂.held same

theorem ensureProcessed_frugal (balanced : Balanced ic.body past) :
    Obeys Frugal (fun ic' past' => Balanced ic'.body past') (ic.ensureProcessed h) past := by
  unfold ensureProcessed
  split_ifs with processed
  · exact balanced
  · refine Prog.Wp.bind ((obeys_unbudgeted (process_sessional { ic with processed := true })
      fun _ _ => Sessional.unbudgeted).weaken ?_)
    rintro ⟨result, ic'⟩ past' ⟨edits, same⟩
    obtain ⟨responseHeader, live, revokeRequested, rfl⟩ := edits.frame
    have balanced' : Balanced ic.body past' := balanced.held same
    cases result with
    | ok done => exact frugal_act trivial fun _ past'' _ same' => balanced'.held same'
    | error e =>
        refine frugal_act trivial fun _ past'' _ same' => ?_
        dsimp only
        split_ifs <;> exact balanced'.held same'

end Interceptor

/-! ## ServeHTTP -/

namespace StagedBody

variable {b : StagedBody}

theorem validate_frugal (balanced : Balanced b past) :
    Obeys Frugal (fun result past' => Balanced result.2 past') b.validate past := by
  have kept : ∀ {file : Option SpoolFile} {validated : Bool} {past' : History},
      held past' = held past → Balanced { b with file, validated } past' := fun same =>
    ⟨balanced.reserved.trans same.symm, balanced.nonneg, balanced.size, balanced.bounded⟩
  have tripping : ∀ {file : Option SpoolFile} {validated : Bool} {past' : History} {e : Err},
      held past' = held past → Obeys Frugal (fun result past' => Balanced result.2 past')
        (do return (some (← trip e), { b with file, validated })) past' := fun same =>
    Prog.Wp.bind (frugal_act trivial fun _ _ _ same' => kept (same'.trans same))
  unfold validate
  cases spooled : b.file with
  | none => exact balanced
  | some f =>
      dsimp only
      split_ifs with validated
      · exact balanced
      · refine frugal_act trivial fun sought past₁ _ same₁ => ?_
        cases sought with
        | some e =>
            exact Prog.Wp.bind (frugal_act trivial fun _ _ _ same' =>
              balanced.held (same'.trans same₁))
        | none =>
            refine frugal_act trivial fun copied past₂ _ same₂ => ?_
            obtain ⟨n, err⟩ := copied
            cases err with
            | some e => exact tripping (same₂.trans same₁)
            | none =>
                dsimp only
                split_ifs with short
                · exact tripping (same₂.trans same₁)
                · refine frugal_act trivial fun sought past₃ _ same₃ => ?_
                  have same := same₃.trans (same₂.trans same₁)
                  cases sought with
                  | some e => exact tripping same
                  | none => exact kept same

theorem copyFile_frugal (balanced : Balanced b past) (f : SpoolFile) (w : Writer) :
    Obeys Frugal (fun result past' => Balanced result.2.1 past') (b.copyFile f w) past := by
  refine frugal_act trivial fun copied past₁ _ same₁ => ?_
  obtain ⟨n, err⟩ := copied
  have kept : ∀ {past' : History}, held past' = held past →
      Balanced { b with file := some { f with offset := f.offset + n } } past' := fun same =>
    ⟨balanced.reserved.trans same.symm, balanced.nonneg, balanced.size, balanced.bounded⟩
  dsimp only
  split_ifs with nothing
  · exact kept same₁
  · refine Prog.Wp.bind ((w.write_frugal _).weaken ?_)
    rintro ⟨⟨written, writeErr⟩, w'⟩ past₂ same₂
    exact kept (same₂.trans same₁)

theorem flushTo_frugal (balanced : Balanced b past) (w : Writer) :
    Obeys Frugal (fun result past' => Balanced result.2.1 past') (b.flushTo w) past := by
  unfold flushTo
  cases b.file with
  | none =>
      refine Prog.Wp.bind ((w.write_frugal _).weaken ?_)
      rintro ⟨⟨n, err⟩, w'⟩ past' same
      exact balanced.held same
  | some f =>
      refine Prog.Wp.bind ((validate_frugal balanced).weaken ?_)
      rintro ⟨err, b'⟩ past' balanced'
      cases err with
      | some e => exact balanced'
      | none =>
          dsimp only
          cases b'.file with
          | none => exact balanced'
          | some f => exact copyFile_frugal balanced' f w

end StagedBody

namespace Handler

variable {h : Handler} {conn : Conn} {ic : Interceptor}

theorem serveCall_frugal (c : DownCall) (balanced : Balanced ic.body past) (r : Incoming) :
    Obeys Frugal (fun result past' => Balanced result.2.1.body past')
      (serveCall h conn c ic r) past := by
  cases c with
  | writeHeader status =>
      exact Prog.Wp.bind ((Interceptor.writeHeader_frugal balanced status).weaken fun _ _ done => done)
  | write p => exact Prog.Wp.bind ((Interceptor.write_frugal balanced p).weaken fun _ _ done => done)
  | flushError =>
      exact Prog.Wp.bind ((Interceptor.flushError_frugal balanced).weaken fun _ _ done => done)
  | hijack => exact Prog.Wp.bind ((Interceptor.hijack_frugal balanced).weaken fun _ _ done => done)
  | _ => exact balanced

theorem runNext_frugal (next : Down) (balanced : Balanced ic.body past) (r : Incoming) :
    Obeys Frugal (fun result past' => Balanced result.2.body past')
      (runNext h conn next ic r) past := by
  induction next generalizing ic r past with
  | ret err => exact balanced
  | call c next ih =>
      unfold runNext
      refine Prog.Wp.bind ((serveCall_frugal c balanced r).weaken ?_)
      rintro ⟨answer, ic', r'⟩ past' balanced'
      cases answer with
      | error p => exact balanced'
      | ok answer => exact ih answer balanced' r'

theorem rollBack_frugal (balanced : Balanced ic.body past) :
    Obeys Frugal (fun ic' past' => Balanced ic'.body past') (rollBack h ic) past := by
  refine Prog.Wp.bind ((StagedBody.reset_frugal balanced).weaken fun body past' done => ?_)
  obtain ⟨processed, responseHeader, same⟩ :=
    Interceptor.discardBackendMetadata_frame (h := h) { ic with body }
  rw [same]
  exact done.1

theorem refuse_frugal (balanced : Balanced ic.body past) :
    Obeys Frugal (fun ic' past' => Balanced ic'.body past') (refuse h ic) past := by
  refine Prog.Wp.bind ((rollBack_frugal balanced).weaken fun ic' past' balanced' => ?_)
  exact Prog.Wp.bind ((ic'.w.writeHeader_frugal 502).weaken fun _ _ same => balanced'.held same)

theorem emit_frugal (balanced : Balanced ic.body past) :
    Obeys Frugal (fun result past' => Balanced result.2.body past') (emit h ic) past := by
  refine Prog.Wp.bind ((Interceptor.commitInformational_frugal _ _).weaken fun w past₁ same₁ => ?_)
  dsimp only
  split_ifs with unwritten filled
  · exact balanced.held same₁
  · refine Prog.Wp.bind ((Writer.writeHeader_frugal _ _).weaken fun w' past₂ same₂ => ?_)
    have balanced₂ := balanced.held (same₂.trans same₁)
    exact Prog.Wp.bind ((StagedBody.flushTo_frugal balanced₂ _).weaken fun _ _ done => done)
  · refine Prog.Wp.bind ((Writer.writeHeader_frugal _ _).weaken fun w' past₂ same₂ => ?_)
    exact balanced.held (same₂.trans same₁)

theorem settle_frugal (balanced : Balanced ic.body past) :
    Obeys Frugal (fun result past' => Balanced result.2.body past') (settle h ic) past := by
  refine Prog.Wp.bind ((Interceptor.ensureProcessed_frugal balanced).weaken
    fun ic' past' balanced' => ?_)
  split_ifs with failed
  · exact Prog.Wp.bind ((refuse_frugal balanced').weaken fun _ _ done => done)
  · exact emit_frugal balanced'

theorem conclude_frugal (balanced : Balanced ic.body past) (err : Option Err) :
    Obeys Frugal (fun result past' => Balanced result.2.body past') (conclude h ic err) past := by
  have refusing : ∀ {ic' : Interceptor} {past' : History}, Balanced ic'.body past' →
      Obeys Frugal (fun (result : Option Err × Interceptor) past' => Balanced result.2.body past')
        (do return (none, ← refuse h ic')) past' := fun balanced' =>
    Prog.Wp.bind ((refuse_frugal balanced').weaken fun _ _ done => done)
  unfold conclude
  split_ifs with failed
  · exact refusing balanced
  · cases err with
    | some e => exact Prog.Wp.bind ((rollBack_frugal balanced).weaken fun _ _ done => done)
    | none =>
        refine Prog.Wp.bind ((Interceptor.reserveFinalMetadata_frugal balanced).weaken ?_)
        rintro ⟨err, ic₁⟩ past₁ balanced₁
        cases err with
        | some e => exact refusing balanced₁
        | none =>
            dsimp only
            split_ifs with terminal
            · exact balanced₁
            · refine Prog.Wp.bind ((StagedBody.validate_frugal balanced₁).weaken ?_)
              rintro ⟨invalid, body⟩ past₂ balanced₂
              cases invalid with
              | some e => exact refusing balanced₂
              | none => exact settle_frugal balanced₂

theorem intercept_frugal (balanced : Balanced ic.body past) (r : Request) (incoming : Incoming)
    (next : Down) :
    Obeys Frugal (fun _ past' => held past' = 0) (intercept h conn ic r incoming next) past := by
  have closing : ∀ {ic' : Interceptor} {past' : History} {ended : Ended}, Balanced ic'.body past' →
      Obeys Frugal (fun _ past' => held past' = 0)
        (do let _ ← ic'.body.close; return (ended, ic'.w)) past' := by
    intro ic' past' ended balanced'
    have nonneg := balanced'.nonneg.trans balanced'.size
    refine Prog.Wp.bind ((StagedBody.close_frugal balanced'.reserved nonneg).weaken ?_)
    rintro ⟨err, body⟩ past'' ⟨closed, empty, -⟩
    exact closed.reserved.symm.trans empty
  refine frugal_act trivial fun _ past₁ _ same₁ => ?_
  refine Prog.Wp.bind ((runNext_frugal next (balanced.held same₁) incoming).weaken ?_)
  rintro ⟨ended, ic₂⟩ past₂ balanced₂
  cases ended with
  | panicked p => exact closing balanced₂
  | returned err =>
      refine frugal_act trivial fun _ past₃ _ same₃ => ?_
      refine Prog.Wp.bind ((conclude_frugal (balanced₂.held same₃) err).weaken ?_)
      rintro ⟨err', ic₄⟩ past₄ balanced₄
      exact closing balanced₄

theorem balanced_empty (nothing : held past = 0) : Balanced {} past := by
  refine ⟨nothing.symm, le_rfl, le_rfl, ?_⟩
  decide

theorem serveHTTP_frugal (w : Writer) (r : Request) (next : Request → Down) :
    Obeys Frugal (fun _ past' => held past' = 0) (h.serveHTTP conn w r next) [] := by
  have forwarding : ∀ {r : Request} {p : Presented} {past : History}, held past = 0 →
      Obeys Frugal (fun _ past' => held past' = 0) (h.forward conn w r p next) past := fun same =>
    intercept_frugal (balanced_empty same) _ _ _
  have resolving : Obeys (fun _ => Sessional) (fun _ _ => True)
      (h.resolvePresented (h.stripSpoofed r)) [] := by
    unfold resolvePresented
    cases h.presentedKey (h.stripSpoofed r) with
    | none => trivial
    | some key =>
        refine Prog.Wp.bind (((resolve_history h.manager key []).mono
          (fun _ _ => Resolves.sessional) fun _ _ done => done).weaken fun result past _ => ?_)
        cases result with
        | ok live => trivial
        | error e =>
            dsimp only
            split_ifs <;> trivial
  refine Prog.Wp.bind ((obeys_unbudgeted resolving fun _ _ => Sessional.unbudgeted).weaken ?_)
  rintro result past ⟨-, same⟩
  cases result with
  | error e => exact same
  | ok p =>
      dsimp only
      cases h.authz with
      | none => exact forwarding same
      | some a =>
          dsimp only
          cases lacking a (h.stripSpoofed r) p.live with
          | none => exact forwarding same
          | some required =>
              apply Prog.Wp.bind
              unfold denyAuthz
              dsimp only
              split_ifs
              all_goals
                exact (Writer.writeHeader_frugal _ _).weaken fun _ _ same' => same'.trans same

end Handler

theorem Visit.prog_frugal (v : Visit) : Obeys Frugal (fun _ past => held past = 0) v.prog [] := by
  cases v with
  | request x =>
      refine Prog.Wp.bind (Prog.Wp.bind ((Handler.serveHTTP_frugal _ _ _).weaken ?_))
      rintro ⟨ended, w⟩ past same
      cases ended with
      | panicked p => exact same
      | returned err =>
          cases err with
          | some e => exact same
          | none =>
              refine Prog.Wp.bind ((w.writeHeader_frugal 200).weaken fun _ _ same' => ?_)
              exact same'.trans same
  | revokeOwner ownerID =>
      refine Prog.Wp.bind ((obeys_unbudgeted (revokeOwner_proper ownerID settled_nil)
        fun _ _ orderly => Sessional.unbudgeted orderly.1).weaken ?_)
      rintro err past ⟨-, same⟩
      exact same

end Gosestor
