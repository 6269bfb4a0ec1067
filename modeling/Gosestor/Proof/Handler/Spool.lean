import Gosestor.Handler.Budget
import Gosestor.Proof.Handler.Staging

/-!
# A staged body is a plain buffer

While no spool operation and no write to the client fails, a body that is written chunk by chunk,
validated and flushed sends what a plain buffer would hold, wherever it moved to the spool file.
-/

namespace Gosestor

open Gosestor.Go Gosestor.Lib

/-- With `granting` the budget refuses nothing. -/
def Deed.Smooth (granting : Bool) : Deed → Prop
  | ⟨.reserve _, granted⟩ => granting = true → granted = true
  | ⟨.createTemp, err⟩ | ⟨.fileSeek, err⟩ => err = none
  | ⟨.fileWrite p, result⟩ | ⟨.write p, result⟩ => result = (p.length, none)
  | ⟨.fileCopy remaining, result⟩ => result = (remaining, none)
  | _ => True

def smooth (granting : Bool) (past : History) (c : Call) (r : c.Answer) (past' : History) : Prop :=
  Deed.Smooth granting ⟨c, r⟩ ∧ past' = ⟨c, r⟩ :: past

def Deed.written : Deed → List UInt8
  | ⟨.write p, (n, _)⟩ => p.take n
  | _ => []

def sent (past : History) : List UInt8 := past.reverse.flatMap Deed.written

theorem sent_cons (d : Deed) (past : History) : sent (d :: past) = sent past ++ d.written := by
  simp [sent]

section Rules

variable {α : Type} {granting : Bool} {post : α → History → Prop} {past : History}

abbrev Smoothly (granting : Bool) (post : α → History → Prop) (p : Act α) (past : History) : Prop :=
  p.Wp (smooth granting) (fun _ _ => True) post past

theorem smoothly_act {c : Call} {f : c.Answer → Act α}
    (rest : ∀ r, Deed.Smooth granting ⟨c, r⟩ → Smoothly granting post (f r) (⟨c, r⟩ :: past)) :
    Smoothly granting post (act c >>= f) past := by
  refine ⟨trivial, fun r past' taken => ?_⟩
  obtain ⟨without, rfl⟩ := taken
  exact rest r without

end Rules

theorem Writer.write_smoothly {granting : Bool} {past : History} {w : Writer} (connected : w.hijacked = false) (p : List UInt8) :
    Smoothly granting (fun result past' => result.1 = (p.length, none) ∧
      sent past' = sent past ++ p) (w.write p) past := by
  unfold Writer.write
  rw [connected, if_neg Bool.false_ne_true]
  have writes : ∀ (w : Writer) (now : History), sent now = sent past →
      Smoothly granting (fun result past' => result.1 = (p.length, none) ∧
        sent past' = sent past ++ p) (do return (← act (.write p), w)) now := by
    intro w now silent
    apply smoothly_act
    rintro r rfl
    refine ⟨rfl, ?_⟩
    simp [sent_cons, Deed.written, silent]
  unfold Writer.writeHeader
  split_ifs
  · exact writes w past rfl
  · apply smoothly_act
    intro _ _
    apply writes
    simp [sent_cons, Deed.written]

namespace StagedBody

variable {granting : Bool} {past : History} {b : StagedBody} {content : List UInt8}

structure HasContent (b : StagedBody) (content : List UInt8) : Prop where
  size : b.size = content.length
  fresh : b.validated = false
  memory : b.file = none → b.memory = content
  file : ∀ f, b.file = some f → f.content = content ∧ f.offset = content.length

theorem hasContent_empty : HasContent {} [] := ⟨rfl, rfl, fun _ => rfl, fun f spooled => by cases spooled⟩

theorem releaseReserved_zero : b.releaseReserved 0 = .ret b := rfl

theorem written_end {f : SpoolFile} (whole : f.content = content)
    (atEnd : f.offset = content.length) (p : List UInt8) :
    f.written p p.length = ⟨content ++ p, (content ++ p).length⟩ := by
  simp [SpoolFile.written, whole, atEnd]

structure Accepted (b : StagedBody) (content p : List UInt8) (past : History)
    (result : (Nat × Option Err) × StagedBody) (past' : History) : Prop where
  full : result.1 = (p.length, none)
  holds : HasContent result.2 (content ++ p)
  reserved : result.2.reserved = b.reserved + p.length
  held : held past' = held past + p.length
  silent : sent past' = sent past

theorem writeFile_smoothly {f : SpoolFile} (size : b.size = content.length)
    (fresh : b.validated = false) (whole : f.content = content)
    (atEnd : f.offset = content.length) (p : List UInt8) :
    Smoothly granting (fun result past' => result.1 = (p.length, none) ∧
      HasContent result.2 (content ++ p) ∧ result.2.reserved = b.reserved ∧ held past' = held past ∧
      sent past' = sent past) (b.writeFile f p) past := by
  apply smoothly_act
  rintro r rfl
  dsimp only
  rw [sub_self, releaseReserved_zero, Prog.ret_bind, written_end whole atEnd]
  refine ⟨rfl, ⟨?_, fresh, ?_, ?_⟩, rfl, ?_, ?_⟩
  · simp [size]
  · rintro ⟨⟩
  · rintro f' ⟨⟩
    exact ⟨rfl, rfl⟩
  · simp [held, Deed.charge]
  · simp [sent_cons, Deed.written]

theorem spill_smoothly (size : b.size = b.memory.length) (fresh : b.validated = false)
    (p : List UInt8) :
    Smoothly granting (fun result past' => result.1 = (p.length, none) ∧
      HasContent result.2 (b.memory ++ p) ∧ result.2.reserved = b.reserved ∧ held past' = held past ∧
      sent past' = sent past) (b.spill p) past := by
  apply smoothly_act
  rintro r rfl
  apply smoothly_act
  intro unlinked _
  apply smoothly_act
  rintro r rfl
  dsimp only
  rw [written_end rfl rfl, List.nil_append]
  apply (writeFile_smoothly (b := { b with memory := [], unlinked, .. }) size fresh rfl rfl
    p).weaken
  intro result past' done
  simpa [held, Deed.charge, sent_cons, Deed.written] using done

inductive Written (granting : Bool) (b : StagedBody) (content p : List UInt8) (past : History)
    (result : (Nat × Option Err) × StagedBody) (past' : History) : Prop
  | accepted (done : Accepted b content p past result past')
  | refused (failed : ∃ e, result.1 = (0, some e)) (same : result.2 = b)
      (held : held past' = held past) (silent : sent past' = sent past)
      (large : granting = true → stagedResponseMaxBytes < content.length + p.length)

theorem refused_smoothly {e : Err} {now : History} {p : List UInt8} (same : held now = held past)
    (silent : sent now = sent past)
    (large : granting = true → stagedResponseMaxBytes < content.length + p.length) :
    Smoothly granting (Written granting b content p past)
      (trip e >>= fun e => return ((0, some e), b)) now := by
  apply smoothly_act
  intro _ _
  refine Written.refused ⟨e, rfl⟩ rfl ?_ ?_ large
  · simpa [held, Deed.charge] using same
  · simpa [sent_cons, Deed.written] using silent

theorem write_smoothly (holds : HasContent b content) (p : List UInt8) :
    Smoothly granting (Written granting b content p past) (b.write p) past := by
  unfold write
  split_ifs with large
  · apply refused_smoothly rfl rfl
    intro _
    rw [holds.size] at large
    omega
  · apply smoothly_act
    intro granted grants
    cases granted with
    | false =>
        apply refused_smoothly
        · simp [held, Deed.charge]
        · simp [sent_cons, Deed.written]
        · intro always
          cases grants always
    | true =>
        have reserved : held (⟨.reserve p.length, true⟩ :: past) = held past + p.length := by
          simp [held, Deed.charge, add_comm]
        have silent : sent (⟨.reserve p.length, true⟩ :: past) = sent past := by
          simp [sent_cons, Deed.written]
        dsimp only
        cases spooled : b.file with
        | some f =>
            obtain ⟨whole, atEnd⟩ := holds.file f spooled
            refine (writeFile_smoothly ?_ rfl whole atEnd p).weaken ?_
            · exact holds.size
            rintro result past' ⟨full, holds', reserved', held', silent'⟩
            exact .accepted ⟨full, holds', reserved', held'.trans reserved, silent'.trans silent⟩
        | none =>
            dsimp only
            have kept := holds.memory spooled
            split_ifs with fits
            · apply Written.accepted
              refine ⟨rfl, ⟨?_, rfl, ?_, ?_⟩, rfl, reserved, silent⟩
              · simp [holds.size]
              · simp [kept]
              · rintro f ⟨⟩
            · apply (spill_smoothly (by simp [holds.size, kept]) rfl p).weaken
              rintro result past' ⟨full, holds', reserved', held', silent'⟩
              rw [kept] at holds'
              exact .accepted ⟨full, holds', reserved', held'.trans reserved, silent'.trans silent⟩

structure Rewound (b : StagedBody) (content : List UInt8) : Prop where
  memory : b.file = none → b.memory = content
  file : ∀ f, b.file = some f → f.content = content ∧ f.offset = 0 ∧ b.validated = true

theorem validate_smoothly (holds : HasContent b content) :
    Smoothly granting (fun result past' => result.1 = none ∧ Rewound result.2 content ∧
      sent past' = sent past) b.validate past := by
  unfold validate
  cases spooled : b.file with
  | none =>
      refine ⟨rfl, ⟨holds.memory, fun f spooled' => ?_⟩, rfl⟩
      rw [spooled] at spooled'
      cases spooled'
  | some f =>
      obtain ⟨whole, -⟩ := holds.file f spooled
      dsimp only
      rw [holds.fresh, if_neg Bool.false_ne_true]
      apply smoothly_act
      rintro r rfl
      apply smoothly_act
      rintro r rfl
      dsimp only
      rw [if_neg (by simp [whole, holds.size])]
      apply smoothly_act
      rintro r rfl
      refine ⟨rfl, ⟨?_, ?_⟩, ?_⟩
      · rintro ⟨⟩
      · rintro f' ⟨⟩
        exact ⟨whole, rfl, rfl⟩
      · simp [sent_cons, Deed.written]

theorem flushTo_smoothly (rewound : Rewound b content) {w : Writer} (connected : w.hijacked = false) :
    Smoothly granting (fun result past' => result.1 = none ∧ sent past' = sent past ++ content)
      (b.flushTo w) past := by
  unfold flushTo
  cases spooled : b.file with
  | none =>
      apply Prog.Wp.bind
      apply (Writer.write_smoothly connected b.memory).weaken
      rintro ⟨result, w'⟩ past' ⟨rfl, emitted⟩
      rw [rewound.memory spooled] at emitted ⊢
      exact ⟨by simp, emitted⟩
  | some f =>
      obtain ⟨whole, atStart, validated⟩ := rewound.file f spooled
      have again : b.validate = .ret (none, b) := by simp [validate, spooled, validated]
      dsimp only
      rw [again, Prog.ret_bind]
      dsimp only
      rw [spooled]
      apply smoothly_act
      rintro r rfl
      dsimp only
      rw [whole, atStart, List.drop_zero]
      split_ifs with empty
      · rw [List.length_eq_zero_iff.mp empty]
        refine ⟨rfl, ?_⟩
        simp [sent_cons, Deed.written]
      · apply Prog.Wp.bind
        apply (Writer.write_smoothly connected _).weaken
        rintro ⟨result, w'⟩ past' ⟨rfl, emitted⟩
        refine ⟨by simp, ?_⟩
        simpa [sent_cons, Deed.written] using emitted

def writeAll : List (List UInt8) → StagedBody → Act (List (Nat × Option Err) × StagedBody)
  | [], b => return ([], b)
  | p :: chunks, b => do
      let (result, b) ← b.write p
      let (results, b) ← writeAll chunks b
      return (result :: results, b)

def kept : List (List UInt8) → List (Nat × Option Err) → List UInt8
  | p :: chunks, (_, none) :: results => p ++ kept chunks results
  | _ :: chunks, _ :: results => kept chunks results
  | _, _ => []

theorem kept_full (chunks : List (List UInt8)) :
    kept chunks (chunks.map fun p => (p.length, none)) = chunks.flatten := by
  induction chunks with
  | nil => rfl
  | cons p chunks ih => simp [kept, ih]

theorem writeAll_smoothly (holds : HasContent b content) (chunks : List (List UInt8)) :
    Smoothly granting (fun result past' =>
      HasContent result.2 (content ++ kept chunks result.1) ∧ sent past' = sent past ∧
      result.2.reserved = b.reserved + (kept chunks result.1).length ∧
      held past' = held past + (kept chunks result.1).length ∧
      (granting = true → content.length + chunks.flatten.length ≤ stagedResponseMaxBytes →
        result.1 = chunks.map fun p => (p.length, none)))
      (writeAll chunks b) past := by
  induction chunks generalizing b content past with
  | nil =>
      refine ⟨?_, rfl, ?_, ?_, fun _ _ => rfl⟩
      · simpa [kept] using holds
      · simp [kept]
      · simp [kept]
  | cons p chunks ih =>
      apply Prog.Wp.bind
      apply (write_smoothly holds p).weaken
      rintro ⟨result, b'⟩ past' written
      apply Prog.Wp.bind
      cases written with
      | accepted done =>
          obtain ⟨rfl, holds', reserved, held', silent⟩ := done
          apply (ih holds').weaken
          rintro ⟨results, b''⟩ past'' ⟨holds'', silent', reserved', held'', full⟩
          refine ⟨?_, silent'.trans silent, ?_, ?_, fun always fits => ?_⟩
          · simpa [kept] using holds''
          · rw [reserved', reserved]
            simp [kept, add_assoc]
          · rw [held'', held']
            simp [kept, add_assoc]
          · simp only [List.flatten_cons, List.length_append, Nat.cast_add] at fits full
            rw [full always (by omega)]
            rfl
      | refused failed same held' silent large =>
          obtain ⟨e, rfl⟩ := failed
          subst same
          apply (ih holds).weaken
          rintro ⟨results, b''⟩ past'' ⟨holds'', silent', reserved', held'', full⟩
          refine ⟨?_, silent'.trans silent, ?_, ?_, fun always fits => ?_⟩
          · simpa [kept] using holds''
          · simpa [kept] using reserved'
          · simpa [kept, held'] using held''
          · have overfull := large always
            simp only [List.flatten_cons, List.length_append, Nat.cast_add] at fits
            omega

structure Staged where
  written : List (Nat × Option Err)
  len : Int
  reserved : Int
  validateErr : Option Err
  flushErr : Option Err

def stage (chunks : List (List UInt8)) (w : Writer) : Act Staged := do
  let (written, b) ← writeAll chunks {}
  let (validateErr, b') ← b.validate
  let (flushErr, _, _) ← b'.flushTo w
  return ⟨written, b.len, b.reserved, validateErr, flushErr⟩

theorem stage_smoothly (chunks : List (List UInt8)) {w : Writer} (connected : w.hijacked = false) :
    Smoothly granting (fun (out : Staged) past' => out.len = (kept chunks out.written).length ∧
      out.reserved = (kept chunks out.written).length ∧ out.validateErr = none ∧
      out.flushErr = none ∧ sent past' = sent past ++ kept chunks out.written ∧
      (granting = true → chunks.flatten.length ≤ stagedResponseMaxBytes →
        out.written = chunks.map fun p => (p.length, none)))
      (stage chunks w) past := by
  apply Prog.Wp.bind
  apply (writeAll_smoothly hasContent_empty chunks).weaken
  rintro ⟨written, b⟩ past' ⟨holds, silent, reserved, -, full⟩
  apply Prog.Wp.bind
  apply (validate_smoothly holds).weaken
  rintro ⟨validateErr, b'⟩ past'' ⟨rfl, rewound, silent'⟩
  apply Prog.Wp.bind
  apply (flushTo_smoothly rewound connected).weaken
  rintro ⟨flushErr, b'', w'⟩ later ⟨rfl, emitted⟩
  refine ⟨by simpa [len] using holds.size, by simpa using reserved, rfl, rfl, ?_, ?_⟩
  · rw [emitted, silent', silent, List.nil_append]
  · simpa using full

theorem write_refused (b : StagedBody) (p : List UInt8) :
    Smoothly granting (fun result past' =>
      result.1.2 = none ∨ result.2 = b ∧ held past' = held past) (b.write p) past := by
  have spooled : ∀ (b : StagedBody) (f : SpoolFile) (now : History),
      Smoothly granting (fun result _ => result.1.2 = none) (b.writeFile f p) now := by
    intro b f now
    apply smoothly_act
    rintro r rfl
    dsimp only
    rw [sub_self, releaseReserved_zero]
    exact rfl
  unfold write
  split_ifs with large
  · apply smoothly_act
    intro _ _
    exact .inr ⟨rfl, by simp [held, Deed.charge]⟩
  · apply smoothly_act
    intro granted _
    cases granted with
    | false =>
        apply smoothly_act
        intro _ _
        exact .inr ⟨rfl, by simp [held, Deed.charge]⟩
    | true =>
        dsimp only
        cases b.file with
        | some f => exact (spooled _ f _).weaken fun _ _ full => .inl full
        | none =>
            dsimp only
            split_ifs with fits
            · exact .inl rfl
            · apply smoothly_act
              rintro r rfl
              apply smoothly_act
              intro unlinked _
              apply smoothly_act
              rintro r rfl
              exact (spooled _ _ _).weaken fun _ _ full => .inl full

/-- A body that is written in chunks of any size is sent as one piece of bytes: those of the chunks
whose write was not refused. Within the limits no write is refused, and a refused one changes
nothing. -/
theorem staged_body_is_plain_buffer (chunks : List (List UInt8)) (w : Writer)
    (connected : w.hijacked = false) (past past' : History) :
    (∀ out, chunks.flatten.length ≤ stagedResponseMaxBytes →
      Prog.Run (smooth true) (stage chunks w) past out past' →
      out.written = (chunks.map fun p => (p.length, none)) ∧ out.len = chunks.flatten.length ∧
      out.validateErr = none ∧ out.flushErr = none ∧ sent past' = sent past ++ chunks.flatten) ∧
    (∀ out, Prog.Run (smooth false) (stage chunks w) past out past' →
      out.len = (kept chunks out.written).length ∧ out.validateErr = none ∧ out.flushErr = none ∧
      sent past' = sent past ++ kept chunks out.written) ∧
    (∀ (b b' : StagedBody) (p : List UInt8) (n : Nat) (e : Err),
      Prog.Run (smooth false) (b.write p) past ((n, some e), b') past' →
      b' = b ∧ held past' = held past) := by
  refine ⟨fun out fits run => ?_, fun out run => ?_, fun b b' p n e run => ?_⟩
  · obtain ⟨len, -, validated, flushed, emitted, full⟩ := (stage_smoothly chunks connected).run run
    have whole := full rfl fits
    rw [whole, kept_full] at len emitted
    exact ⟨whole, len, validated, flushed, emitted⟩
  · obtain ⟨len, -, validated, flushed, emitted, -⟩ := (stage_smoothly chunks connected).run run
    exact ⟨len, validated, flushed, emitted⟩
  · obtain accepted | refused := (write_refused b p).run run
    · cases accepted
    · exact refused

theorem exists_smooth_run {α : Type} (p : Act α) (past : History) :
    ∃ a past', Prog.Run (smooth true) p past a past' := by
  induction p generalizing past with
  | ret value => exact ⟨value, past, .ret value past⟩
  | call c next ih =>
      obtain ⟨r, without⟩ : ∃ r, Deed.Smooth true ⟨c, r⟩ := by
        cases c with
        | store c => exact ⟨.error .fault, trivial⟩
        | now | wallClock => exact ⟨(0 : Int), trivial⟩
        | randomRead => exact ⟨none, trivial⟩
        | reserve n => exact ⟨true, fun _ => rfl⟩
        | removeTemp => exact ⟨true, trivial⟩
        | createTemp | fileSeek => exact ⟨none, rfl⟩
        | fileClose | flush | hijack => exact ⟨none, trivial⟩
        | fileWrite p | write p => exact ⟨(p.length, none), rfl⟩
        | fileCopy remaining => exact ⟨(remaining, none), rfl⟩
        | _ => exact ⟨(), trivial⟩
      obtain ⟨a, past', run⟩ := ih r (⟨c, r⟩ :: past)
      exact ⟨a, past', .call ⟨without, rfl⟩ run⟩

theorem straddling_chunks_are_sent : ∃ (big : List UInt8) (out : Staged) (past' : History),
    big.length = 1048575 ∧
    Prog.Run (smooth true) (stage [big, [2, 3], [], [4]] {}) [] out past' ∧
    sent past' = big ++ [2, 3, 4] := by
  obtain ⟨big, size⟩ : ∃ big : List UInt8, big.length = 1048575 :=
    ⟨List.replicate 1048575 1, List.length_replicate⟩
  obtain ⟨out, past', run⟩ := exists_smooth_run (stage [big, [2, 3], [], [4]] {}) []
  have fits : [big, [2, 3], [], [4]].flatten.length ≤ stagedResponseMaxBytes := by
    simp [stagedResponseMaxBytes, size]
  obtain ⟨-, -, -, -, emitted⟩ :=
    (staged_body_is_plain_buffer [big, [2, 3], [], [4]] {} rfl [] past').1 out fits run
  refine ⟨big, out, past', size, run, ?_⟩
  simpa [sent] using emitted

end StagedBody

end Gosestor
