import Gosestor.Handler.Serve
import Gosestor.Proof.Handler.Header
import Gosestor.Proof.Handler.Staging

/-!
# While the downstream handler runs

Until it takes the connection over, the downstream handler reaches nothing but the staging area:
the session, the client and the store are left alone, and a staging failure is remembered. A
handshake sends no cookie, unless a takeover is tried again after one that failed: metadata is
discarded once only.
-/

namespace Gosestor

open Gosestor.Go Gosestor.Lib Gosestor.Session

def Client : Call → Prop
  | .writeHeader _ _ | .write _ | .flush | .hijack => True
  | _ => False

def Wire (c : Call) : Prop := Staging c ∨ Client c

def Deed.isHandshake : Deed → Bool
  | ⟨.flush, _⟩ | ⟨.hijack, _⟩ => true
  | _ => false

def shaken (past : History) : Bool := past.any Deed.isHandshake

def Deed.takeover : Deed → Option (Option Err)
  | ⟨.hijack, err⟩ => some err
  | _ => none

def takeovers (past : History) : List (Option Err) := past.filterMap Deed.takeover

/-- A takeover was tried after one that failed. -/
def retried (past : History) : Bool := (takeovers past).tail.any Option.isSome

def Cookieless (past : History) : Prop :=
  ∀ status hdr, (⟨.writeHeader status hdr, ()⟩ : Deed) ∈ past → hdr.values setCookieName = []

def Writer.Closed (w : Writer) : Prop := (w.wrote || w.hijacked) = true

theorem Writer.Closed.withHeader {w : Writer} (closed : w.Closed) (header : Header) :
    Writer.Closed { w with header } := closed

/-- Neither what was sent nor what `w` can still send has a cookie. -/
def Unforged (w : Writer) (past : History) : Prop :=
  retried past = false → Cookieless past ∧
    (w.Closed ∨ (w.header.values setCookieName = [] ∧ (takeovers past).any Option.isSome))

section Rules

variable {α : Type} {may : History → Call → Prop} {post : α → History → Prop} {past : History}
  {p : Act α}

theorem obeys_wire (obeys : Obeys (fun _ => Staging) post p past) :
    Obeys (fun _ => Wire) post p past :=
  obeys.mono (fun _ _ => .inl) fun _ _ h => h

theorem obeys_shaken (obeys : Obeys may post p past) (before : shaken past) :
    Obeys may (fun a past' => post a past' ∧ shaken past') p past := by
  refine (obeys.frame (fun past' => shaken past') ?_ before).mono (fun _ _ h => h.1) fun _ _ h => h
  rintro past' c r past'' - ⟨-, rfl⟩ earlier
  exact (congrArg (Deed.isHandshake ⟨c, r⟩ || ·) earlier).trans (Bool.or_true _)

theorem Only.untaken {P : Call → Prop} {past : History} (only : Only P past) (aside : ¬ P .hijack) :
    takeovers past = [] := by
  refine List.filterMap_eq_nil_iff.mpr fun d member => ?_
  have allowed := only d member
  obtain ⟨c, r⟩ := d
  cases c with
  | hijack => exact absurd allowed aside
  | _ => rfl

theorem takeovers_append {new past : History} (only : Only Staging new) :
    takeovers (new ++ past) = takeovers past := by
  rw [takeovers, List.filterMap_append, ← takeovers, ← takeovers, only.untaken id, List.nil_append]

theorem Cookieless.append {new past : History} (cookieless : Cookieless past)
    (only : Only Staging new) : Cookieless (new ++ past) := by
  intro status hdr member
  obtain member | member := List.mem_append.mp member
  · exact (only _ member).elim
  · exact cookieless status hdr member

theorem Unforged.append {w : Writer} {new past : History} (unforged : Unforged w past)
    (only : Only Staging new) : Unforged w (new ++ past) := by
  intro once
  rw [retried, takeovers_append only] at once
  obtain ⟨cookieless, still⟩ := unforged once
  exact ⟨cookieless.append only, by rwa [takeovers_append only]⟩

theorem obeys_unforged {w : Writer} (obeys : Obeys (fun _ => Staging) post p past)
    (unforged : Unforged w past) :
    Obeys (fun _ => Wire) (fun a past' => post a past' ∧ Unforged w past') p past := by
  refine (obeys_wire (obeys_new obeys)).weaken ?_
  rintro a past' ⟨done, new, rfl, only⟩
  exact ⟨done, unforged.append only⟩

end Rules

/-! ## The client's side -/

namespace Writer

variable {past : History}

theorem writeHeader_client (w : Writer) (status : Int) :
    Obeys (fun _ => Client)
      (fun w' past' => w'.header = w.header ∧ (w.Closed → w'.Closed) ∧
        (informational status = false → w'.Closed) ∧ takeovers past' = takeovers past ∧
        (Cookieless past → (w.Closed ∨ w.header.values setCookieName = []) → Cookieless past'))
      (w.writeHeader status) past := by
  unfold writeHeader
  split_ifs with done
  · exact ⟨rfl, id, fun _ => done, rfl, fun cookieless _ => cookieless⟩
  · refine obeys_act trivial fun _ _ => ⟨rfl, fun closed => absurd closed done, fun final => ?_, rfl,
      fun cookieless still status' hdr member => ?_⟩
    · simp [Closed, final]
    · obtain same | earlier := List.mem_cons.mp member
      · cases same
        exact still.resolve_left done
      · exact cookieless status' hdr earlier

theorem writeHeader_unforged {w : Writer} (unforged : Unforged w past) (status : Int) :
    Obeys (fun _ => Client) Unforged (w.writeHeader status) past := by
  refine (w.writeHeader_client status).weaken ?_
  rintro w' past' ⟨header, closed, -, same, cookieless⟩ once
  rw [retried, same] at once
  obtain ⟨before, still⟩ := unforged once
  refine ⟨cookieless before (still.imp_right And.left), ?_⟩
  rw [header, same]
  exact still.imp_left closed

theorem unforged_cons {w : Writer} (unforged : Unforged w past) {c : Call} (r : c.Answer)
    (other : Deed.takeover ⟨c, r⟩ = none) (silent : ∀ status hdr, c ≠ .writeHeader status hdr) :
    Unforged w (⟨c, r⟩ :: past) := by
  have same : takeovers (⟨c, r⟩ :: past) = takeovers past := by
    rw [takeovers, List.filterMap_cons, other]
    rfl
  intro once
  rw [retried, same] at once
  obtain ⟨before, still⟩ := unforged once
  refine ⟨fun status hdr member => ?_, by rwa [same]⟩
  obtain equal | earlier := List.mem_cons.mp member
  · exact absurd (congrArg Sigma.fst equal).symm (silent status hdr)
  · exact before status hdr earlier

theorem write_unforged {w : Writer} (unforged : Unforged w past) (p : List UInt8) :
    Obeys (fun _ => Client) (fun result past' => Unforged result.2 past') (w.write p) past := by
  unfold write
  split_ifs with hijacked
  · exact unforged
  · refine Prog.Wp.bind ((writeHeader_unforged unforged 200).weaken fun w' past' unforged' => ?_)
    exact obeys_act trivial fun _ _ => unforged_cons unforged' _ rfl fun _ _ h => by cases h

theorem flush_unforged {w : Writer} (unforged : Unforged w past) :
    Obeys (fun _ => Client) (fun result past' => Unforged result.2 past' ∧ shaken past')
      w.flush past := by
  refine Prog.Wp.bind ((writeHeader_unforged unforged 200).weaken fun w' past' unforged' => ?_)
  exact obeys_act trivial fun _ _ => ⟨unforged_cons unforged' _ rfl fun _ _ h => (by cases h), rfl⟩

end Writer

namespace Interceptor

/-- What the calls of the downstream handler leave alone. -/
structure OnlyStaged (ic ic' : Interceptor) : Prop where
  w : ic'.w = ic.w
  live : ic'.live = ic.live
  processed : ic'.processed = ic.processed
  failed : ic'.failed = ic.failed
  revokeRequested : ic'.revokeRequested = ic.revokeRequested
  hadProxyCookie : ic'.hadProxyCookie = ic.hadProxyCookie
  resolveErr : ic'.resolveErr = ic.resolveErr
  terminal : ic'.terminal = ic.terminal
  writeErr : ic.writeErr.isSome → ic'.writeErr.isSome
  final : Writer.informational ic.status = false → Writer.informational ic'.status = false
  infos : (∀ info ∈ ic.informational, Writer.informational info.status) →
    ∀ info ∈ ic'.informational, Writer.informational info.status

theorem OnlyStaged.refl (ic : Interceptor) : OnlyStaged ic ic :=
  ⟨rfl, rfl, rfl, rfl, rfl, rfl, rfl, rfl, id, id, id⟩

theorem OnlyStaged.trans {ic ic' ic'' : Interceptor} (first : OnlyStaged ic ic')
    (second : OnlyStaged ic' ic'') : OnlyStaged ic ic'' where
  w := second.w.trans first.w
  live := second.live.trans first.live
  processed := second.processed.trans first.processed
  failed := second.failed.trans first.failed
  revokeRequested := second.revokeRequested.trans first.revokeRequested
  hadProxyCookie := second.hadProxyCookie.trans first.hadProxyCookie
  resolveErr := second.resolveErr.trans first.resolveErr
  terminal := second.terminal.trans first.terminal
  writeErr := second.writeErr ∘ first.writeErr
  final := second.final ∘ first.final
  infos := second.infos ∘ first.infos

structure Staged (ic : Interceptor) (past : History) (ic' : Interceptor) (past' : History) :
    Prop where
  kept : OnlyStaged ic ic'
  trips : tripped past' → tripped past ∨ ic'.writeErr.isSome
  new : ∃ new, past' = new ++ past ∧ Only Staging new

theorem Staged.refl (ic : Interceptor) (past : History) : Staged ic past ic past :=
  ⟨.refl ic, .inl, [], rfl, only_nil⟩

theorem Staged.trans {ic ic' ic'' : Interceptor} {past past' past'' : History}
    (first : Staged ic past ic' past') (second : Staged ic' past' ic'' past'') :
    Staged ic past ic'' past'' where
  kept := first.kept.trans second.kept
  trips := fun trips => (second.trips trips).elim
    (fun earlier => (first.trips earlier).imp_right second.kept.writeErr) .inr
  new := by
    obtain ⟨new, rfl, only⟩ := first.new
    obtain ⟨new', rfl, only'⟩ := second.new
    exact ⟨new' ++ new, (List.append_assoc _ _ _).symm, only'.append only⟩

variable {h : Handler} {conn : Conn} {past : History}

theorem note_kept (ic : Interceptor) (e : Err) : OnlyStaged ic (ic.note e) :=
  { OnlyStaged.refl ic with writeErr := fun _ => by simp [note] }

theorem note_writeErr (ic : Interceptor) (e : Err) : (ic.note e).writeErr.isSome := by
  simp [note]

def reserving (ic : Interceptor) (body : StagedBody) (metadataBytes : Int)
    (finalMetadataReserved : Bool) : Interceptor :=
  { ic with body, metadataBytes, finalMetadataReserved }

theorem reserving_kept (ic : Interceptor) (body : StagedBody) (metadataBytes : Int)
    (final : Bool) : OnlyStaged ic (ic.reserving body metadataBytes final) :=
  ⟨rfl, rfl, rfl, rfl, rfl, rfl, rfl, rfl, id, id, id⟩

theorem reserveMetadataBytes_obeys (ic : Interceptor) (n : Int) :
    Obeys (fun _ => Staging)
      (fun result past' => tripped past' = (tripped past || result.1.isSome) ∧
        ∃ body metadataBytes,
          result.2 = ic.reserving body metadataBytes ic.finalMetadataReserved)
      (ic.reserveMetadataBytes n) past := by
  unfold reserveMetadataBytes
  split_ifs with large
  · exact obeys_trip trivial ⟨(Bool.or_true _).symm, ic.body, ic.metadataBytes, rfl⟩
  · refine obeys_act trivial fun reserved _ => ?_
    cases reserved with
    | false => exact obeys_trip trivial ⟨(Bool.or_true _).symm, ic.body, ic.metadataBytes, rfl⟩
    | true => exact ⟨(Bool.or_false _).symm, _, _, rfl⟩

theorem reserveFinalMetadata_obeys (ic : Interceptor) :
    Obeys (fun _ => Staging)
      (fun result past' => tripped past' = (tripped past || result.1.isSome) ∧
        ∃ body metadataBytes final, result.2 = ic.reserving body metadataBytes final)
      (ic.reserveFinalMetadata h) past := by
  unfold reserveFinalMetadata
  split_ifs with reserved
  · exact ⟨(Bool.or_false _).symm, ic.body, ic.metadataBytes, ic.finalMetadataReserved, rfl⟩
  · refine Prog.Wp.bind ((ic.reserveMetadataBytes_obeys _).weaken fun result past' spec => ?_)
    obtain ⟨result, ic'⟩ := result
    obtain ⟨trips, body, metadataBytes, rfl⟩ := spec
    cases result with
    | some e => exact ⟨trips, body, metadataBytes, ic.finalMetadataReserved, rfl⟩
    | none => exact ⟨trips, body, metadataBytes, true, rfl⟩

theorem writeHeader_obeys (ic : Interceptor) (status : Int) :
    Obeys (fun _ => Staging) (fun result past' => Staged ic past result.2 past')
      (ic.writeHeader status) past := by
  have kept : Obeys (fun _ => Staging) (fun result past' => OnlyStaged ic result.2 ∧
      (tripped past' → tripped past ∨ result.2.writeErr.isSome)) (ic.writeHeader status) past := by
    unfold writeHeader
    split_ifs with wrote invalid informational many
    · exact ⟨.refl ic, .inl⟩
    · exact ⟨.refl ic, .inl⟩
    · exact obeys_trip trivial ⟨note_kept ic _, fun _ => .inr (note_writeErr ic _)⟩
    · refine Prog.Wp.bind ((ic.reserveMetadataBytes_obeys _).weaken fun result past' spec => ?_)
      obtain ⟨result, ic'⟩ := result
      obtain ⟨trips, body, metadataBytes, rfl⟩ := spec
      cases result with
      | some e =>
          exact ⟨(reserving_kept ic _ _ _).trans (note_kept _ e),
            fun _ => .inr (note_writeErr _ e)⟩
      | none =>
          refine ⟨⟨rfl, rfl, rfl, rfl, rfl, rfl, rfl, rfl, id, id, fun infos info member => ?_⟩,
            fun after => .inl ?_⟩
          · obtain old | new := List.mem_append.mp member
            · exact infos info old
            · rw [List.mem_singleton.mp new]
              exact informational
          · exact (trips.trans (Bool.or_false _)).symm.trans after
    · exact ⟨⟨rfl, rfl, rfl, rfl, rfl, rfl, rfl, rfl, id,
        fun _ => eq_false_of_ne_true informational, id⟩, .inl⟩
  exact (obeys_new kept).weaken fun _ _ spec => ⟨spec.1.1, spec.1.2, spec.2⟩

theorem writeHeader_started (ic : Interceptor) :
    Obeys (fun _ => Staging) (fun result _ => result.2.wroteHeader = true)
      (ic.writeHeader 200) past := by
  unfold writeHeader
  split_ifs with wrote invalid informational many
  · exact wrote
  · simp at invalid
  · simp [Writer.informational] at informational
  · simp [Writer.informational] at informational
  · rfl

theorem commitInformational_client (infos : List StagedInformationalResponse) (w : Writer) :
    Obeys (fun _ => Client)
      (fun w' past' => (w.Closed → w'.Closed) ∧ takeovers past' = takeovers past ∧
        (Cookieless past → Cookieless past'))
      (commitInformational h infos w) past := by
  induction infos generalizing w past with
  | nil => exact ⟨id, rfl, id⟩
  | cons info rest ih =>
      rw [commitInformational]
      refine Prog.Wp.bind ((Writer.writeHeader_client _ _).weaken ?_)
      rintro w₁ past₁ ⟨-, closed₁, -, same₁, cookieless₁⟩
      refine (ih w₁).weaken ?_
      rintro w₂ past₂ ⟨closed₂, same₂, cookieless₂⟩
      refine ⟨fun closed => closed₂ (closed₁ (closed.withHeader _)), same₂.trans same₁,
        fun before => cookieless₂ (cookieless₁ before ?_)⟩
      rw [values_copyHeaders]
      exact .inr (dropManaged_lines h _)

theorem discardBackendMetadata_lines {ic : Interceptor} (first : ic.processed = false) :
    (ic.discardBackendMetadata h).responseHeader.values setCookieName = [] := by
  have lines := scrubTrailers_lines h (h.dropManaged ic.responseHeader)
  rw [dropManaged_lines] at lines
  unfold discardBackendMetadata
  rw [first]
  exact List.subset_nil.mp lines

theorem discardBackendMetadata_frame (ic : Interceptor) :
    ∃ processed responseHeader,
      ic.discardBackendMetadata h = { ic with processed, responseHeader } := by
  unfold discardBackendMetadata
  split_ifs
  · exact ⟨ic.processed, ic.responseHeader, rfl⟩
  · exact ⟨_, _, rfl⟩

/-- The writer after a handshake, with metadata that was just discarded or on a closed connection. -/
structure Committed (ic : Interceptor) (past : History) (w : Writer) (past' : History) : Prop where
  takeovers : takeovers past' = takeovers past
  cookieless : Cookieless past → ic.processed = false ∨ ic.w.Closed → Cookieless past'
  still : ic.processed = false ∨ ic.w.Closed → w.Closed ∨ w.header.values setCookieName = []
  closed : ic.w.Closed ∨ (ic.wroteHeader = true ∧ Writer.informational ic.status = false) →
    w.Closed

theorem Committed.append {ic : Interceptor} {w : Writer} {new past' : History}
    (committed : Committed ic past w past') (only : Only Staging new) :
    Committed ic past w (new ++ past') :=
  { committed with
    takeovers := (takeovers_append only).trans committed.takeovers
    cookieless := fun before first => (committed.cookieless before first).append only }

theorem commitHandshake_obeys (ic : Interceptor) :
    Obeys (fun _ => Wire)
      (fun ic' past' => ic'.terminal = true ∧ Committed ic past ic'.w past')
      (ic.commitHandshake h) past := by
  have client : ∀ {α : Type} {p : Act α} {post : α → History → Prop} {past : History},
      Obeys (fun _ => Client) post p past → Obeys (fun _ => Wire) post p past :=
    fun obeys => obeys.mono (fun _ _ => .inr) fun _ _ h => h
  have release : ∀ {ic' : Interceptor} {past' : History}, ic'.terminal = true →
      Committed ic past ic'.w past' →
      Obeys (fun _ => Wire) (fun ic' past' => ic'.terminal = true ∧ Committed ic past ic'.w past')
        ic'.releaseTerminalStaging past' := by
    intro ic' past' terminal committed
    refine Prog.Wp.bind ((obeys_wire (obeys_new ic'.body.reset_obeys)).weaken ?_)
    rintro body past'' ⟨-, new, rfl, only⟩
    exact ⟨terminal, committed.append only⟩
  have lines : ic.processed = false →
      (ic.discardBackendMetadata h).responseHeader.values setCookieName = [] :=
    discardBackendMetadata_lines
  unfold commitHandshake
  obtain ⟨processed, responseHeader, same⟩ := discardBackendMetadata_frame (h := h) ic
  rw [same] at lines ⊢
  refine Prog.Wp.bind ((client (commitInformational_client _ _)).weaken ?_)
  rintro w₁ past₁ ⟨closed₁, same₁, cookieless₁⟩
  have still : ic.processed = false ∨ ic.w.Closed →
      w₁.Closed ∨ (copyHeaders w₁.header responseHeader).values setCookieName = [] := by
    rw [values_copyHeaders]
    exact fun first => (first.imp lines closed₁).symm
  dsimp only
  split_ifs with wrote
  · refine Prog.Wp.bind ((client (Writer.writeHeader_client _ _)).weaken ?_)
    rintro w₂ past₂ ⟨header, closed₂, sent, same₂, cookieless₂⟩
    refine release rfl ⟨same₂.trans same₁,
      fun before first => cookieless₂ (cookieless₁ before) (still first), fun first => ?_, ?_⟩
    · rw [header]
      exact (still first).imp_left closed₂
    · exact fun ends => ends.elim (closed₂ ∘ closed₁) fun final => sent final.2
  · refine release rfl ⟨same₁, fun before _ => cookieless₁ before, still, ?_⟩
    exact fun ends => ends.elim closed₁ fun final => absurd final.1 wrote

structure Ready (ic : Interceptor) (past : History) : Prop where
  ordinary : ic.terminal = false → ic.processed = false ∧
    Writer.informational ic.status = false ∧ Cookieless past ∧ takeovers past = []
  terminal : ic.terminal = true → Unforged ic.w past

theorem Staged.ready {ic ic' : Interceptor} {past' : History} (staged : Staged ic past ic' past')
    (ready : Ready ic past) : Ready ic' past' := by
  obtain ⟨new, rfl, only⟩ := staged.new
  refine ⟨fun ordinary => ?_, fun terminal => ?_⟩
  · obtain ⟨first, final, cookieless, untried⟩ :=
      ready.ordinary (staged.kept.terminal.symm.trans ordinary)
    exact ⟨staged.kept.processed.trans first, staged.kept.final final, cookieless.append only,
      (takeovers_append only).trans untried⟩
  · rw [staged.kept.w]
    exact (ready.terminal (staged.kept.terminal.symm.trans terminal)).append only

structure Shook (ic ic' : Interceptor) (past' : History) : Prop where
  terminal : ic'.terminal = true
  isShaken : ic.terminal = true ∨ shaken past'
  unforged : Unforged ic'.w past'

theorem write_staged (ic : Interceptor) (ordinary : ic.terminal = false) (p : List UInt8) :
    Obeys (fun _ => Staging) (fun result past' => Staged ic past result.2 past')
      (ic.write p) past := by
  unfold write
  rw [if_neg (by simp [ordinary])]
  refine Prog.Wp.bind ((ic.writeHeader_obeys 200).weaken fun started past₁ staged => ?_)
  obtain ⟨started, ic₁⟩ := started
  dsimp only
  split_ifs with refused
  · exact staged
  · refine Prog.Wp.bind ((obeys_new (ic₁.body.write_obeys p)).weaken fun result past₂ spec => ?_)
    obtain ⟨⟨n, err⟩, body⟩ := result
    obtain ⟨trips, new⟩ := spec
    cases err with
    | none =>
        refine staged.trans
          ⟨⟨rfl, rfl, rfl, rfl, rfl, rfl, rfl, rfl, id, id, id⟩, fun after => .inl ?_, new⟩
        exact (trips.trans (Bool.or_false _)).symm.trans after
    | some e =>
        exact staged.trans ⟨⟨rfl, rfl, rfl, rfl, rfl, rfl, rfl, rfl,
          (note_kept { ic₁ with body } e).writeErr, id, id⟩, fun _ => .inr (note_writeErr _ e), new⟩

theorem write_obeys (ic : Interceptor) (ready : Ready ic past) (p : List UInt8) :
    Obeys (fun _ => Wire)
      (fun result past' => Shook ic result.2 past' ∨ Staged ic past result.2 past')
      (ic.write p) past := by
  cases terminal : ic.terminal with
  | true =>
      unfold write
      rw [if_pos terminal]
      refine Prog.Wp.bind (((Writer.write_unforged (ready.terminal terminal) p).mono
        (fun _ _ => .inr) fun _ _ h => h).weaken fun _ _ unforged => ?_)
      exact .inl ⟨terminal, .inl terminal, unforged⟩
  | false =>
      exact (obeys_wire (ic.write_staged terminal p)).weaken fun _ _ staged => .inr staged

theorem reserveFinal_staged {ic ic' : Interceptor} {result : Option Err} {past' : History}
    (spec : (tripped past' = (tripped past || result.isSome) ∧
      ∃ body metadataBytes final, ic' = ic.reserving body metadataBytes final) ∧
      ∃ new, past' = new ++ past ∧ Only Staging new) :
    Staged ic past { ic' with writeErr := result.or ic'.writeErr } past' := by
  -- The two handshakes start alike: they are refused, or the final metadata is reserved.
  obtain ⟨⟨trips, body, metadataBytes, final, rfl⟩, new⟩ := spec
  refine ⟨⟨rfl, rfl, rfl, rfl, rfl, rfl, rfl, rfl, fun before => ?_, id, id⟩, fun after => ?_, new⟩
  · cases result with
    | some e => rfl
    | none => exact before
  · cases result with
    | some e => exact .inr rfl
    | none => exact .inl ((trips.trans (Bool.or_false _)).symm.trans after)

theorem flushError_obeys (ic : Interceptor) (ready : Ready ic past) :
    Obeys (fun _ => Wire)
      (fun result past' => Shook ic result.2 past' ∨ Staged ic past result.2 past')
      (ic.flushError h conn) past := by
  have client : ∀ {α : Type} {p : Act α} {post : α → History → Prop} {past : History},
      Obeys (fun _ => Client) post p past → Obeys (fun _ => Wire) post p past :=
    fun obeys => obeys.mono (fun _ _ => .inr) fun _ _ h => h
  unfold flushError
  split_ifs with plain terminal failed
  · exact .inr (.refl ic past)
  · refine Prog.Wp.bind ((client (Writer.flush_unforged (ready.terminal terminal))).weaken ?_)
    exact fun _ _ spec => .inl ⟨terminal, .inl terminal, spec.1⟩
  · exact .inr (.refl ic past)
  refine Prog.Wp.bind ((obeys_wire (obeys_new ic.reserveFinalMetadata_obeys)).weaken
    fun reserved past₁ spec => ?_)
  obtain ⟨reserved, ic₁⟩ := reserved
  have staged := reserveFinal_staged spec
  cases reserved with
  | some e => exact .inr staged
  | none =>
      dsimp only
      split_ifs with body
      · exact .inr staged
      · refine Prog.Wp.bind ((((ic₁.writeHeader_obeys 200).and ic₁.writeHeader_started).mono
          (fun _ _ allowed => .inl allowed.1) fun _ _ h => h).weaken fun started past₂ spec => ?_)
        obtain ⟨started, ic₂⟩ := started
        obtain ⟨staged₂, wrote⟩ := spec
        have ordinary : ic.terminal = false := eq_false_of_ne_true terminal
        have staged := staged.trans staged₂
        obtain ⟨first, final, cookieless, -⟩ :=
          (staged.ready ready).ordinary (staged.kept.terminal.trans ordinary)
        refine Prog.Wp.bind ((commitHandshake_obeys ic₂).weaken fun ic₃ past₃ spec => ?_)
        obtain ⟨isTerminal, committed⟩ := spec
        have unforged : Unforged ic₃.w past₃ := fun _ =>
          ⟨committed.cookieless cookieless (.inl first), .inl (committed.closed (.inr ⟨wrote, final⟩))⟩
        refine Prog.Wp.bind ((client (Writer.flush_unforged unforged)).weaken ?_)
        exact fun _ _ spec => .inl ⟨isTerminal, .inr spec.2, spec.1⟩

theorem Ready.first {ic : Interceptor} (ready : Ready ic past)
    (untried : (takeovers past).any Option.isSome = false) :
    Cookieless past ∧ (ic.processed = false ∨ ic.w.Closed) := by
  cases terminal : ic.terminal with
  | false =>
      obtain ⟨first, -, cookieless, -⟩ := ready.ordinary terminal
      exact ⟨cookieless, .inl first⟩
  | true =>
      have once : retried past = false := by
        rw [List.any_eq_false] at untried
        exact List.any_eq_false.mpr fun err member => untried err (List.mem_of_mem_tail member)
      obtain ⟨cookieless, closed | ⟨-, tried⟩⟩ := ready.terminal terminal once
      · exact ⟨cookieless, .inr closed⟩
      · cases untried.symm.trans tried

theorem hijack_obeys (ic : Interceptor) (ready : Ready ic past) :
    Obeys (fun _ => Wire)
      (fun result past' => Shook ic result.2 past' ∨ Staged ic past result.2 past')
      (ic.hijack h conn) past := by
  unfold hijack
  split_ifs with plain failed
  · exact .inr (.refl ic past)
  · exact .inr (.refl ic past)
  refine Prog.Wp.bind ((obeys_wire (obeys_new ic.reserveFinalMetadata_obeys)).weaken
    fun reserved past₁ spec => ?_)
  obtain ⟨reserved, ic₁⟩ := reserved
  have staged := reserveFinal_staged spec
  cases reserved with
  | some e => exact .inr staged
  | none =>
      dsimp only
      split_ifs with body
      · exact .inr staged
      · refine Prog.Wp.bind ((commitHandshake_obeys ic₁).weaken fun ic₂ past₂ spec => ?_)
        obtain ⟨isTerminal, committed⟩ := spec
        refine obeys_act (.inr trivial) fun err _ => .inl ⟨?_, .inr rfl, fun once => ?_⟩
        · cases err with
          | none => exact isTerminal
          | some e => exact isTerminal
        · have untried : (takeovers past₂).any Option.isSome = false := once
          rw [committed.takeovers] at untried
          obtain ⟨before, first⟩ := (staged.ready ready).first untried
          refine ⟨fun status hdr member => ?_, ?_⟩
          · obtain same | earlier := List.mem_cons.mp member
            · cases same
            · exact committed.cookieless before first status hdr earlier
          · cases err with
            | none => exact .inl (Bool.or_true _)
            | some e => exact (committed.still first).imp_right fun lines => ⟨lines, rfl⟩

end Interceptor

namespace Handler

open Interceptor

variable (h : Handler) (conn : Conn) {past : History}

theorem serveCall_obeys (c : DownCall) (ic : Interceptor) (r : Incoming) (ready : Ready ic past) :
    Obeys (fun _ => Wire)
      (fun result past' => Shook ic result.2.1 past' ∨ Staged ic past result.2.1 past')
      (serveCall h conn c ic r) past := by
  cases c with
  | setHeader change =>
      exact .inr ⟨⟨rfl, rfl, rfl, rfl, rfl, rfl, rfl, rfl, id, id, id⟩, .inl, [], rfl, only_nil⟩
  | writeHeader status =>
      exact Prog.Wp.bind ((obeys_wire (ic.writeHeader_obeys status)).weaken
        fun _ _ staged => .inr staged)
  | write p => exact Prog.Wp.bind ((ic.write_obeys ready p).weaken fun _ _ staged => staged)
  | flushError => exact Prog.Wp.bind ((ic.flushError_obeys ready).weaken fun _ _ staged => staged)
  | hijack => exact Prog.Wp.bind ((ic.hijack_obeys ready).weaken fun _ _ staged => staged)
  | header | trailer | readBody | closeBody => exact .inr (.refl ic past)

theorem runNext_terminal (next : Down) (ic : Interceptor) (r : Incoming)
    (terminal : ic.terminal = true) (unforged : Unforged ic.w past) :
    Obeys (fun _ => Wire)
      (fun result past' => result.2.terminal = true ∧ Unforged result.2.w past')
      (runNext h conn next ic r) past := by
  induction next generalizing ic r past with
  | ret err => exact ⟨terminal, unforged⟩
  | call c next ih =>
      have ready : Ready ic past := by
        refine ⟨fun ordinary => ?_, fun _ => unforged⟩
        cases ordinary.symm.trans terminal
      rw [runNext]
      refine Prog.Wp.bind ((serveCall_obeys h conn c ic r ready).weaken fun result past' spec => ?_)
      obtain ⟨answer, ic', r'⟩ := result
      have stays : ic'.terminal = true ∧ Unforged ic'.w past' := by
        obtain shook | staged := spec
        · exact ⟨shook.terminal, shook.unforged⟩
        · have still := staged.kept.terminal.trans terminal
          exact ⟨still, (staged.ready ready).terminal still⟩
      cases answer with
      | error p => exact stays
      | ok answer => exact ih answer ic' r' stays.1 stays.2

theorem runNext_obeys (next : Down) (ic : Interceptor) (r : Incoming)
    (ordinary : ic.terminal = false) (ready : Ready ic past) :
    Obeys (fun _ => Wire)
      (fun result past' => (result.2.terminal = true ∧ shaken past' ∧ Unforged result.2.w past') ∨
        Staged ic past result.2 past')
      (runNext h conn next ic r) past := by
  induction next generalizing ic r past with
  | ret err => exact .inr (.refl ic past)
  | call c next ih =>
      rw [runNext]
      refine Prog.Wp.bind ((serveCall_obeys h conn c ic r ready).weaken fun result past₁ spec => ?_)
      obtain ⟨answer, ic₁, r₁⟩ := result
      obtain ⟨terminal, already | isShaken, unforged⟩ | staged := spec
      · simp [ordinary] at already
      · cases answer with
        | error p => exact .inl ⟨terminal, isShaken, unforged⟩
        | ok answer =>
            refine (obeys_shaken (runNext_terminal h conn (next answer) ic₁ r₁ terminal unforged)
              isShaken).weaken ?_
            exact fun _ _ after => .inl ⟨after.1.1, after.2, after.1.2⟩
      · cases answer with
        | error p => exact .inr staged
        | ok answer =>
            refine (ih answer ic₁ r₁ (staged.kept.terminal.trans ordinary)
              (staged.ready ready)).weaken ?_
            exact fun _ _ rest => rest.imp_right staged.trans

end Handler

end Gosestor
