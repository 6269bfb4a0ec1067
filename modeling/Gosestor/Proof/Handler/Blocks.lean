import Gosestor.Proof.Handler.Sessional
import Gosestor.Proof.Handler.Traffic

/-!
# The header blocks that are sent

If the header map that the handler is given has canonical keys, and the downstream handler sets no
others, then every header block that reaches the client has canonical keys.
-/

namespace Gosestor

open Gosestor.Go Gosestor.Lib Gosestor.Session

/-- A header block that is sent by the call meets `P`. -/
def Carries (P : Header → Prop) (c : Call) : Prop :=
  ∀ status hdr, c = .writeHeader status hdr → P hdr

/-- What a downstream call does to the response header, apart from handshakes. -/
def DownCall.change : DownCall → Header → Header
  | .setHeader change, hdr => change hdr
  | _, hdr => hdr

/-- Whatever answers the downstream handler gets, what it does to a response header keeps `P`. -/
def SetsOnly (P : Header → Prop) : Down → Prop
  | .ret _ => True
  | .call c next => (∀ hdr, P hdr → P (c.change hdr)) ∧ ∀ answer, SetsOnly P (next answer)

/-- The header map that the handler is given and those that the downstream handler leaves have
canonical keys. -/
structure Exchange.CanonicalKeys (x : Exchange) : Prop where
  outer : Canonical x.outer
  sets : ∀ r, SetsOnly Canonical (x.next r)

theorem headerSetter_sets {P : Header → Prop} {name value : GoString} {next : Down}
    (keeps : ∀ hdr, P hdr → P (hdr.set name value)) (rest : SetsOnly P next) :
    SetsOnly P (headerSetter name value next) :=
  ⟨keeps, fun _ => rest⟩

theorem carries_other {P : Header → Prop} {c : Call}
    (other : ∀ status hdr, c ≠ .writeHeader status hdr) : Carries P c :=
  fun status hdr same => absurd same (other status hdr)

theorem Staging.carries {P : Header → Prop} {c : Call} (staging : Staging c) : Carries P c := by
  rintro status hdr rfl
  exact staging.elim

theorem Sessional.carries {P : Header → Prop} {c : Call} (sessional : Sessional c) :
    Carries P c := by
  rintro status hdr rfl
  exact sessional.elim

section Rules

variable {α : Type} {P : Header → Prop} {post : α → History → Prop} {past : History} {p : Act α}

theorem staging_carries (obeys : Obeys (fun _ => Staging) post p past) :
    Obeys (fun _ => Carries P) post p past :=
  obeys.mono (fun _ _ => Staging.carries) fun _ _ done => done

namespace Writer

variable {w : Writer}

theorem writeHeader_carries (status : Int) (holds : P w.header) :
    Obeys (fun _ => Carries P) (fun w' _ => P w'.header) (w.writeHeader status) past := by
  unfold writeHeader
  split_ifs with closed
  · exact holds
  · refine obeys_act (fun status' hdr same => ?_) fun _ _ => holds
    cases same
    exact holds

theorem write_carries (p : List UInt8) (holds : P w.header) :
    Obeys (fun _ => Carries P) (fun result _ => P result.2.header) (w.write p) past := by
  unfold write
  split_ifs with hijacked
  · exact holds
  · refine Prog.Wp.bind ((writeHeader_carries 200 holds).weaken fun w' past' still => ?_)
    exact obeys_act (carries_other fun _ _ h => by cases h) fun _ _ => still

theorem flush_carries (holds : P w.header) :
    Obeys (fun _ => Carries P) (fun result _ => P result.2.header) w.flush past := by
  refine Prog.Wp.bind ((writeHeader_carries 200 holds).weaken fun w' past' still => ?_)
  exact obeys_act (carries_other fun _ _ h => by cases h) fun _ _ => still

end Writer

end Rules

namespace Interceptor

variable {h : Handler} {conn : Conn} {ic : Interceptor} {past : History}

/-- Every header map that the interceptor holds has canonical keys. -/
structure CanonicalKeys (ic : Interceptor) : Prop where
  outer : Canonical ic.w.header
  response : Canonical ic.responseHeader
  informational : ∀ info ∈ ic.informational, Canonical info.header

theorem Edits.canonicalKeys {ic' : Interceptor} (edits : Edits ic ic') (keys : ic.CanonicalKeys) :
    ic'.CanonicalKeys := by
  have response := edits.canonical keys.response
  obtain ⟨_, _, _, rfl⟩ := edits.frame
  exact ⟨keys.outer, response, keys.informational⟩

theorem CanonicalKeys.discarded (keys : ic.CanonicalKeys) :
    (ic.discardBackendMetadata h).CanonicalKeys := by
  unfold discardBackendMetadata
  split_ifs
  · exact keys
  · refine ⟨keys.outer, ?_, keys.informational⟩
    dsimp only
    exact keys.response.discarded h

theorem writeHeader_canonical (keys : ic.CanonicalKeys) (status : Int) :
    Obeys (fun _ => Carries Canonical) (fun result _ => result.2.CanonicalKeys)
      (ic.writeHeader status) past := by
  unfold writeHeader
  split_ifs with wrote invalid informational many
  · exact keys
  · exact keys
  · exact obeys_trip (carries_other fun _ _ h => by cases h)
      ⟨keys.outer, keys.response, keys.informational⟩
  · refine Prog.Wp.bind ((staging_carries (ic.reserveMetadataBytes_obeys _)).weaken ?_)
    rintro ⟨result, ic'⟩ past' ⟨-, body, metadataBytes, rfl⟩
    cases result with
    | some e => exact ⟨keys.outer, keys.response, keys.informational⟩
    | none =>
        refine ⟨keys.outer, keys.response, fun info member => ?_⟩
        obtain earlier | new := List.mem_append.mp member
        · exact keys.informational info earlier
        · rw [List.mem_singleton.mp new]
          exact keys.response
  · exact ⟨keys.outer, keys.response, keys.informational⟩

theorem write_canonical (keys : ic.CanonicalKeys) (p : List UInt8) :
    Obeys (fun _ => Carries Canonical) (fun result _ => result.2.CanonicalKeys) (ic.write p)
      past := by
  unfold write
  split_ifs with terminal
  · refine Prog.Wp.bind ((Writer.write_carries p keys.outer).weaken fun result past' outer => ?_)
    exact ⟨outer, keys.response, keys.informational⟩
  · refine Prog.Wp.bind ((writeHeader_canonical keys 200).weaken ?_)
    rintro ⟨started, ic₁⟩ past₁ keys₁
    dsimp only
    split_ifs with refused
    · exact keys₁
    · refine Prog.Wp.bind ((staging_carries (ic₁.body.write_obeys p)).weaken ?_)
      rintro ⟨⟨n, err⟩, body⟩ past₂ -
      cases err with
      | none => exact ⟨keys₁.outer, keys₁.response, keys₁.informational⟩
      | some e => exact ⟨keys₁.outer, keys₁.response, keys₁.informational⟩

theorem commitInformational_canonical (infos : List StagedInformationalResponse) (w : Writer)
    (informational : ∀ info ∈ infos, Canonical info.header) (outer : Canonical w.header) :
    Obeys (fun _ => Carries Canonical) (fun w' _ => Canonical w'.header)
      (commitInformational h infos w) past := by
  induction infos generalizing w past with
  | nil => exact outer
  | cons info rest ih =>
      have copied := outer.copyHeaders ((informational info List.mem_cons_self).scrubManaged h)
      rw [commitInformational]
      refine Prog.Wp.bind ((Writer.writeHeader_carries _ ?_).weaken fun w' past' outer' => ?_)
      · dsimp only
        exact copied
      · exact ih w' (fun info member => informational info (List.mem_cons_of_mem _ member)) outer'

theorem commitHandshake_canonical (keys : ic.CanonicalKeys) :
    Obeys (fun _ => Carries Canonical) (fun ic' _ => ic'.CanonicalKeys) (ic.commitHandshake h)
      past := by
  have discarded := keys.discarded (h := h)
  unfold commitHandshake
  dsimp only
  refine Prog.Wp.bind ((commitInformational_canonical _ _ discarded.informational
    discarded.outer).weaken fun w₁ past₁ outer₁ => ?_)
  have copied := outer₁.copyHeaders discarded.response
  have released : ∀ {w : Writer} {past' : History}, Canonical w.header →
      Obeys (fun _ => Carries Canonical) (fun ic' _ => ic'.CanonicalKeys)
        (releaseTerminalStaging { ic.discardBackendMetadata h with w, terminal := true }) past' := by
    intro w past' outer
    refine Prog.Wp.bind ((staging_carries (StagedBody.reset_obeys _)).weaken fun body past'' _ => ?_)
    exact ⟨outer, discarded.response.delAll _, fun info member => by cases member⟩
  split_ifs with wrote
  · refine Prog.Wp.bind ((Writer.writeHeader_carries _ ?_).weaken fun w₂ past₂ outer₂ => ?_)
    · exact copied
    · exact released outer₂
  · rw [Prog.pure_eq, Prog.ret_bind]
    exact released copied

theorem flushError_canonical (keys : ic.CanonicalKeys) :
    Obeys (fun _ => Carries Canonical) (fun result _ => result.2.CanonicalKeys)
      (ic.flushError h conn) past := by
  unfold flushError
  split_ifs with plain terminal failed
  · exact keys
  · refine Prog.Wp.bind ((Writer.flush_carries keys.outer).weaken fun result past' outer => ?_)
    exact ⟨outer, keys.response, keys.informational⟩
  · exact keys
  refine Prog.Wp.bind ((staging_carries ic.reserveFinalMetadata_obeys).weaken ?_)
  rintro ⟨reserved, ic₁⟩ past₁ ⟨-, body, metadataBytes, final, rfl⟩
  have keys₁ : (ic.reserving body metadataBytes final).CanonicalKeys :=
    ⟨keys.outer, keys.response, keys.informational⟩
  cases reserved with
  | some e => exact ⟨keys.outer, keys.response, keys.informational⟩
  | none =>
      dsimp only
      split_ifs with staged
      · exact keys₁
      · refine Prog.Wp.bind ((writeHeader_canonical keys₁ 200).weaken ?_)
        rintro ⟨started, ic₂⟩ past₂ keys₂
        refine Prog.Wp.bind ((commitHandshake_canonical keys₂).weaken fun ic₃ past₃ keys₃ => ?_)
        refine Prog.Wp.bind ((Writer.flush_carries keys₃.outer).weaken fun result past₄ outer => ?_)
        exact ⟨outer, keys₃.response, keys₃.informational⟩

theorem hijack_canonical (keys : ic.CanonicalKeys) :
    Obeys (fun _ => Carries Canonical) (fun result _ => result.2.CanonicalKeys)
      (ic.hijack h conn) past := by
  unfold hijack
  split_ifs with plain failed
  · exact keys
  · exact keys
  refine Prog.Wp.bind ((staging_carries ic.reserveFinalMetadata_obeys).weaken ?_)
  rintro ⟨reserved, ic₁⟩ past₁ ⟨-, body, metadataBytes, final, rfl⟩
  have keys₁ : (ic.reserving body metadataBytes final).CanonicalKeys :=
    ⟨keys.outer, keys.response, keys.informational⟩
  cases reserved with
  | some e => exact ⟨keys.outer, keys.response, keys.informational⟩
  | none =>
      dsimp only
      split_ifs with staged
      · exact keys₁
      · refine Prog.Wp.bind ((commitHandshake_canonical keys₁).weaken fun ic₂ past₂ keys₂ => ?_)
        refine obeys_act (carries_other fun _ _ h => by cases h) fun err _ => ?_
        cases err with
        | none => exact ⟨keys₂.outer, keys₂.response, keys₂.informational⟩
        | some e => exact keys₂

theorem ensureProcessed_canonical (keys : ic.CanonicalKeys) :
    Obeys (fun _ => Carries Canonical) (fun ic' _ => ic'.CanonicalKeys) (ic.ensureProcessed h)
      past := by
  have started : CanonicalKeys { ic with processed := true } :=
    ⟨keys.outer, keys.response, keys.informational⟩
  unfold ensureProcessed
  split_ifs with processed
  · exact keys
  · refine Prog.Wp.bind ((Prog.Wp.mono (process_sessional { ic with processed := true })
      (fun _ _ => Sessional.carries) fun _ _ done => done).weaken ?_)
    rintro ⟨result, ic'⟩ past' edits
    have keys' := edits.canonicalKeys started
    cases result with
    | ok done => exact obeys_act (carries_other fun _ _ h => by cases h) fun _ _ => keys'
    | error e =>
        refine obeys_act (carries_other fun _ _ h => by cases h) fun _ _ => ?_
        have dropped := keys'.response.delAll (setCookieName :: h.managedHeaders)
        dsimp only
        split_ifs
        · exact ⟨keys'.outer, dropped, keys'.informational⟩
        · exact ⟨keys'.outer, dropped, keys'.informational⟩

end Interceptor

namespace Handler

open Interceptor

variable {h : Handler} {conn : Conn} {ic : Interceptor} {past : History}

theorem serveCall_canonical {c : DownCall} (keys : ic.CanonicalKeys) (r : Incoming)
    (sets : ∀ hdr, Canonical hdr → Canonical (c.change hdr)) :
    Obeys (fun _ => Carries Canonical) (fun result _ => result.2.1.CanonicalKeys)
      (serveCall h conn c ic r) past := by
  cases c with
  | setHeader change => exact ⟨keys.outer, sets _ keys.response, keys.informational⟩
  | writeHeader status =>
      exact Prog.Wp.bind ((writeHeader_canonical keys status).weaken fun _ _ done => done)
  | write p => exact Prog.Wp.bind ((write_canonical keys p).weaken fun _ _ done => done)
  | flushError => exact Prog.Wp.bind ((flushError_canonical keys).weaken fun _ _ done => done)
  | hijack => exact Prog.Wp.bind ((hijack_canonical keys).weaken fun _ _ done => done)
  | header | trailer | readBody | closeBody => exact keys

theorem runNext_canonical {next : Down} (keys : ic.CanonicalKeys) (r : Incoming)
    (sets : SetsOnly Canonical next) :
    Obeys (fun _ => Carries Canonical) (fun result _ => result.2.CanonicalKeys)
      (runNext h conn next ic r) past := by
  induction next generalizing ic r past with
  | ret err => exact keys
  | call c next ih =>
      rw [runNext]
      refine Prog.Wp.bind ((serveCall_canonical keys r sets.1).weaken ?_)
      rintro ⟨answer, ic', r'⟩ past' keys'
      cases answer with
      | error p => exact keys'
      | ok answer => exact ih answer keys' r' (sets.2 answer)

theorem rollBack_canonical (keys : ic.CanonicalKeys) :
    Obeys (fun _ => Carries Canonical) (fun ic' _ => Canonical ic'.w.header) (rollBack h ic)
      past := by
  refine (staging_carries (rollBack_obeys ic)).weaken fun ic' past' spec => ?_
  rw [spec.2]
  exact keys.outer.delAll _

theorem refuse_canonical (keys : ic.CanonicalKeys) :
    Obeys (fun _ => Carries Canonical) (fun ic' _ => Canonical ic'.w.header) (refuse h ic)
      past := by
  refine Prog.Wp.bind ((rollBack_canonical keys).weaken fun ic₁ past₁ outer => ?_)
  exact Prog.Wp.bind ((Writer.writeHeader_carries 502 outer).weaken fun _ _ outer => outer)

theorem copyFile_carries {P : Header → Prop} {b : StagedBody} {f : SpoolFile} {w : Writer}
    (holds : P w.header) :
    Obeys (fun _ => Carries P) (fun result _ => P result.2.2.header) (b.copyFile f w) past := by
  refine obeys_act (carries_other fun _ _ h => by cases h) fun copied _ => ?_
  obtain ⟨n, readErr⟩ := copied
  dsimp only
  split_ifs with empty
  · exact holds
  · exact Prog.Wp.bind ((Writer.write_carries _ holds).weaken fun _ _ still => still)

theorem flushTo_carries {P : Header → Prop} {b : StagedBody} {w : Writer} (holds : P w.header) :
    Obeys (fun _ => Carries P) (fun result _ => P result.2.2.header) (b.flushTo w) past := by
  unfold StagedBody.flushTo
  cases b.file with
  | none => exact Prog.Wp.bind ((Writer.write_carries _ holds).weaken fun _ _ still => still)
  | some f =>
      refine Prog.Wp.bind ((staging_carries b.validate_obeys).weaken ?_)
      rintro ⟨invalid, b₁⟩ past₁ -
      cases invalid with
      | some e => exact holds
      | none =>
          dsimp only
          cases b₁.file with
          | none => exact holds
          | some f => exact copyFile_carries holds

theorem emit_canonical (keys : ic.CanonicalKeys) :
    Obeys (fun _ => Carries Canonical) (fun result _ => Canonical result.2.w.header) (emit h ic)
      past := by
  unfold emit
  refine Prog.Wp.bind ((commitInformational_canonical _ _ keys.informational keys.outer).weaken
    fun w₁ past₁ outer₁ => ?_)
  have copied := outer₁.copyHeaders keys.response
  dsimp only
  split_ifs with unwritten filled
  · exact copied
  · refine Prog.Wp.bind ((Writer.writeHeader_carries _ ?_).weaken fun w₂ past₂ outer₂ => ?_)
    · exact copied
    · exact Prog.Wp.bind ((flushTo_carries outer₂).weaken fun _ _ outer₃ => outer₃)
  · refine Prog.Wp.bind ((Writer.writeHeader_carries _ ?_).weaken fun w₂ past₂ outer₂ => ?_)
    · exact copied
    · exact outer₂

theorem settle_canonical (keys : ic.CanonicalKeys) :
    Obeys (fun _ => Carries Canonical) (fun result _ => Canonical result.2.w.header) (settle h ic)
      past := by
  refine Prog.Wp.bind ((ensureProcessed_canonical keys).weaken fun ic' past' keys' => ?_)
  split_ifs with failed
  · exact Prog.Wp.bind ((refuse_canonical keys').weaken fun _ _ outer => outer)
  · exact emit_canonical keys'

theorem conclude_canonical (keys : ic.CanonicalKeys) (err : Option Err) :
    Obeys (fun _ => Carries Canonical) (fun result _ => Canonical result.2.w.header)
      (conclude h ic err) past := by
  have refused : ∀ {ic : Interceptor} {past : History}, ic.CanonicalKeys →
      Obeys (fun _ => Carries Canonical)
        (fun (result : Option Err × Interceptor) _ => Canonical result.2.w.header)
        (do return (none, ← refuse h ic)) past := fun keys =>
    Prog.Wp.bind ((refuse_canonical keys).weaken fun _ _ outer => outer)
  unfold conclude
  split_ifs with failed
  · exact refused keys
  · cases err with
    | some e => exact Prog.Wp.bind ((rollBack_canonical keys).weaken fun _ _ outer => outer)
    | none =>
        refine Prog.Wp.bind ((staging_carries ic.reserveFinalMetadata_obeys).weaken ?_)
        rintro ⟨reserved, ic₁⟩ past₁ ⟨-, body, metadataBytes, final, rfl⟩
        cases reserved with
        | some e => exact refused ⟨keys.outer, keys.response, keys.informational⟩
        | none =>
            dsimp only
            split_ifs with terminal
            · exact keys.outer
            · refine Prog.Wp.bind ((staging_carries (StagedBody.validate_obeys _)).weaken ?_)
              rintro ⟨invalid, body'⟩ past₂ -
              cases invalid with
              | some e => exact refused ⟨keys.outer, keys.response, keys.informational⟩
              | none => exact settle_canonical ⟨keys.outer, keys.response, keys.informational⟩

theorem forward_canonical {w : Writer} {r : Request} {p : Presented} {next : Request → Down}
    (outer : Canonical w.header) (sets : ∀ r, SetsOnly Canonical (next r)) :
    Obeys (fun _ => Carries Canonical) (fun result _ => Canonical result.2.header)
      (h.forward conn w r p next) past := by
  have closing : ∀ {ic : Interceptor} {past : History} {ended : Ended}, Canonical ic.w.header →
      Obeys (fun _ => Carries Canonical)
        (fun (result : Ended × Writer) _ => Canonical result.2.header)
        (do let _ ← ic.body.close; return (ended, ic.w)) past := fun outer =>
    Prog.Wp.bind ((staging_carries (StagedBody.close_obeys _)).weaken fun _ _ _ => outer)
  refine obeys_act (carries_other fun _ _ h => by cases h) fun _ _ => ?_
  refine Prog.Wp.bind ((runNext_canonical ⟨outer, outer, fun info member => by cases member⟩ _
    (sets _)).weaken ?_)
  rintro ⟨ended, ic⟩ past₁ keys
  cases ended with
  | panicked panic => exact closing keys.outer
  | returned err =>
      refine obeys_act (carries_other fun _ _ h => by cases h) fun _ _ => ?_
      refine Prog.Wp.bind ((conclude_canonical keys err).weaken ?_)
      rintro ⟨err', ic'⟩ past₂ outer'
      exact closing outer'

end Handler

namespace Exchange

variable {x : Exchange}

theorem denyAuthz_canonical (keys : x.CanonicalKeys) (a : Authz) (required : GoString)
    {past : History} :
    Obeys (fun _ => Carries Canonical) (fun w _ => Canonical w.header)
      (Handler.denyAuthz a { header := x.outer } x.stripped required) past := by
  unfold Handler.denyAuthz
  dsimp only
  by_cases html : contains (x.stripped.header.get (lit "Accept")) (lit "text/html") = true
  · rw [if_pos html]
    apply Writer.writeHeader_carries
    exact keys.outer.set _ _
  · rw [if_neg html]
    apply Writer.writeHeader_carries
    exact keys.outer.set _ _

theorem serveHTTP_canonical (keys : x.CanonicalKeys) :
    Obeys (fun _ => Carries Canonical) (fun result _ => Canonical result.2.header)
      (x.handler.serveHTTP x.conn { header := x.outer } x.request x.next) [] := by
  refine Prog.Wp.bind ((x.resolvePresented_obeys.mono (fun _ _ allowed => allowed.1.1.carries)
    fun _ _ done => done).weaken fun result past _ => ?_)
  cases result with
  | error e => exact keys.outer
  | ok p =>
      dsimp only
      cases x.handler.authz with
      | none => exact Handler.forward_canonical keys.outer keys.sets
      | some a =>
          dsimp only
          cases Handler.lacking a (x.handler.stripSpoofed x.request) p.live with
          | none => exact Handler.forward_canonical keys.outer keys.sets
          | some required =>
              exact Prog.Wp.bind ((denyAuthz_canonical keys a required).weaken
                fun _ _ outer => outer)

theorem prog_canonical (keys : x.CanonicalKeys) :
    Obeys (fun _ => Carries Canonical) (fun _ _ => True) x.prog [] := by
  refine Prog.Wp.bind ((serveHTTP_canonical keys).weaken ?_)
  rintro ⟨ended, w⟩ past outer
  cases ended with
  | panicked p => trivial
  | returned err =>
      cases err with
      | some e => trivial
      | none => exact Prog.Wp.bind ((Writer.writeHeader_carries 200 outer).weaken fun _ _ _ => trivial)

theorem CanonicalKeys.blocks (keys : x.CanonicalKeys) {result : Ended × Writer} {past : History}
    (run : Prog.Run History.step x.prog [] result past) {status : Int} {hdr : Header}
    (sent : (⟨.writeHeader status hdr, ()⟩ : Deed) ∈ past) : Canonical hdr := by
  obtain ⟨-, new, rfl, only⟩ := (obeys_new (prog_canonical keys)).run run
  rw [List.append_nil] at sent
  exact only _ sent status hdr rfl

end Exchange

end Gosestor
