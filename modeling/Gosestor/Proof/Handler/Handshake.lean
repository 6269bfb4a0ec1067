import Gosestor.Proof.Handler.Commits
import Gosestor.Proof.Handler.Dealings

/-!
# Handshakes

What a committed handshake copies to the connection, for every pattern of downstream calls. Backend
metadata is discarded once, but a takeover that failed can be tried again with a new header: the
second handshake is scrubbed exactly if the downstream handler put nothing managed into it.
-/

namespace Gosestor

open Gosestor.Go Gosestor.Lib Gosestor.Session

/-- Nothing is left of what the handler manages, whatever the spelling of a name. -/
structure Scrubbed (h : Handler) (hdr : Header) : Prop where
  fields : ∀ name ∈ setCookieName :: h.managedHeaders, hdr.received name = []
  declared : ∀ declaration ∈ hdr.received trailerName,
    ∀ name ∈ (split declaration 44).map trimSpace,
      canonicalHeaderKey name ∉ (setCookieName :: h.managedHeaders).map canonicalHeaderKey
  prefixed : ∀ key name, GoMap.get hdr key ≠ none → prefixedTrailer key = some name →
    canonicalHeaderKey name ∉ (setCookieName :: h.managedHeaders).map canonicalHeaderKey

/-- The same, as the methods of `http.Header` read the map. -/
structure Unmanaged (h : Handler) (hdr : Header) : Prop where
  fields : ∀ name ∈ setCookieName :: h.managedHeaders, hdr.values name = []
  trailers : NoTrailers ((setCookieName :: h.managedHeaders).map canonicalHeaderKey) hdr

section Headers

variable {h : Handler} {hdr : Header}

theorem scrubbed_iff (canonical : Canonical hdr) : Scrubbed h hdr ↔ Unmanaged h hdr := by
  constructor
  · rintro ⟨fields, declared, prefixed⟩
    simp only [canonical.received] at fields declared
    refine ⟨fields, fun name member => ?_, prefixed⟩
    obtain ⟨declaration, line, named⟩ := List.mem_flatMap.mp member
    exact declared declaration line name named
  · rintro ⟨fields, trailers⟩
    refine ⟨?_, ?_, trailers.prefixed⟩
    · simpa only [canonical.received] using fields
    · simp only [canonical.received]
      exact fun declaration line name named =>
        trailers.declared name (List.mem_flatMap.mpr ⟨declaration, line, named⟩)

theorem Unmanaged.copy (unmanaged : Unmanaged h hdr) (dst : Header) :
    Unmanaged h (copyHeaders dst hdr) where
  fields := fun name managed => (values_copyHeaders dst hdr name).trans (unmanaged.fields name managed)
  trailers := unmanaged.trailers.copy dst

theorem unmanaged_clearHeaders (hdr : Header) : Unmanaged h (clearHeaders hdr) :=
  ⟨fun name _ => values_clearHeaders hdr name, noTrailers_clearHeaders hdr⟩

theorem NoTrailers.delAll {managed : List GoString} (clean : NoTrailers managed hdr)
    (names : List GoString) : NoTrailers managed (hdr.delAll names) where
  declared := by
    intro name declared
    rw [declaredTrailers, Header.values, Header.get_delAll] at declared
    split_ifs at declared
    · cases declared
    · exact clean.declared name declared
  prefixed := by
    intro key name held named
    rw [Header.get_delAll] at held
    split_ifs at held
    · exact absurd rfl held
    · exact clean.prefixed key name held named

theorem unmanaged_scrubManaged (hdr : Header) :
    Unmanaged h (h.scrubManagedResponseHeader hdr) where
  fields := by
    intro name managed
    rw [Handler.scrubManagedResponseHeader, Header.values, dropManaged_get,
      if_pos (List.mem_map_of_mem managed)]
    rfl
  trailers := (strip_noTrailers hdr (setCookieName :: h.managedHeaders)).delAll _

theorem get_strip_none {names : List GoString} {key : GoString} (gone : GoMap.get hdr key = none) :
    GoMap.get (stripManagedTrailerDeclarations hdr names) key = none := by
  have declarations : GoMap.get (withoutDeclarations hdr names) key = none := by
    by_cases trailer : key = trailerName
    · subst trailer
      have none : declaredTrailers hdr = [] := by
        rw [declaredTrailers, Header.values, trailerName_canonical, gone]
        rfl
      simp [withoutDeclarations, none, Header.get_del, trailerName_canonical]
    · rw [get_withoutDeclarations _ _ trailer, gone, ite_self]
  rw [strip_eq, Header.get_delAll, declarations, ite_self]

theorem unmanaged_discarded (hdr : Header) :
    Unmanaged h (h.scrubTrailers (h.dropManaged hdr)) where
  fields := by
    intro name managed
    rw [Handler.scrubTrailers, Header.values, get_strip_none]
    · rfl
    · rw [dropManaged_get, if_pos (List.mem_map_of_mem managed)]
  trailers := strip_noTrailers _ (setCookieName :: h.managedHeaders)

end Headers

/-- A call on the connection or the staging area; a header block that it sends meets `P`. -/
def Carrying (P : Header → Prop) (c : Call) : Prop := Wire c ∧ Carries P c

def Copies (blocks : List Header) (hdr : Header) : Prop :=
  ∃ block ∈ blocks, ∃ dst, hdr = copyHeaders dst block

theorem Carrying.mono {P Q : Header → Prop} {c : Call} (carrying : Carrying P c)
    (imp : ∀ hdr, P hdr → Q hdr) : Carrying Q c :=
  ⟨carrying.1, fun status hdr same => imp hdr (carrying.2 status hdr same)⟩

theorem Carrying.quiet {P : Header → Prop} {c : Call} (carrying : Carrying P c) :
    Carries P c ∧ ∀ sc, c ≠ .store sc := by
  refine ⟨carrying.2, ?_⟩
  rintro sc rfl
  exact carrying.1.elim id id

theorem Staging.carrying {P : Header → Prop} {c : Call} (staging : Staging c) : Carrying P c :=
  ⟨.inl staging, staging.carries⟩

theorem carrying_bare {P : Header → Prop} {c : Call} (client : Client c)
    (bare : ∀ status hdr, c ≠ .writeHeader status hdr) : Carrying P c :=
  ⟨.inr client, carries_other bare⟩

theorem carrying_flush {P : Header → Prop} : Carrying P .flush :=
  carrying_bare trivial fun _ _ same => by cases same

theorem carrying_hijack {P : Header → Prop} : Carrying P .hijack :=
  carrying_bare trivial fun _ _ same => by cases same

section Rules

variable {past : History} {P : Header → Prop}

theorem obeys_carrying {α : Type} {p : Act α} {post : α → History → Prop}
    (obeys : Obeys (fun _ => Staging) post p past) : Obeys (fun _ => Carrying P) post p past :=
  obeys.mono (fun _ _ => Staging.carrying) fun _ _ h => h

theorem Carrying.wired {α : Type} {p : Act α} {post : α → History → Prop}
    (obeys : Obeys (fun _ => Carrying P) post p past) : Obeys (fun _ => Wire) post p past :=
  obeys.mono (fun _ _ carrying => carrying.1) fun _ _ h => h

theorem obeys_wired {α : Type} {p : Act α} {post post' : α → History → Prop}
    (first : Obeys (fun _ => Staging) post p past) (second : Obeys (fun _ => Staging) post' p past) :
    Obeys (fun _ => Wire) (fun a past' => post a past' ∧ post' a past') p past :=
  (first.and second).mono (fun _ _ staging => .inl staging.1) fun _ _ done => done

namespace Writer

variable {w : Writer}

theorem writeHeader_carrying (status : Int) (holds : P w.header) :
    Obeys (fun _ => Carrying P) (fun w' _ => P w'.header) (w.writeHeader status) past :=
  ((w.writeHeader_client status).and (writeHeader_carries status holds)).mono
    (fun _ _ may => ⟨.inr may.1, may.2⟩) fun _ _ done => done.2

theorem write_carrying (p : List UInt8) (holds : P w.header) :
    Obeys (fun _ => Carrying P) (fun result _ => P result.2.header) (w.write p) past := by
  unfold write
  split_ifs with hijacked
  · exact holds
  · refine Prog.Wp.bind ((writeHeader_carrying 200 holds).weaken fun w' past' still => ?_)
    exact obeys_act (carrying_bare trivial fun _ _ same => by cases same) fun _ _ => still

theorem flush_carrying (holds : P w.header) :
    Obeys (fun _ => Carrying P)
      (fun result past' => P result.2.header ∧ ∃ err new,
        past' = ⟨.flush, err⟩ :: (new ++ past) ∧ Only (Carrying P) new)
      w.flush past := by
  refine Prog.Wp.bind ((obeys_new (writeHeader_carrying 200 holds)).weaken fun w' past' spec => ?_)
  obtain ⟨still, new, rfl, only⟩ := spec
  exact obeys_act carrying_flush fun err _ => ⟨still, err, new, rfl, only⟩

end Writer

end Rules

namespace Interceptor

variable {h : Handler} {conn : Conn} {past : History}

/-- The header blocks that a handshake copies to the connection, the final one last. -/
def handshakeBlocks (h : Handler) (ic : Interceptor) : List Header :=
  ic.informational.map (fun info => h.scrubManagedResponseHeader info.header) ++
    [(ic.discardBackendMetadata h).responseHeader]

theorem final_mem_handshakeBlocks (ic : Interceptor) :
    (ic.discardBackendMetadata h).responseHeader ∈ handshakeBlocks h ic :=
  List.mem_append_right _ List.mem_cons_self

theorem discardBackendMetadata_congr {ic ic' : Interceptor} (processed : ic'.processed = ic.processed)
    (header : ic'.responseHeader = ic.responseHeader) :
    (ic'.discardBackendMetadata h).responseHeader = (ic.discardBackendMetadata h).responseHeader := by
  unfold discardBackendMetadata
  rw [processed]
  split_ifs
  · exact header
  · dsimp only
    rw [header]

theorem discardBackendMetadata_processed (ic : Interceptor) :
    (ic.discardBackendMetadata h).processed = true := by
  unfold discardBackendMetadata
  split_ifs with processed
  · exact processed
  · rfl

theorem unmanaged_handshakeBlocks {ic : Interceptor}
    (already : ic.processed = true → Unmanaged h ic.responseHeader) :
    ∀ block ∈ handshakeBlocks h ic, Unmanaged h block := by
  intro block member
  obtain informational | final := List.mem_append.mp member
  · obtain ⟨info, -, rfl⟩ := List.mem_map.mp informational
    exact unmanaged_scrubManaged info.header
  · rw [List.mem_singleton.mp final]
    unfold discardBackendMetadata
    split_ifs with processed
    · exact already processed
    · dsimp only
      exact unmanaged_discarded ic.responseHeader

theorem canonical_handshakeBlocks {ic : Interceptor} (keys : ic.CanonicalKeys) :
    ∀ block ∈ handshakeBlocks h ic, Canonical block := by
  intro block member
  obtain informational | final := List.mem_append.mp member
  · obtain ⟨info, held, rfl⟩ := List.mem_map.mp informational
    exact (keys.informational info held).scrubManaged h
  · rw [List.mem_singleton.mp final]
    exact keys.discarded.response

theorem commitInformational_copies {blocks : List Header}
    (infos : List StagedInformationalResponse) (w : Writer)
    (members : ∀ info ∈ infos, h.scrubManagedResponseHeader info.header ∈ blocks) :
    Obeys (fun _ => Carrying (Copies blocks)) (fun _ _ => True) (commitInformational h infos w)
      past := by
  induction infos generalizing w past with
  | nil => trivial
  | cons info rest ih =>
      rw [commitInformational]
      refine Prog.Wp.bind ((Writer.writeHeader_carrying _ ?_).weaken fun w' past' _ => ?_)
      · dsimp only
        exact ⟨_, members info List.mem_cons_self, w.header, rfl⟩
      · exact ih w' fun info member => members info (List.mem_cons_of_mem _ member)

/-- The interceptor after a handshake from `ic`. -/
structure Handshaken (h : Handler) (ic ic' : Interceptor) : Prop where
  processed : ic'.processed = true
  terminal : ic'.terminal = true
  header : ∃ dst, ic'.w.header = copyHeaders dst (ic.discardBackendMetadata h).responseHeader
  response : ic'.responseHeader = clearHeaders (ic.discardBackendMetadata h).responseHeader

theorem Handshaken.copies {ic ic' : Interceptor} (handshaken : Handshaken h ic ic') :
    Copies (handshakeBlocks h ic) ic'.w.header := by
  obtain ⟨dst, same⟩ := handshaken.header
  exact ⟨_, final_mem_handshakeBlocks ic, dst, same⟩

theorem commitHandshake_copies (ic : Interceptor) :
    Obeys (fun _ => Carrying (Copies (handshakeBlocks h ic))) (fun ic' _ => Handshaken h ic ic')
      (ic.commitHandshake h) past := by
  have infos : (ic.discardBackendMetadata h).informational = ic.informational := by
    obtain ⟨_, _, same⟩ := discardBackendMetadata_frame (h := h) ic
    rw [same]
  have released : ∀ {w : Writer} {past' : History},
      (∃ dst, w.header = copyHeaders dst (ic.discardBackendMetadata h).responseHeader) →
      Obeys (fun _ => Carrying (Copies (handshakeBlocks h ic))) (fun ic' _ => Handshaken h ic ic')
        (releaseTerminalStaging { ic.discardBackendMetadata h with w, terminal := true }) past' :=
    fun header => Prog.Wp.bind ((obeys_carrying (StagedBody.reset_obeys _)).weaken
      fun _ _ _ => ⟨discardBackendMetadata_processed ic, rfl, header, rfl⟩)
  unfold commitHandshake
  refine Prog.Wp.bind ((commitInformational_copies _ _ fun info member => ?_).weaken
    fun w₁ past₁ _ => ?_)
  · rw [infos] at member
    exact List.mem_append_left _ (List.mem_map_of_mem member)
  dsimp only
  split_ifs with wrote
  · refine Prog.Wp.bind (((Writer.writeHeader_carrying (P := fun hdr => ∃ dst,
      hdr = copyHeaders dst (ic.discardBackendMetadata h).responseHeader) _ ?_).mono
      (fun _ _ carrying => ?_) fun _ _ copied => copied).weaken fun w₂ past₂ copied => ?_)
    · exact ⟨w₁.header, rfl⟩
    · refine carrying.mono ?_
      rintro hdr ⟨dst, rfl⟩
      exact ⟨_, final_mem_handshakeBlocks ic, dst, rfl⟩
    · exact released copied
  · rw [Prog.pure_eq, Prog.ret_bind]
    exact released ⟨w₁.header, rfl⟩

theorem writeHeader_response (ic : Interceptor) (status : Int) :
    Obeys (fun _ => Staging) (fun result _ => result.2.responseHeader = ic.responseHeader)
      (ic.writeHeader status) past := by
  unfold writeHeader
  split_ifs with wrote invalid informational many
  · rfl
  · rfl
  · exact obeys_trip trivial rfl
  · refine Prog.Wp.bind ((ic.reserveMetadataBytes_obeys _).weaken ?_)
    rintro ⟨result, ic'⟩ past' ⟨-, body, metadataBytes, rfl⟩
    cases result with
    | some e => rfl
    | none => rfl
  · rfl

theorem write_response {ic : Interceptor} (ordinary : ic.terminal = false) (p : List UInt8) :
    Obeys (fun _ => Staging) (fun result _ => result.2.responseHeader = ic.responseHeader)
      (ic.write p) past := by
  unfold write
  rw [if_neg (by simp [ordinary])]
  refine Prog.Wp.bind ((ic.writeHeader_response 200).weaken ?_)
  rintro ⟨started, ic₁⟩ past₁ same
  dsimp only
  split_ifs with refused
  · exact same
  · refine Prog.Wp.bind ((ic₁.body.write_obeys p).weaken ?_)
    rintro ⟨⟨n, err⟩, body⟩ past₂ -
    cases err with
    | none => exact same
    | some e => exact same

/-- `WriteHeader(200)` cannot fail and stages nothing. -/
def started (ic : Interceptor) : Interceptor :=
  { ic with wroteHeader := true, status := if ic.wroteHeader then ic.status else 200 }

theorem writeHeader_started_eq (ic : Interceptor) :
    ic.writeHeader 200 = .ret (.ok (), ic.started) := by
  unfold writeHeader started
  split_ifs with wrote invalid informational
  · rw [← wrote]
    rfl
  · simp at invalid
  · simp [Writer.informational] at informational
  · simp [Writer.informational] at informational
  · rfl

end Interceptor

/-- What a downstream call can come to. -/
inductive Dealing.Reach (h : Handler) (d : Dealing) : Prop
  | stages (only : Only Staging d.deeds) (kept : Interceptor.OnlyStaged d.before d.after)
      (response : d.after.responseHeader = d.call.change d.before.responseHeader)
  | relays (terminal : d.before.terminal = true)
      (call : d.call = .flushError ∨ ∃ p, d.call = .write p)
      (only : Only (Carrying (· = d.before.w.header)) d.deeds)
      (header : d.after.w.header = d.before.w.header)
      (processed : d.after.processed = d.before.processed) (stays : d.after.terminal = true)
      (response : d.after.responseHeader = d.before.responseHeader)
  | handshakes (commits : d.commits = true)
      (only : Only (Carrying (Copies (Interceptor.handshakeBlocks h d.before))) d.deeds)
      (handshaken : Interceptor.Handshaken h d.before d.after)

theorem Dealing.commits_of_staging {d : Dealing} (only : Only Staging d.deeds) :
    d.commits = false := by
  have silent : d.deeds.any Deed.isHandshake = false :=
    only.none fun c r staging => by cases c <;> first | rfl | exact staging.elim
  unfold commits
  split
  · exact silent
  · rw [silent, Bool.and_false]
  · rfl

theorem Dealing.commits_of_relayed {d : Dealing} (terminal : d.before.terminal = true)
    (call : d.call = .flushError ∨ ∃ p, d.call = .write p) : d.commits = false := by
  unfold commits
  obtain flushed | ⟨p, written⟩ := call
  · rw [flushed, terminal]
    rfl
  · rw [written]

namespace Interceptor

variable {h : Handler} {conn : Conn} {past : History}

theorem handshakeBlocks_reserving (ic : Interceptor) (body : StagedBody) (metadataBytes : Int)
    (final : Bool) :
    handshakeBlocks h (ic.reserving body metadataBytes final) = handshakeBlocks h ic := by
  have same : ((ic.reserving body metadataBytes final).discardBackendMetadata h).responseHeader =
      (ic.discardBackendMetadata h).responseHeader := discardBackendMetadata_congr rfl rfl
  rw [handshakeBlocks, same]
  rfl

theorem handshakeBlocks_started (ic : Interceptor) :
    handshakeBlocks h ic.started = handshakeBlocks h ic := by
  have same : (ic.started.discardBackendMetadata h).responseHeader =
      (ic.discardBackendMetadata h).responseHeader := discardBackendMetadata_congr rfl rfl
  rw [handshakeBlocks, same]
  rfl

theorem Handshaken.congr {ic ic₁ ic' : Interceptor} (handshaken : Handshaken h ic₁ ic')
    (processed : ic₁.processed = ic.processed) (header : ic₁.responseHeader = ic.responseHeader) :
    Handshaken h ic ic' :=
  { handshaken with
    header := by
      rw [← discardBackendMetadata_congr processed header]
      exact handshaken.header
    response := by
      rw [← discardBackendMetadata_congr processed header]
      exact handshaken.response }

theorem flushError_reach (ic : Interceptor) :
    Obeys (fun _ => Wire)
      (fun result past' => ∃ new, past' = new ++ past ∧
        Dealing.Reach h ⟨ic, .flushError, result.2, new⟩)
      (ic.flushError h conn) past := by
  unfold flushError
  split_ifs with plain terminal failed
  · exact ⟨[], rfl, .stages only_nil (.refl ic) rfl⟩
  · refine Prog.Wp.bind ((Carrying.wired (Writer.flush_carrying (P := (· = ic.w.header))
      rfl)).weaken ?_)
    rintro ⟨err, w⟩ past' ⟨same, err', new, rfl, only⟩
    exact ⟨_ :: new, rfl, .relays terminal (.inl rfl) (only.cons carrying_flush) same rfl terminal
      rfl⟩
  · exact ⟨[], rfl, .stages only_nil (.refl ic) rfl⟩
  refine Prog.Wp.bind ((obeys_wire (obeys_new ic.reserveFinalMetadata_obeys)).weaken
    fun reserved past₁ spec => ?_)
  obtain ⟨reserved, ic₁⟩ := reserved
  have staged := reserveFinal_staged spec
  obtain ⟨new₁, rfl, only₁⟩ := staged.new
  obtain ⟨⟨-, body, metadataBytes, final, rfl⟩, -⟩ := spec
  cases reserved with
  | some e => exact ⟨new₁, rfl, .stages only₁ staged.kept rfl⟩
  | none =>
      dsimp only
      split_ifs with held
      · exact ⟨new₁, rfl, .stages only₁ staged.kept rfl⟩
      · rw [writeHeader_started_eq, Prog.ret_bind]
        refine Prog.Wp.bind ((Carrying.wired (obeys_new (commitHandshake_copies _))).weaken
          fun ic₂ past₂ spec => ?_)
        obtain ⟨handshaken, new₂, rfl, only₂⟩ := spec
        rw [handshakeBlocks_started, handshakeBlocks_reserving] at only₂
        have handshaken : Handshaken h ic ic₂ := handshaken.congr rfl rfl
        obtain ⟨dst, copied⟩ := handshaken.header
        refine Prog.Wp.bind ((Carrying.wired (Writer.flush_carrying
          (P := (· = copyHeaders dst (ic.discardBackendMetadata h).responseHeader))
          copied)).weaken ?_)
        rintro ⟨err, w⟩ past₃ ⟨same, err', new₃, rfl, only₃⟩
        refine ⟨⟨.flush, err'⟩ :: (new₃ ++ (new₂ ++ new₁)), by simp, .handshakes ?_ ?_
          ⟨handshaken.processed, handshaken.terminal, ⟨dst, same⟩, handshaken.response⟩⟩
        · simp [Dealing.commits, eq_false_of_ne_true terminal, Deed.isHandshake]
        · refine .cons carrying_flush ((only₃.mono fun c carrying => carrying.mono ?_).append
            (only₂.append (only₁.mono fun _ => Staging.carrying)))
          rintro hdr rfl
          exact ⟨_, final_mem_handshakeBlocks ic, dst, rfl⟩

theorem hijack_reach (ic : Interceptor) :
    Obeys (fun _ => Wire)
      (fun result past' => ∃ new, past' = new ++ past ∧
        Dealing.Reach h ⟨ic, .hijack, result.2, new⟩)
      (ic.hijack h conn) past := by
  unfold hijack
  split_ifs with plain failed
  · exact ⟨[], rfl, .stages only_nil (.refl ic) rfl⟩
  · exact ⟨[], rfl, .stages only_nil (.refl ic) rfl⟩
  refine Prog.Wp.bind ((obeys_wire (obeys_new ic.reserveFinalMetadata_obeys)).weaken
    fun reserved past₁ spec => ?_)
  obtain ⟨reserved, ic₁⟩ := reserved
  have staged := reserveFinal_staged spec
  obtain ⟨new₁, rfl, only₁⟩ := staged.new
  obtain ⟨⟨-, body, metadataBytes, final, rfl⟩, -⟩ := spec
  cases reserved with
  | some e => exact ⟨new₁, rfl, .stages only₁ staged.kept rfl⟩
  | none =>
      dsimp only
      split_ifs with held
      · exact ⟨new₁, rfl, .stages only₁ staged.kept rfl⟩
      · refine Prog.Wp.bind ((Carrying.wired (obeys_new (commitHandshake_copies _))).weaken
          fun ic₂ past₂ spec => ?_)
        obtain ⟨handshaken, new₂, rfl, only₂⟩ := spec
        rw [handshakeBlocks_reserving] at only₂
        have handshaken : Handshaken h ic ic₂ := handshaken.congr rfl rfl
        refine obeys_act (.inr trivial) fun err _ => ?_
        refine ⟨⟨.hijack, err⟩ :: (new₂ ++ new₁), by simp, .handshakes ?_ ?_ ?_⟩
        · simp [Dealing.commits, Deed.isHandshake]
        · exact .cons carrying_hijack (only₂.append (only₁.mono fun _ => Staging.carrying))
        · cases err with
          | none =>
              exact ⟨handshaken.processed, handshaken.terminal, handshaken.header,
                handshaken.response⟩
          | some e => exact handshaken

end Interceptor

namespace Handler

open Interceptor

variable {h : Handler} {conn : Conn} {past : History}

theorem serveCall_reach (c : DownCall) (ic : Interceptor) (r : Incoming) :
    Obeys (fun _ => Wire)
      (fun result past' => ∃ new, past' = new ++ past ∧
        Dealing.Reach h ⟨ic, c, result.2.1, new⟩)
      (serveCall h conn c ic r) past := by
  have stages : ∀ {ic' : Interceptor} {past' : History}, Staged ic past ic' past' →
      ic'.responseHeader = c.change ic.responseHeader →
      ∃ new, past' = new ++ past ∧ Dealing.Reach h ⟨ic, c, ic', new⟩ := by
    intro ic' past' staged response
    obtain ⟨new, rfl, only⟩ := staged.new
    exact ⟨new, rfl, .stages only staged.kept response⟩
  cases c with
  | setHeader change =>
      exact ⟨[], rfl, .stages only_nil ⟨rfl, rfl, rfl, rfl, rfl, rfl, rfl, rfl, id, id, id⟩ rfl⟩
  | writeHeader status =>
      exact Prog.Wp.bind ((obeys_wired (ic.writeHeader_obeys status)
        (ic.writeHeader_response status)).weaken fun _ _ spec => stages spec.1 spec.2)
  | write p =>
      cases terminal : ic.terminal with
      | false =>
          exact Prog.Wp.bind ((obeys_wired (ic.write_staged terminal p)
            (write_response terminal p)).weaken fun _ _ spec => stages spec.1 spec.2)
      | true =>
          rw [serveCall, Interceptor.write, if_pos terminal, Prog.bind_bind]
          refine Prog.Wp.bind ((Carrying.wired (obeys_new (Writer.write_carrying
            (P := (· = ic.w.header)) p rfl))).weaken ?_)
          rintro ⟨result, w⟩ past' ⟨same, new, rfl, only⟩
          exact ⟨new, rfl, .relays terminal (.inr ⟨p, rfl⟩) only same rfl terminal rfl⟩
  | flushError => exact Prog.Wp.bind (ic.flushError_reach.weaken fun _ _ reach => reach)
  | hijack => exact Prog.Wp.bind (ic.hijack_reach.weaken fun _ _ reach => reach)
  | header | trailer | readBody | closeBody => exact ⟨[], rfl, .stages only_nil (.refl ic) rfl⟩

theorem reach_of_served {c : DownCall} {ic ic' : Interceptor} {r r' : Incoming} {new : History}
    {answer : Except Panic c.Answer}
    (served : Prog.Run History.step (serveCall h conn c ic r) past (answer, ic', r') (new ++ past)) :
    Dealing.Reach h ⟨ic, c, ic', new⟩ := by
  obtain ⟨new', same, reach⟩ := (serveCall_reach c ic r).run served
  rwa [List.append_cancel_right same]

end Handler

/-- What is known of the interceptor after the calls `front`, if all keys are canonical: metadata was
discarded exactly if a handshake was committed, and then the response header is what the downstream
handler has made since. -/
structure Tracked (front : List Dealing) (ic : Interceptor) : Prop where
  processed : ic.processed = ic.terminal
  keys : ic.CanonicalKeys
  made : sinceHandshake front = if ic.terminal then some ic.responseHeader else none

namespace Dealing.Reach

variable {h : Handler} {d : Dealing} {front : List Dealing}

theorem response_eq (reach : d.Reach h) (uncommitted : d.commits = false) :
    d.after.responseHeader = d.call.change d.before.responseHeader := by
  cases reach with
  | stages only kept response => exact response
  | relays terminal call only header processed stays response =>
      obtain flushed | ⟨p, written⟩ := call
      · rw [flushed]
        exact response
      · rw [written]
        exact response
  | handshakes commits only handshaken => cases commits.symm.trans uncommitted

theorem tracked (reach : d.Reach h) (tracked : Tracked front d.before)
    (keys : d.after.CanonicalKeys) : Tracked (front ++ [d]) d.after := by
  have goesOn : d.commits = false → d.after.terminal = d.before.terminal →
      sinceHandshake (front ++ [d]) =
        if d.after.terminal then some d.after.responseHeader else none := by
    intro uncommitted terminal
    rw [sinceHandshake_append, if_neg (by simp [uncommitted]), tracked.made, terminal,
      reach.response_eq uncommitted]
    split_ifs
    · rfl
    · rfl
  cases reach with
  | stages only kept =>
      exact ⟨by rw [kept.processed, kept.terminal, tracked.processed], keys,
        goesOn (commits_of_staging only) kept.terminal⟩
  | relays terminal call only header processed stays =>
      exact ⟨by rw [processed, tracked.processed, terminal, stays], keys,
        goesOn (commits_of_relayed terminal call) (stays.trans terminal.symm)⟩
  | handshakes commits only handshaken =>
      refine ⟨by rw [handshaken.processed, handshaken.terminal], keys, ?_⟩
      rw [sinceHandshake_append, if_pos commits, handshaken.terminal, if_pos rfl,
        handshaken.response, tracked.keys.discarded.response.clearHeaders]

/-- Let `P` be kept by copying. If it holds of the blocks of a handshake, it holds of all that the
call sends. -/
theorem carries {P : Header → Prop} (reach : d.Reach h)
    (copied : ∀ dst hdr, P hdr → P (copyHeaders dst hdr))
    (held : d.before.terminal = true → P d.before.w.header)
    (blocks : d.commits = true → ∀ block ∈ Interceptor.handshakeBlocks h d.before, P block) :
    Only (Carrying P) d.deeds ∧ (d.after.terminal = true → P d.after.w.header) := by
  cases reach with
  | stages only kept response =>
      refine ⟨only.mono fun _ => Staging.carrying, fun terminal => ?_⟩
      rw [kept.w]
      exact held (kept.terminal.symm.trans terminal)
  | relays terminal call only header processed stays response =>
      refine ⟨only.mono fun c carrying => carrying.mono ?_, fun _ => ?_⟩
      · rintro hdr rfl
        exact held terminal
      · rw [header]
        exact held terminal
  | handshakes commits only handshaken =>
      have copies : ∀ hdr, Copies (Interceptor.handshakeBlocks h d.before) hdr → P hdr := by
        rintro hdr ⟨block, member, dst, rfl⟩
        exact copied dst block (blocks commits block member)
      exact ⟨only.mono fun c carrying => carrying.mono copies,
        fun _ => copies _ handshaken.copies⟩

end Dealing.Reach

namespace Handler

open Interceptor

variable {h : Handler} {conn : Conn} {past : History}

section Dealt

variable {next : Except Panic Down} {ic ic' : Interceptor} {r : Incoming} {past' : History}
  {dealings : List Dealing} {ended : Ended}

theorem Dealt.carries (dealt : Dealt h conn next ic r past dealings ended ic' past')
    {P : Header → Prop} (copied : ∀ dst hdr, P hdr → P (copyHeaders dst hdr))
    (held : ic.terminal = true → P ic.w.header)
    (blocks : ∀ d ∈ dealings, d.commits = true → ∀ block ∈ handshakeBlocks h d.before, P block) :
    ∃ new, past' = new ++ past ∧ Only (Carrying P) new ∧
      (ic'.terminal = true → P ic'.w.header) := by
  induction dealt with
  | panicked | returned => exact ⟨[], rfl, only_nil, held⟩
  | call served rest ih =>
      obtain ⟨only, held'⟩ := (reach_of_served served).carries copied held
        (blocks _ List.mem_cons_self)
      obtain ⟨new, same, onlyNew, held''⟩ := ih held'
        fun d later => blocks d (List.mem_cons_of_mem _ later)
      exact ⟨new ++ _, same.trans (List.append_assoc _ _ _).symm, onlyNew.append only, held''⟩

end Dealt

section Leaves

variable {P : Header → Prop} (cleared : ∀ hdr, P (clearHeaders hdr))

include cleared

theorem refuse_carries (ic : Interceptor) :
    Obeys (fun _ => Carrying P) (fun ic' _ => P ic'.w.header) (refuse h ic) past := by
  refine Prog.Wp.bind ((obeys_carrying (rollBack_obeys ic)).weaken fun ic₁ past₁ spec => ?_)
  have holds : P ic₁.w.header := by
    rw [spec.2]
    exact cleared ic.w.header
  exact Prog.Wp.bind ((Writer.writeHeader_carrying 502 holds).weaken fun w past₂ still => still)

theorem conclude_carries {ic : Interceptor} (err : Option Err) (terminal : ic.terminal = true)
    (held : P ic.w.header) :
    Obeys (fun _ => Carrying P) (fun result _ => P result.2.w.header) (conclude h ic err) past := by
  unfold conclude
  split_ifs with failed
  · exact Prog.Wp.bind ((refuse_carries cleared ic).weaken fun _ _ holds => holds)
  · cases err with
    | some e =>
        refine Prog.Wp.bind ((obeys_carrying (rollBack_obeys ic)).weaken fun ic₁ past₁ spec => ?_)
        show P ic₁.w.header
        rw [spec.2]
        exact cleared ic.w.header
    | none =>
        refine Prog.Wp.bind ((obeys_carrying ic.reserveFinalMetadata_obeys).weaken ?_)
        rintro ⟨reserved, ic₁⟩ past₁ ⟨-, body, metadataBytes, final, rfl⟩
        cases reserved with
        | some e => exact Prog.Wp.bind ((refuse_carries cleared _).weaken fun _ _ holds => holds)
        | none =>
            dsimp only
            rw [if_pos (show (ic.reserving body metadataBytes final).terminal = true from terminal)]
            exact held

theorem Leaves.carries {ic : Interceptor} {left ended : Ended} {w : Writer} {past' : History}
    (leaves : Leaves h ic past left ended w past') (terminal : ic.terminal = true)
    (held : P ic.w.header) :
    ∃ new, past' = new ++ past ∧
      Only (fun c => Carries P c ∧ ∀ sc, c ≠ .store sc) new ∧ P w.header := by
  cases leaves with
  | panicked close =>
      obtain ⟨-, new, same, only⟩ := (obeys_new (StagedBody.close_obeys _)).run close
      exact ⟨new, same, only.mono fun _ staging => Carrying.quiet staging.carrying, held⟩
  | @returned err err' ic' closed past₁ _ concludes close =>
      obtain ⟨holds, new₁, rfl, only₁⟩ :=
        (obeys_new (conclude_carries cleared err terminal held)).run concludes
      obtain ⟨-, new₂, rfl, only₂⟩ := (obeys_new (StagedBody.close_obeys _)).run close
      refine ⟨new₂ ++ (new₁ ++ [⟨.returned err ic.responseHeader, ()⟩]), by simp, ?_, holds⟩
      refine (only₂.mono fun _ staging => Carrying.quiet staging.carrying).append
        ((only₁.mono fun _ => Carrying.quiet).append (.cons ?_ only_nil))
      exact ⟨carries_other fun _ _ same => (by cases same), fun _ same => by cases same⟩

end Leaves

section Forward

variable {w w' : Writer} {r : Request} {p : Presented} {next : Request → Down}
  {before past : History} {ended : Ended} {dealings : List Dealing} {ic : Interceptor}
  (run : Prog.Run History.step (h.forward conn w r p next) before (ended, w') past)
  (deals : Deals h conn w r p next before past dealings ic)

include run deals

theorem forward_carries {P : Header → Prop} (copied : ∀ dst hdr, P hdr → P (copyHeaders dst hdr))
    (cleared : ∀ hdr, P (clearHeaders hdr))
    (blocks : ∀ d ∈ dealings, d.commits = true → ∀ block ∈ handshakeBlocks h d.before, P block)
    (terminal : ic.terminal = true) :
    P w'.header ∧ ∃ new, past = new ++ before ∧
      Only (fun c => Carries P c ∧ ∀ sc, c ≠ .store sc) new := by
  obtain ⟨left, mid, dealt, leaves⟩ := forward_leaves run deals List.suffix_rfl
  obtain ⟨new₁, rfl, only₁, held⟩ := dealt.carries copied (fun h => by cases h) blocks
  obtain ⟨new₂, rfl, only₂, holds⟩ := leaves.carries cleared terminal (held terminal)
  refine ⟨holds, new₂ ++ (new₁ ++ [⟨.next (h.upstream r p), ()⟩]), by simp,
    only₂.append ((only₁.mono fun _ => Carrying.quiet).append (.cons ?_ only_nil))⟩
  exact ⟨carries_other fun _ _ same => (by cases same), fun _ same => by cases same⟩

omit run in
theorem Deals.tracked (outer : Canonical w.header) (sets : ∀ r, SetsOnly Canonical (next r))
    {early later : List Dealing} {d : Dealing} (split : dealings = early ++ d :: later) :
    Tracked early d.before := by
  refine deals.before sets (fun keeps served tracked => ?_)
    ⟨rfl, ⟨outer, outer, fun _ member => by cases member⟩, rfl⟩ split
  exact (reach_of_served served).tracked tracked
    ((serveCall_canonical tracked.keys _ keeps).run served)

omit run in
theorem Deals.scrubbed_iff (outer : Canonical w.header) (sets : ∀ r, SetsOnly Canonical (next r)) :
    (∀ d ∈ dealings, d.commits = true → ∀ block ∈ handshakeBlocks h d.before, Scrubbed h block) ↔
      ∀ early d later, dealings = early ++ d :: later → d.commits = true →
        ∀ made, sinceHandshake early = some made → Scrubbed h made := by
  constructor
  · intro blocks early d later split commits made since
    have tracked := deals.tracked outer sets split
    have final := blocks d (by simp [split]) commits _ (final_mem_handshakeBlocks d.before)
    rw [tracked.made] at since
    split_ifs at since with terminal
    cases since
    rwa [discardBackendMetadata, if_pos (tracked.processed.trans terminal)] at final
  · intro careful d member commits block copied
    obtain ⟨early, later, split⟩ := List.append_of_mem member
    have tracked := deals.tracked outer sets split
    refine (Gosestor.scrubbed_iff (canonical_handshakeBlocks tracked.keys block copied)).mpr
      (unmanaged_handshakeBlocks (fun processed => ?_) block copied)
    refine (Gosestor.scrubbed_iff tracked.keys.response).mp (careful early d later split commits _ ?_)
    rw [tracked.made, if_pos (tracked.processed.symm.trans processed)]

end Forward

/-- If all header keys are canonical, then in every run of a forwarded request: once a handshake was
committed, no store call is made; and every handshake is scrubbed, as is every header block sent once
there was one, exactly if at each handshake that is tried again what the downstream handler has made
of the emptied header since the last one has no cookies, controls or their trailers. -/
theorem handshakes_are_scrubbed_iff {w w' : Writer} {r : Request} {p : Presented}
    {next : Request → Down} {before past : History} {ended : Ended}
    (run : Prog.Run History.step (h.forward conn w r p next) before (ended, w') past)
    (outer : Canonical w.header) (sets : ∀ r, SetsOnly Canonical (next r)) :
    (∃ dealings ic, Deals h conn w r p next before past dealings ic) ∧
    ∀ dealings ic, Deals h conn w r p next before past dealings ic →
      (ic.terminal = true → ∃ new, past = new ++ before ∧
        Only (fun c => ∀ sc, c ≠ .store sc) new) ∧
      (((∀ d ∈ dealings, d.commits = true →
            ∀ block ∈ handshakeBlocks h d.before, Scrubbed h block) ∧
          (ic.terminal = true → Scrubbed h w'.header ∧
            ∃ new, past = new ++ before ∧ Only (Carries (Scrubbed h)) new)) ↔
        ∀ early d later, dealings = early ++ d :: later → d.commits = true →
          ∀ made, sinceHandshake early = some made → Scrubbed h made) := by
  refine ⟨forward_deals run, fun dealings ic deals => ⟨fun terminal => ?_, ?_⟩⟩
  · obtain ⟨-, new, same, only⟩ := forward_carries run deals (P := fun _ => True)
      (fun _ _ _ => trivial) (fun _ => trivial) (fun _ _ _ _ _ => trivial) terminal
    exact ⟨new, same, only.mono fun _ quiet => quiet.2⟩
  · rw [← deals.scrubbed_iff outer sets]
    refine ⟨fun scrubbed => scrubbed.1, fun blocks => ⟨blocks, fun terminal => ?_⟩⟩
    have unmanaged : ∀ d ∈ dealings, d.commits = true →
        ∀ block ∈ handshakeBlocks h d.before, Unmanaged h block := by
      intro d member commits block copied
      obtain ⟨early, later, split⟩ := List.append_of_mem member
      exact (Gosestor.scrubbed_iff (canonical_handshakeBlocks (deals.tracked outer sets split).keys
        block copied)).mp (blocks d member commits block copied)
    obtain ⟨holds, new, rfl, only⟩ := forward_carries run deals (fun dst _ => (·.copy dst))
      unmanaged_clearHeaders unmanaged terminal
    obtain ⟨canonical, new', same, keys⟩ := (obeys_new (forward_canonical outer sets)).run run
    rw [List.append_cancel_right same] at only ⊢
    refine ⟨(Gosestor.scrubbed_iff canonical).mpr holds, new', rfl, fun d member => ?_⟩
    intro status hdr sent
    exact (Gosestor.scrubbed_iff (keys d member status hdr sent)).mpr
      ((only d member).1 status hdr sent)

/-- A takeover that fails, and another one with a new header. -/
def retryTakeover (name value : GoString) : Down :=
  .call .hijack fun _ => headerSetter name value <|
    .call (.writeHeader 101) fun _ => .call .hijack fun _ => .ret none

theorem retryTakeover_sets {P : Header → Prop} {name value : GoString}
    (keeps : ∀ hdr, P hdr → P (hdr.set name value)) : SetsOnly P (retryTakeover name value) :=
  ⟨fun _ => id, fun _ => ⟨keeps, fun _ => ⟨fun _ => id, fun _ => ⟨fun _ => id, fun _ => trivial⟩⟩⟩⟩

def sampleTakeover (name value : GoString) : Act (Ended × Writer) :=
  sampleHandler.forward ⟨true, false⟩ {} { path := lit "/" } {} fun _ => retryTakeover name value

def upgradeHeader : Header := (∅ : Header).set (lit "Upgrade") (lit "websocket")

theorem scrubbed_of_upgrade (hdr : Header) (known : hdr = ∅ ∨ hdr = upgradeHeader) :
    Scrubbed sampleHandler hdr := by
  obtain rfl | rfl := known
  · exact ⟨by decide, by decide, fun key name held => absurd rfl held⟩
  · refine ⟨by decide, by decide, fun key name held named => ?_⟩
    have keys : GoMap.keys upgradeHeader = [lit "Upgrade"] := by decide
    have only : key = lit "Upgrade" := List.mem_singleton.mp (keys ▸ GoMap.mem_keys.mpr held)
    rw [only, show prefixedTrailer (lit "Upgrade") = none by decide] at named
    cases named

/-- The second handshake is committed and harmless. -/
theorem sample_handshakes_are_scrubbed : ∃ ended w past,
    Prog.Run History.step (sampleTakeover (lit "Upgrade") (lit "websocket")) [] (ended, w) past ∧
    ((past.filterMap Deed.takeover).length = 2 ∧ (past.filterMap Deed.sent).length = 1) ∧
    (∃ dealings ic, Deals sampleHandler ⟨true, false⟩ {} { path := lit "/" } {}
      (fun _ => retryTakeover (lit "Upgrade") (lit "websocket")) [] past dealings ic) ∧
    ∀ dealings ic, Deals sampleHandler ⟨true, false⟩ {} { path := lit "/" } {}
        (fun _ => retryTakeover (lit "Upgrade") (lit "websocket")) [] past dealings ic →
      (∀ d ∈ dealings, d.commits = true →
        ∀ block ∈ handshakeBlocks sampleHandler d.before, Scrubbed sampleHandler block) ∧
      (ic.terminal = true → Scrubbed sampleHandler w.header ∧
        ∃ new, past = new ++ [] ∧ Only (Carries (Scrubbed sampleHandler)) new) := by
  have run := stranded_run (sampleTakeover (lit "Upgrade") (lit "websocket"))
  obtain ⟨deals, scrubbed⟩ := handshakes_are_scrubbed_iff run canonical_empty fun _ =>
    retryTakeover_sets fun hdr canonical => canonical.set _ _
  refine ⟨_, _, _, run, by decide +kernel, deals, fun dealings ic dealt => ?_⟩
  refine (scrubbed dealings ic dealt).2.mpr fun early d later split _ made since => ?_
  refine scrubbed_of_upgrade made (dealt.since (P := fun hdr => hdr = ∅ ∨ hdr = upgradeHeader)
    (fun _ => retryTakeover_sets ?_) (.inl rfl) split since)
  rintro hdr (rfl | rfl)
  · exact .inr rfl
  · exact .inr rfl

/-- A takeover that is tried again sends the cookie that the backend set in between. -/
theorem retried_handshake_sends_cookie : ∃ ended w past hdr,
    Prog.Run History.step (sampleTakeover setCookieName (lit "a=b")) [] (ended, w) past ∧
    (past.filterMap Deed.takeover).length = 2 ∧
    (⟨.writeHeader 101 hdr, ()⟩ : Deed) ∈ past ∧ hdr.values setCookieName = [lit "a=b"] := by
  have sent : ((((sampleTakeover setCookieName (lit "a=b")).eval stranded []).2.filterMap
      Deed.sent).any fun block => block.1 = 101 ∧
        block.2.values setCookieName = [lit "a=b"]) = true := by
    decide +kernel
  obtain ⟨⟨status, hdr⟩, member, checked⟩ := List.any_eq_true.mp sent
  obtain ⟨rfl, lines⟩ := of_decide_eq_true checked
  exact ⟨_, _, _, hdr, stranded_run _, by decide +kernel, mem_of_sent member, lines⟩

end Handler

end Gosestor
