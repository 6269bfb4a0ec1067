import Gosestor.Proof.Handler.Batch

/-!
# Labels, from the header to their enforcement

A grant is a set of labels. The session stores that set and no other, whatever the order, the
repetitions and the separators of the header, and its key is rotated when the set is a new one.
-/

namespace Gosestor

open Gosestor.Go Gosestor.Lib Gosestor.Session
open Gosestor.Store (Memory)

namespace Session

section Applies

variable {m : Manager} {l l' : Live} {ownerID : Option Int} {labels : Option (List GoString)}
  {force periodic : Bool} {cookies : List CookieMutation} {now : Int} {mem mem' : Memory}
  (applies : Applies m l ownerID labels force periodic cookies now mem l' mem')

include applies

theorem Applies.labelled {given : List GoString} (asked : labels = some given) :
    ∃ row, mem'.sessions.get l.sessionID = some row ∧ row.labels = normalizeLabels given := by
  subst asked
  cases applies with
  | @idle row found nothing =>
      refine ⟨row, found, ?_⟩
      simp only [Live.nothingToDo, Live.controls, Bool.and_eq_true, Bool.not_eq_true',
        Option.any_some, decide_eq_false_iff_not, ne_eq, not_not] at nothing
      exact nothing.1.1.2.symm
  | @commit row c key found controls held =>
      refine ⟨Memory.controlled row c, ?_, ?_⟩
      · rw [Memory.commit_sessions, GoMap.get_set_self]
      · rw [controls]
        simp only [Memory.controlled, Live.controls, Option.any_some, Option.map_some,
          Option.getD_some, decide_eq_true_eq]
        split_ifs with changed
        · rfl
        · exact (not_not.mp changed).symm

theorem Applies.rotates (unpending : l.rewrite = false) {row : Store.Session}
    (found : mem.sessions.get l.sessionID = some row) :
    l'.newProxyCookie.isSome = true ↔
      force = true ∨ (periodic = true ∧ m.rotationDue row now = true) ∨
        labels.any (normalizeLabels · ≠ row.labels) = true ∨
        (ownerID.any (· ≠ row.ownerID) = true ∧ m.cfg.rotateOnLogin = true) := by
  have rotate : (Live.controls m l row now ownerID labels force periodic cookies).rotate = true ↔
      force = true ∨ (periodic = true ∧ m.rotationDue row now = true) ∨
        labels.any (normalizeLabels · ≠ row.labels) = true ∨
        (ownerID.any (· ≠ row.ownerID) = true ∧ m.cfg.rotateOnLogin = true) := by
    simp only [Live.controls, unpending, Bool.not_false, Bool.true_and, Bool.or_eq_true,
      Bool.and_eq_true, or_assoc]
  rw [← rotate]
  cases applies with
  | @idle row' found' nothing =>
      obtain rfl := Option.some.inj (found.symm.trans found')
      have still : (Live.controls m l row now ownerID labels force periodic cookies).rotate = false := by
        simp only [Live.nothingToDo, Bool.and_eq_true, Bool.not_eq_true'] at nothing
        exact nothing.1.2
      have none : (l.applied ownerID labels).newProxyCookie = none := by
        simp [Live.newProxyCookie, Live.applied, unpending]
      rw [none, still]
      rfl
  | @commit row' c key found' controls held =>
      obtain rfl := Option.some.inj (found.symm.trans found')
      have same : c.rotate =
          (Live.controls m l row now ownerID labels force periodic cookies).rotate := by rw [controls]
      rw [committed_newProxyCookie unpending, ← same]
      split_ifs with turns
      · simp [turns]
      · simp [turns]

end Applies

end Session

def Said.Grants (said : Said) (x : GoString) : Prop :=
  (∃ value ∈ said.labels, Token labelSep value x) ∧ x ≠ Authz.anonymous

section Processed

variable {h : Handler} {t : Nat} {w w' : World} {nows : List Int} {live : Option Live}
  {mem : Memory} {now : Int} {ic ic' : Interceptor}

theorem Handler.heard_labels_eq (ic : Interceptor) : ((ic.readRevoke h).controls h).labels =
    Interceptor.readLabels (h.heard ic.responseHeader).labels := by
  simp only [Interceptor.controls, Interceptor.readControls, Interceptor.readRevoke, Handler.heard]

theorem readLabels_some {raw : List GoString} (some : raw ≠ []) :
    ∃ given, Interceptor.readLabels raw = Option.some given := by
  rw [Interceptor.readLabels, if_neg some]
  exact ⟨_, rfl⟩

theorem Interceptor.Processed.labelled
    (processed : Interceptor.Processed h t ic w nows live mem now ic' w') {given : List GoString}
    (read : Interceptor.readLabels (h.heard ic.responseHeader).labels = some given) {l : Live}
    (alive : ic'.live = some l) :
    ∃ row, w'.mem.sessions.get l.sessionID = some row ∧ row.labels = normalizeLabels given := by
  obtain ⟨w₁, w₂, -, ⟨⟨locks, mem₂⟩, -⟩, -, handled⟩ := processed
  have concludes := handled.concludes
  rw [mem₂]
  generalize w₂.mem = memEnd at concludes
  cases concludes with
  | idle none => cases alive.symm.trans none
  | applied before applies =>
      cases alive
      rw [applies.sessionID]
      exact applies.labelled ((Handler.heard_labels_eq ic).trans read)

theorem Interceptor.Processed.rotates
    (processed : Interceptor.Processed h t ic w nows live mem now ic' w') {l : Live}
    (alive : ic.live = some l) (unpending : l.rewrite = false) {row : Store.Session}
    (found : w.mem.sessions.get l.sessionID = some row) :
    ∃ l', ic'.live = some l' ∧ ⟨.now, now⟩ ∈ own t w' ∧
      (l'.newProxyCookie.isSome = true ↔
        ((ic.readRevoke h).controls h).rotate = true ∨ h.manager.rotationDue row now = true ∨
          ((ic.readRevoke h).controls h).labels.any (normalizeLabels · ≠ row.labels) = true ∨
          (((ic.readRevoke h).controls h).owner.any (· ≠ row.ownerID) = true ∧
            h.manager.cfg.rotateOnLogin = true)) := by
  obtain ⟨w₁, w₂, ⟨⟨locks, mem₁⟩, -⟩, after, -, handled⟩ := processed
  have provided := handled.provided
  have concludes := handled.concludes
  have noted := handled.noted
  have kept : (ic.readRevoke h).live = some l := alive
  rw [kept] at provided
  generalize w₂.mem = memEnd at concludes
  cases provided with
  | kept =>
      cases concludes with
      | idle none => cases none
      | applied before applies =>
          cases before
          refine ⟨_, rfl, after.own (noted (by simp)), ?_⟩
          rw [applies.rotates unpending (by rw [mem₁]; exact found)]
          simp only [true_and]

end Processed

theorem Granted.canonical {stored : GoString} (granted : Granted stored) : LabelString stored := by
  obtain ⟨labels, plain, same⟩ := granted
  exact ⟨labels, fun x member => (plain x member).1, same⟩

theorem Granted.not_anonymous {stored : GoString} (granted : Granted stored) :
    Authz.anonymous ∉ fields stored := by
  obtain ⟨labels, plain, rfl⟩ := granted
  rw [mem_fields_normalizeLabels fun x member => (plain x member).1]
  exact fun member => (plain _ member).2 rfl

theorem labels_are_canonical {visit : Nat → Visit} {c : Machine (Option (Ended × Writer))}
    (run : (traffic visit).Reaches quietStart c) :
    (∀ (h : Handler) (hdr : Header), h.Apart → h.Undeclared hdr → h.heard hdr = h.written hdr) ∧
    (∀ (h : Handler) (ic ic' : Interceptor) (t : Nat) (w : World) (l : Live),
      (ic.readRevoke h).revokeRequested = false → (h.heard ic.responseHeader).labels ≠ [] →
      (ic.process h).Run (exec anyFaults t) c.state (.ok (), ic') w → ic'.live = some l →
      ∀ (m : Manager) (keyID : GoString) (u : Nat) (l' : Live) (w' : World),
        (m.resolve keyID).Run (exec anyFaults u) w (.ok (some l')) w' →
        l'.sessionID = l.sessionID →
        ∀ x, l'.hasLabel x = true ↔ (h.heard ic.responseHeader).Grants x) ∧
    (∀ (said said' : Said) (given given' : List GoString),
      Interceptor.readLabels said.labels = some given →
      Interceptor.readLabels said'.labels = some given' →
      (normalizeLabels given = normalizeLabels given' ↔ ∀ x, said.Grants x ↔ said'.Grants x)) ∧
    (∀ (h : Handler) (ic ic' : Interceptor) (t : Nat) (w : World) (l : Live) (row : Store.Session),
      (ic.readRevoke h).revokeRequested = false → (h.heard ic.responseHeader).labels ≠ [] →
      (ic.process h).Run (exec anyFaults t) c.state (.ok (), ic') w → ic.live = some l →
      l.rewrite = false → c.state.mem.sessions.get l.sessionID = some row →
      ∃ l' now, ic'.live = some l' ∧ ⟨.now, now⟩ ∈ own t w ∧
        (l'.newProxyCookie.isSome = true ↔
          ((ic.readRevoke h).controls h).rotate = true ∨ h.manager.rotationDue row now = true ∨
            (¬ ∀ x, (h.heard ic.responseHeader).Grants x ↔ x ∈ fields row.labels) ∨
            (((ic.readRevoke h).controls h).owner.any (· ≠ row.ownerID) = true ∧
              h.manager.cfg.rotateOnLogin = true))) ∧
    ∀ s row, c.state.mem.sessions.get s = some row → Authz.anonymous ∉ fields row.labels := by
  have stocked := (traffic_furnished run).stocked
  have granted : ∀ (said : Said) (given : List GoString),
      Interceptor.readLabels said.labels = some given →
      (∀ x ∈ given, IsLabel x) ∧ ∀ x, x ∈ given ↔ said.Grants x := fun said given read =>
    ⟨fun x member => (Interceptor.readLabels_plain read x member).1,
      fun x => Interceptor.mem_readLabels read⟩
  refine ⟨fun h hdr => Handler.heard_eq_written, ?_, ?_, ?_, ?_⟩
  · intro h ic ic' t w l unrevoked some processed alive m keyID u l' w' resolved same x
    obtain ⟨given, read⟩ := readLabels_some some
    obtain ⟨plain, grants⟩ := granted _ given read
    obtain ⟨nows, live, mem, now, done⟩ := (ic.process_alone unrevoked).run processed rfl
    obtain ⟨row, found, labels⟩ := done.labelled read alive
    have finds := (resolve_alone m keyID).run resolved l' rfl
    obtain ⟨row', -, found', held, -, -⟩ := finds.row
    rw [same] at found'
    obtain rfl := Option.some.inj (found.symm.trans found')
    rw [Live.hasLabel, held, labels, List.contains_iff_mem, mem_fields_normalizeLabels plain, grants]
  · intro said said' given given' read read'
    obtain ⟨plain, grants⟩ := granted said given read
    obtain ⟨plain', grants'⟩ := granted said' given' read'
    rw [normalizeLabels_eq_iff plain plain']
    simp only [grants, grants']
  · intro h ic ic' t w l row unrevoked some processed alive unpending found
    obtain ⟨given, read⟩ := readLabels_some some
    obtain ⟨plain, grants⟩ := granted _ given read
    obtain ⟨nows, live, mem, now, done⟩ := (ic.process_alone unrevoked).run processed rfl
    obtain ⟨l', alive', noted, rotates⟩ := done.rotates alive unpending found
    have canonical := (stocked.labels found).canonical
    refine ⟨l', now, alive', noted, ?_⟩
    rw [rotates, Handler.heard_labels_eq, read, Option.any_some, decide_eq_true_eq, ne_eq,
      canonical.normalize_eq_iff plain]
    simp only [grants]
  · intro s row found
    exact (stocked.labels found).not_anonymous

def grantResponse : Interceptor where
  w := { header := ∅ }
  live := none
  responseHeader := Header.set ∅ defaultLabelsHeader (lit "staff, anonymous")
  hadProxyCookie := false
  resolveErr := none

def grantedHandle (p : (Except Err Unit × Interceptor) × World) : Option (Live × World) :=
  match p with
  | ((.ok (), ic), w) => ic.live.map fun l => (l, w)
  | _ => none

def resolvedHandle (p : Except Err (Option Live) × World) : Option Live :=
  match p with
  | (.ok l, _) => l
  | _ => none

theorem sample_labels_are_canonical : ∃ ic' w l l' w',
    (grantResponse.process sampleHandler).Run (exec anyFaults 0) quietStart.state (.ok (), ic') w ∧
    ic'.live = some l ∧
    (sampleManager.resolve sampleKey).Run (exec anyFaults 1) w (.ok (some l')) w' ∧
    l'.sessionID = l.sessionID ∧
    ∀ x, l'.hasLabel x = true ↔
      (sampleHandler.heard grantResponse.responseHeader).Grants x := by
  have played : (playAlone anyFaults 0 (grantResponse.process sampleHandler) quietStart.state
      (storingChoices.drop 2)).any fun p => (grantedHandle p).any fun (l, w) =>
        (playAlone anyFaults 1 (sampleManager.resolve sampleKey) w
          [{}, {}, { clock := 110 }, {}, {}, {}]).any fun p =>
            (resolvedHandle p).any fun l' => decide (l'.sessionID = l.sessionID) := by
    decide +kernel
  obtain ⟨⟨⟨result, ic'⟩, w⟩, played, granted⟩ := (Option.any_eq_true _ _).mp played
  cases result with
  | error e => cases granted
  | ok done =>
      obtain ⟨⟨l, w₁⟩, handle, resolved⟩ := (Option.any_eq_true _ _).mp granted
      obtain ⟨_, alive, same⟩ := Option.map_eq_some_iff.mp handle
      cases same
      obtain ⟨⟨found, w'⟩, resolved, named⟩ := (Option.any_eq_true _ _).mp resolved
      obtain ⟨l', found', named⟩ := (Option.any_eq_true _ _).mp named
      cases found with
      | error e => cases found'
      | ok found =>
          cases found'
          have processed := run_of_playAlone played
          have resolves := run_of_playAlone resolved
          refine ⟨ic', w, l, l', w', processed, alive, resolves, of_decide_eq_true named, ?_⟩
          exact (@labels_are_canonical (fun _ => .revokeOwner 0) quietStart .refl).2.1 _ _ _ _ _ _
            (by decide) (by decide) processed alive _ _ _ _ _ resolves (of_decide_eq_true named)

end Gosestor
