import Gosestor.Proof.Handler.Stored
import Gosestor.Proof.Session.Alone

/-!
# A response that is processed alone

What a successful response leaves in the session's store and in its header: the backend's lines are
forwarded or turned into mutations one by one, a session is begun where one is first needed, and
the controls are committed once.
-/

namespace Gosestor

open Gosestor.Go Gosestor.Lib Gosestor.Session
open Gosestor.Store (Memory)

def addLines (lines : List GoString) (hdr : Header) : Header :=
  lines.foldl (fun hdr line => hdr.add setCookieName line) hdr

theorem values_addLines (lines : List GoString) (hdr : Header) :
    (addLines lines hdr).values setCookieName = hdr.values setCookieName ++ lines := by
  unfold addLines
  induction lines generalizing hdr with
  | nil => simp
  | cons line lines ih =>
      rw [List.foldl_cons, ih, Header.values_add, List.append_assoc]
      rfl

namespace Handler

variable (h : Handler)

def stored (line : GoString) : Option Cookie :=
  (parseSetCookie h.parseTime line).filter fun cookie => h.filter.decide cookie.name = .store

/-- The stored cookies of some lines, each with the decision whether it deletes; `nows` has one
reading of the clock for each of them. -/
def decisions : List GoString → List Int → List (Cookie × Bool)
  | [], _ => []
  | line :: lines, nows =>
      match h.stored line with
      | none => decisions lines nows
      | some cookie =>
          match nows with
          | [] => []
          | now :: nows => (cookie, cookieDeletesNow line cookie now) :: decisions lines nows

theorem stored_of_forwarded {line : GoString} (forwarded : h.forwarded line = true) :
    h.stored line = none := by
  unfold Handler.forwarded at forwarded
  unfold Handler.stored
  cases parsed : parseSetCookie h.parseTime line with
  | none => rfl
  | some cookie =>
      simp only [parsed, Option.any_some, decide_eq_true_eq] at forwarded
      simp [Option.filter, forwarded]

end Handler

def mutationOf : Cookie × Bool → CookieMutation
  | (cookie, true) => { name := cookie.name, delete := true }
  | (cookie, false) => { name := cookie.name, value := cookie.value }

def recorded (live : Option Live) (decided : List (Cookie × Bool)) : List (Cookie × Bool) :=
  if live.isSome then decided else decided.dropWhile (·.2)

namespace Interceptor

variable {h : Handler} {faults : Fault → Bool} {t : Nat} {w : World}

/-- A session is begun in the store `mem` where there was none, if `needed`. -/
inductive Provided (h : Handler) (minted : List GoString) (mem : Memory) :
    Option Live → Bool → Option Live → Memory → Prop
  | kept (live : Option Live) (needed : Bool) (enough : live = none → needed = false) :
      Provided h minted mem live needed live mem
  | begun {l : Live} {mem' : Memory} (begins : Begins h.manager minted mem l mem') :
      Provided h minted mem none true (some l) mem'

theorem Provided.widen {minted : List GoString} {mem mem' : Memory} {live live' : Option Live}
    {needed wanted : Bool} (provided : Provided h minted mem live needed live' mem')
    (enough : live' = none → wanted = false) :
    Provided h minted mem live (needed || wanted) live' mem' := by
  cases provided with
  | kept _ _ idle => exact .kept _ _ fun none => by rw [idle none, enough none]; rfl
  | begun begins => exact .begun begins

theorem Provided.of_none {minted : List GoString} {mem mem' : Memory} {live : Option Live}
    {needed : Bool} (provided : Provided h minted mem live needed none mem') :
    live = none ∧ needed = false ∧ mem' = mem := by
  cases provided with
  | kept _ _ idle => exact ⟨rfl, idle rfl, rfl⟩

theorem ensureLive_alone (ic : Interceptor) :
    Alone faults t
      (fun result w' => result.1 = .ok () → ∃ l, result.2 = { ic with live := some l } ∧
        Provided h w.minted w.mem ic.live true (some l) w'.mem ∧ walls t w' = walls t w ∧
        (ic.live = some l → w'.minted = w.minted))
      (ic.ensureLive h) w := by
  unfold ensureLive
  split_ifs with alive
  · obtain ⟨l, held⟩ := Option.isSome_iff_exists.mp alive
    refine fun _ => ⟨l, by rw [← held], ?_, rfl, fun _ => rfl⟩
    rw [held]
    exact .kept _ _ fun none => by cases none
  · refine alone_bind (begin_alone h.manager) fun begun w' done => ?_
    cases begun with
    | error e => exact fun same => by cases same
    | ok l =>
        have none : ic.live = none := by simpa using alive
        rw [none]
        exact fun _ => ⟨l, rfl, .begun (done l rfl).1, (done l rfl).2, fun some => by cases some⟩

/-- What sorting `lines` does; `nows` are the readings of the clock and `added` the mutations. -/
structure Sorting (h : Handler) (t : Nat) (lines : List GoString) (nows : List Int)
    (ic : Interceptor) (w : World) (added : List CookieMutation) (ic' : Interceptor) (w' : World) :
    Prop where
  passed : ic' =
    { ic with
      responseHeader := addLines (lines.filter h.forwarded) ic.responseHeader
      live := ic'.live }
  readings : walls t w' = nows.reverse ++ walls t w
  count : nows.length = (lines.filterMap h.stored).length
  added : added = (recorded ic.live (h.decisions lines nows)).map mutationOf
  provided : Provided h w.minted w.mem ic.live ((h.decisions lines nows).any (!·.2)) ic'.live w'.mem
  unminted : ic'.live = ic.live → w'.minted = w.minted

theorem Sorting.skip {line : GoString} {lines : List GoString} {nows : List Int}
    {ic ic' : Interceptor} {w w' : World} {added : List CookieMutation}
    (dropped : h.stored line = none) (unsent : h.forwarded line = false)
    (sorting : Sorting h t lines nows ic w added ic' w') :
    Sorting h t (line :: lines) nows ic w added ic' w' := by
  have same : h.decisions (line :: lines) nows = h.decisions lines nows := by
    rw [Handler.decisions, dropped]
  refine ⟨?_, sorting.readings, ?_, ?_, ?_, sorting.unminted⟩
  · rw [List.filter_cons_of_neg (by simp [unsent])]
    exact sorting.passed
  · rw [List.filterMap_cons, dropped]
    exact sorting.count
  · rw [same]
    exact sorting.added
  · rw [same]
    exact sorting.provided

theorem Sorting.pass {line : GoString} {lines : List GoString} {nows : List Int}
    {ic ic' : Interceptor} {w w' : World} {added : List CookieMutation}
    (sent : h.forwarded line = true)
    (sorting : Sorting h t lines nows
      { ic with responseHeader := ic.responseHeader.add setCookieName line } w added ic' w') :
    Sorting h t (line :: lines) nows ic w added ic' w' := by
  have dropped := h.stored_of_forwarded sent
  have same : h.decisions (line :: lines) nows = h.decisions lines nows := by
    rw [Handler.decisions, dropped]
  refine ⟨?_, sorting.readings, ?_, ?_, ?_, sorting.unminted⟩
  · rw [List.filter_cons_of_pos sent]
    exact sorting.passed
  · rw [List.filterMap_cons, dropped]
    exact sorting.count
  · rw [same]
    exact sorting.added
  · rw [same]
    exact sorting.provided

section Stored

variable {line : GoString} {lines : List GoString} {cookie : Cookie} {now : Int} {nows : List Int}
  {ic ic' : Interceptor} {w w₁ w' : World} {added : List CookieMutation}
  (kept : h.stored line = some cookie) (tick : walls t w₁ = now :: walls t w)

include kept

theorem decisions_cons : h.decisions (line :: lines) (now :: nows) =
    (cookie, cookieDeletesNow line cookie now) :: h.decisions lines nows := by
  rw [Handler.decisions, kept]

theorem unsent_of_stored : h.forwarded line = false := by
  by_contra sent
  cases (h.stored_of_forwarded (by simpa using sent)).symm.trans kept

include tick

theorem Sorting.delete (deletes : cookieDeletesNow line cookie now = true) (mem : w₁.mem = w.mem)
    (minted : w₁.minted = w.minted) (sorting : Sorting h t lines nows ic w₁ added ic' w') :
    Sorting h t (line :: lines) (now :: nows) ic w
      ((if ic.live.isSome then [mutationOf (cookie, true)] else []) ++ added) ic' w' := by
  have unsent := unsent_of_stored kept
  refine ⟨?_, ?_, ?_, ?_, ?_, ?_⟩
  · rw [List.filter_cons_of_neg (by simp [unsent])]
    exact sorting.passed
  · rw [sorting.readings, tick]
    simp
  · rw [List.filterMap_cons, kept]
    exact congrArg (· + 1) sorting.count
  · rw [sorting.added, decisions_cons kept, deletes]
    unfold recorded
    split_ifs <;> rfl
  · rw [decisions_cons kept, deletes, ← mem, ← minted]
    simpa using sorting.provided
  · rw [← minted]
    exact sorting.unminted

theorem Sorting.keep (keeps : cookieDeletesNow line cookie now = false) {l : Live}
    (provided : Provided h w.minted w.mem ic.live true (some l) w₁.mem)
    (minted : ic.live = some l → w₁.minted = w.minted)
    (sorting : Sorting h t lines nows { ic with live := some l } w₁ added ic' w') :
    Sorting h t (line :: lines) (now :: nows) ic w (mutationOf (cookie, false) :: added) ic' w' := by
  have unsent := unsent_of_stored kept
  have alive : ic'.live = some l ∧ w'.mem = w₁.mem := by
    have later := sorting.provided
    generalize ic'.live = live at later
    generalize w'.mem = mem at later
    cases later with
    | kept => exact ⟨rfl, rfl⟩
  refine ⟨?_, ?_, ?_, ?_, ?_, ?_⟩
  · rw [List.filter_cons_of_neg (by simp [unsent])]
    exact sorting.passed
  · rw [sorting.readings, tick]
    simp
  · rw [List.filterMap_cons, kept]
    exact congrArg (· + 1) sorting.count
  · have first : recorded ic.live ((cookie, false) :: h.decisions lines nows) =
        (cookie, false) :: h.decisions lines nows := by
      unfold recorded
      split_ifs <;> rfl
    rw [sorting.added, decisions_cons kept, keeps, first]
    rfl
  · rw [decisions_cons kept, keeps, alive.1, alive.2]
    simpa using provided
  · intro same
    have held : ic.live = some l := same.symm.trans alive.1
    rw [← minted held]
    exact sorting.unminted alive.1

end Stored

theorem sortCookies_alone (lines : List GoString) (mutations : List CookieMutation)
    (ic : Interceptor) :
    Alone faults t
      (fun result w' => ∀ all, result.1 = .ok all → ∃ nows added, all = mutations ++ added ∧
        Sorting h t lines nows ic w added result.2 w')
      (sortCookies h lines mutations ic) w := by
  induction lines generalizing mutations ic w with
  | nil =>
      intro all same
      cases same
      refine ⟨[], [], by simp, rfl, rfl, rfl, ?_, .kept _ _ fun _ => rfl, fun _ => rfl⟩
      unfold recorded
      split_ifs <;> rfl
  | cons line lines ih =>
      have dropped : h.stored line = none → h.forwarded line = false → Alone faults t
          (fun result w' => ∀ all, result.1 = .ok all → ∃ nows added, all = mutations ++ added ∧
            Sorting h t (line :: lines) nows ic w added result.2 w')
          (sortCookies h lines mutations ic) w := by
        intro unkept unsent
        refine (ih mutations ic).weaken fun result w' done all same => ?_
        obtain ⟨nows, added, total, sorting⟩ := done all same
        exact ⟨nows, added, total, sorting.skip unkept unsent⟩
      rw [sortCookies]
      cases parsed : parseSetCookie h.parseTime line with
      | none =>
          exact dropped (by simp [Handler.stored, parsed]) (by simp [Handler.forwarded, parsed])
      | some cookie =>
          dsimp only
          cases decision : h.filter.decide cookie.name with
          | drop =>
              exact dropped (by simp [Handler.stored, parsed, decision, Option.filter])
                (by simp [Handler.forwarded, parsed, decision])
          | forward =>
              have sent : h.forwarded line = true := by simp [Handler.forwarded, parsed, decision]
              refine (ih mutations _).weaken fun result w' done all same => ?_
              obtain ⟨nows, added, total, sorting⟩ := done all same
              exact ⟨nows, added, total, sorting.pass sent⟩
          | store =>
              have kept : h.stored line = some cookie := by
                simp [Handler.stored, parsed, decision, Option.filter]
              refine alone_act fun now w₁ clock => ?_
              have mem := exec_mem clock (by simp)
              have minted : w₁.minted = w.minted := exec_minted clock
              have tick : walls t w₁ = now :: walls t w := exec_walls clock
              split_ifs with deletes alive
              · refine (ih _ ic).weaken fun result w' done all same => ?_
                obtain ⟨nows, added, total, sorting⟩ := done all same
                refine ⟨_, _, ?_, sorting.delete kept tick deletes mem minted⟩
                rw [total, if_pos alive, List.append_assoc]
                rfl
              · refine (ih mutations ic).weaken fun result w' done all same => ?_
                obtain ⟨nows, added, total, sorting⟩ := done all same
                refine ⟨_, _, ?_, sorting.delete kept tick deletes mem minted⟩
                rw [total, if_neg alive]
                rfl
              · refine alone_bind ic.ensureLive_alone fun result w₂ begun => ?_
                obtain ⟨result, ic₂⟩ := result
                cases result with
                | error e => exact fun all same => by cases same
                | ok done =>
                    obtain ⟨l, same, provided, unread, unminted⟩ := begun rfl
                    dsimp only at same
                    subst same
                    rw [minted, mem] at provided
                    refine (ih _ _).weaken fun result w' done all same => ?_
                    obtain ⟨nows, added, total, sorting⟩ := done all same
                    refine ⟨_, _, ?_, sorting.keep kept (unread.trans tick)
                      (eq_false_of_ne_true deletes) provided fun held => (unminted held).trans minted⟩
                    rw [total, List.append_assoc]
                    rfl

inductive Concludes (h : Handler) (c : Controls) (mutations : List CookieMutation) (now : Int)
    (ic : Interceptor) (mem : Memory) : Interceptor → Memory → Prop
  | idle (none : ic.live = none) : Concludes h c mutations now ic mem ic mem
  | applied {l l' : Live} {mem' : Memory} (alive : ic.live = some l)
      (applies : Applies h.manager l c.owner c.labels c.rotate true mutations now mem l' mem') :
      Concludes h c mutations now ic mem
        { ic with
          live := some l'
          responseHeader := addLines (l'.newProxyCookie.map h.buildProxyCookie).toList
            ic.responseHeader } mem'

theorem commitControls_alone (ic : Interceptor) (c : Controls) (mutations : List CookieMutation) :
    Alone faults t
      (fun result w' => result.1 = .ok () → ∃ now,
        Concludes h c mutations now ic w.mem result.2 w'.mem ∧ walls t w' = walls t w ∧
          (ic.live ≠ none → ⟨.now, now⟩ ∈ own t w'))
      (ic.commitControls h c mutations) w := by
  unfold commitControls
  cases alive : ic.live with
  | none => exact fun _ => ⟨0, .idle alive, rfl, fun absurd => (absurd rfl).elim⟩
  | some l =>
      refine alone_bind (applyControls_alone h.manager l c.owner c.labels c.rotate true mutations)
        fun result w' done => ?_
      obtain ⟨result, l'⟩ := result
      cases result with
      | error e => exact fun same => by cases same
      | ok committed =>
          obtain ⟨now, applies, unread, noted⟩ := done rfl
          have concludes := Concludes.applied alive applies
          dsimp only
          cases issued : l'.newProxyCookie with
          | none =>
              rw [issued] at concludes
              exact fun _ => ⟨now, concludes, unread, fun _ => noted⟩
          | some key =>
              rw [issued] at concludes
              exact fun _ => ⟨now, concludes, unread, fun _ => noted⟩

def controls (h : Handler) (ic : Interceptor) : Controls :=
  (readControls h (ic.responseHeader.del setCookieName)).1

/-- A response that was processed without an error and asked for no revocation. `live` and `mem`
are the session and the store before the commit, and `now` is when it was decided on. -/
structure ProcessedOk (h : Handler) (t : Nat) (ic : Interceptor) (w : World) (nows : List Int)
    (live : Option Live) (mem : Memory) (now : Int) (ic' : Interceptor) (w' : World) : Prop where
  readings : walls t w' = nows.reverse ++ walls t w
  count : nows.length = ((ic.responseHeader.values setCookieName).filterMap h.stored).length
  provided : Provided h w.minted w.mem ic.live
    ((h.decisions (ic.responseHeader.values setCookieName) nows).any (!·.2) ||
      wantsSession (ic.controls h)) live mem
  noted : live ≠ none → ⟨.now, now⟩ ∈ own t w'
  concludes : Concludes h (ic.controls h)
    ((recorded ic.live (h.decisions (ic.responseHeader.values setCookieName) nows)).map mutationOf)
    now
    { ic with
      responseHeader :=
        addLines ((ic.responseHeader.values setCookieName).filter h.forwarded)
          (readControls h (ic.responseHeader.del setCookieName)).2
      live } mem ic' w'.mem

theorem processLocked_alone (ic : Interceptor) (unrevoked : ic.revokeRequested = false) :
    Alone faults t
      (fun result w' => result.1 = .ok () →
        ∃ nows live mem now, ProcessedOk h t ic w nows live mem now result.2 w')
      (ic.processLocked h) w := by
  unfold processLocked
  dsimp only
  rw [if_neg (by simp [unrevoked])]
  refine alone_bind (sortCookies_alone _ _ _) fun result w₁ sorted => ?_
  obtain ⟨result, ic₁⟩ := result
  cases result with
  | error e => exact fun same => by cases same
  | ok mutations =>
      obtain ⟨nows, added, rfl, sorting⟩ := sorted _ rfl
      dsimp only at sorting ⊢
      have passed := sorting.passed
      split_ifs with wants
      · refine alone_bind ic₁.ensureLive_alone fun result w₂ begun => ?_
        obtain ⟨result, ic₂⟩ := result
        cases result with
        | error e => exact fun same => by cases same
        | ok done =>
            obtain ⟨l, same, provided, unread, -⟩ := begun rfl
            dsimp only at same
            subst same
            rw [Bool.and_eq_true, Option.isNone_iff_eq_none] at wants
            have before := sorting.provided
            rw [wants.1] at before provided
            obtain ⟨none, unneeded, mem⟩ := before.of_none
            have minted := sorting.unminted (wants.1.trans none.symm)
            dsimp only at none
            rw [mem, minted] at provided
            refine (commitControls_alone _ _ _).weaken fun result w' done same => ?_
            obtain ⟨now, concludes, unread', noted⟩ := done same
            refine ⟨nows, some l, w₂.mem, now, by rw [unread', unread, sorting.readings],
              sorting.count, ?_, noted, ?_⟩
            · rw [none, unneeded]
              simpa [controls, wants.2] using provided
            · rw [passed, sorting.added] at concludes
              exact concludes
      · refine (ic₁.commitControls_alone _ _).weaken fun result w' done same => ?_
        obtain ⟨now, concludes, unread, noted⟩ := done same
        refine ⟨nows, ic₁.live, w₁.mem, now, by rw [unread, sorting.readings], sorting.count,
          sorting.provided.widen fun none => ?_, noted, ?_⟩
        · simpa [controls, none] using wants
        · rw [passed, sorting.added] at concludes
          exact concludes

/-- Running `process` alone: the session's lock is taken before the response is handled, and
released after it. -/
def Processed (h : Handler) (t : Nat) (ic : Interceptor) (w : World) (nows : List Int)
    (live : Option Live) (mem : Memory) (now : Int) (ic' : Interceptor) (w' : World) : Prop :=
  ∃ w₁ w₂, Aside t w w₁ ∧ Aside t w₂ w' ∧ (ic.live = none → w₁ = w ∧ w₂ = w') ∧
    ProcessedOk h t (ic.readRevoke h) w₁ nows live mem now ic' w₂

theorem process_alone (ic : Interceptor)
    (unrevoked : (ic.readRevoke h).revokeRequested = false) :
    Alone faults t
      (fun result w' => result.1 = .ok () →
        ∃ nows live mem now, Processed h t ic w nows live mem now result.2 w')
      (ic.process h) w := by
  unfold process
  dsimp only
  rw [unrevoked]
  dsimp only
  have kept : (ic.readRevoke h).live = ic.live := rfl
  cases alive : (ic.readRevoke h).live with
  | none =>
      refine (processLocked_alone _ unrevoked).weaken fun result w' done same => ?_
      obtain ⟨nows, live, mem, now, handled⟩ := done same
      exact ⟨nows, live, mem, now, w, w', .refl t w, .refl t w', fun _ => ⟨rfl, rfl⟩, handled⟩
  | some l =>
      refine withLock_alone h.manager (fun e w' same => by cases same) fun w₁ locked => ?_
      refine (processLocked_alone _ unrevoked).weaken fun result w₂ done w' unlocked same => ?_
      obtain ⟨nows, live, mem, now, handled⟩ := done same
      refine ⟨nows, live, mem, now, w₁, w₂, locked, unlocked, fun none => ?_, handled⟩
      rw [kept, none] at alive
      cases alive

end Interceptor

end Gosestor
