import Gosestor.Handler.Staging
import Gosestor.Proof.History

/-!
# What staging does

Staging makes staging calls only, and a staging function fails exactly when it leaves a mark.
-/

namespace Gosestor

open Gosestor.Go Gosestor.Lib

def Staging : Call → Prop
  | .reserve _ | .release _ | .createTemp | .removeTemp | .fileWrite _ | .fileSeek | .fileCopy _
  | .fileClose | .trip _ => True
  | _ => False

def Deed.isTrip : Deed → Bool
  | ⟨.trip _, _⟩ => true
  | _ => false

def tripped (past : History) : Bool := past.any Deed.isTrip

def Only (P : Call → Prop) (new : History) : Prop := ∀ d ∈ new, P d.1

section Rules

variable {α : Type} {P : Call → Prop} {may : History → Call → Prop} {post : α → History → Prop}
  {past : History} {p : Act α}

theorem only_nil : Only P [] := fun d member => by cases member

theorem Only.cons {d : Deed} {old : History} (newest : P d.1) (only : Only P old) :
    Only P (d :: old) := List.forall_mem_cons.mpr ⟨newest, only⟩

theorem Only.append {new old : History} (first : Only P new) (second : Only P old) :
    Only P (new ++ old) := fun d member =>
  (List.mem_append.mp member).elim (first d) (second d)

theorem Only.mono {Q : Call → Prop} {new : History} (only : Only P new) (imp : ∀ c, P c → Q c) :
    Only Q new := fun d member => imp d.1 (only d member)

theorem obeys_only (imp : ∀ past c, may past c → P c) (obeys : Obeys may post p past) :
    Obeys may (fun a past' => post a past' ∧ ∃ new, past' = new ++ past ∧ Only P new) p past := by
  refine (obeys.frame (fun past' => ∃ new, past' = new ++ past ∧ Only P new) ?_
    ⟨[], rfl, only_nil⟩).mono (fun _ _ h => h.1) fun _ _ h => h
  rintro past' c r past'' allowed ⟨-, rfl⟩ ⟨new, rfl, only⟩
  exact ⟨⟨c, r⟩ :: new, rfl, only.cons (imp _ _ allowed)⟩

theorem obeys_new (obeys : Obeys (fun _ => P) post p past) :
    Obeys (fun _ => P) (fun a past' => post a past' ∧ ∃ new, past' = new ++ past ∧ Only P new)
      p past :=
  obeys_only (fun _ _ allowed => allowed) obeys

theorem obeys_trip {e : Err} {f : Err → Act α} (allowed : may past (.trip e))
    (rest : Obeys may post (f e) (⟨.trip e, ()⟩ :: past)) :
    Obeys may post (trip e >>= f) past :=
  Prog.Wp.bind (obeys_act allowed fun _ _ => rest)

end Rules

namespace StagedBody

variable {past : History} (b : StagedBody)

theorem releaseReserved_obeys (n : Int) :
    Obeys (fun _ => Staging)
      (fun b' past' => tripped past' = tripped past ∧ b' = { b with reserved := b.reserved - n })
      (b.releaseReserved n) past := by
  unfold releaseReserved
  split_ifs with zero
  · subst zero
    exact ⟨rfl, by simp⟩
  · exact obeys_act trivial fun _ _ => ⟨rfl, rfl⟩

theorem closeFile_obeys (unlinked : Bool) :
    Obeys (fun _ => Staging) (fun _ past' => tripped past' = tripped past)
      (closeFile unlinked) past := by
  refine obeys_act trivial fun closeErr _ => ?_
  split_ifs with removed
  · rfl
  · exact obeys_act trivial fun removed _ => rfl

theorem close_obeys :
    Obeys (fun _ => Staging) (fun _ past' => tripped past' = tripped past) b.close past := by
  unfold close
  cases b.file with
  | none => exact Prog.Wp.bind ((releaseReserved_obeys _ _).weaken fun _ _ h => h.1)
  | some f =>
      refine Prog.Wp.bind ((closeFile_obeys _).weaken fun err past' quiet => ?_)
      refine Prog.Wp.bind ((releaseReserved_obeys _ _).weaken fun _ _ h => ?_)
      exact h.1.trans quiet

theorem reset_obeys :
    Obeys (fun _ => Staging) (fun _ past' => tripped past' = tripped past) b.reset past :=
  Prog.Wp.bind (b.close_obeys.weaken fun _ _ h => h)

theorem writeFile_obeys (f : SpoolFile) (p : List UInt8) :
    Obeys (fun _ => Staging)
      (fun result past' => tripped past' = (tripped past || result.1.2.isSome))
      (b.writeFile f p) past := by
  refine obeys_act trivial fun written _ => ?_
  obtain ⟨n, err⟩ := written
  refine Prog.Wp.bind ((releaseReserved_obeys _ _).weaken fun b' past' h => ?_)
  obtain ⟨quiet, -⟩ := h
  cases err with
  | none => exact quiet.trans (Bool.or_false _).symm
  | some e => exact obeys_trip trivial (Bool.or_true _).symm

theorem spill_obeys (p : List UInt8) :
    Obeys (fun _ => Staging)
      (fun result past' => tripped past' = (tripped past || result.1.2.isSome))
      (b.spill p) past := by
  refine obeys_act trivial fun created _ => ?_
  cases created with
  | some e =>
      refine Prog.Wp.bind ((releaseReserved_obeys _ _).weaken fun _ _ _ => ?_)
      exact obeys_trip trivial (Bool.or_true _).symm
  | none =>
      refine obeys_act trivial fun unlinked _ => ?_
      refine obeys_act trivial fun written _ => ?_
      obtain ⟨n, err⟩ := written
      cases err with
      | some e =>
          refine Prog.Wp.bind ((close_obeys _).weaken fun _ _ _ => ?_)
          exact obeys_trip trivial (Bool.or_true _).symm
      | none => exact writeFile_obeys _ _ p

theorem write_obeys (p : List UInt8) :
    Obeys (fun _ => Staging)
      (fun result past' => tripped past' = (tripped past || result.1.2.isSome))
      (b.write p) past := by
  unfold write
  split_ifs with large
  · exact obeys_trip trivial (Bool.or_true _).symm
  · refine obeys_act trivial fun reserved _ => ?_
    cases reserved with
    | false => exact obeys_trip trivial (Bool.or_true _).symm
    | true =>
        dsimp only
        cases b.file with
        | some f => exact writeFile_obeys _ f p
        | none =>
            dsimp only
            split_ifs with fits
            · exact (Bool.or_false _).symm
            · exact spill_obeys _ p

def Valid : Prop := b.file = none ∨ b.validated = true

theorem validate_obeys :
    Obeys (fun _ => Staging)
      (fun result past' => tripped past' = (tripped past || result.1.isSome) ∧
        (result.1 = none → result.2.Valid))
      b.validate past := by
  unfold validate
  cases spooled : b.file with
  | none => exact ⟨(Bool.or_false _).symm, fun _ => .inl spooled⟩
  | some f =>
      dsimp only
      split_ifs with validated
      · exact ⟨(Bool.or_false _).symm, fun _ => .inr validated⟩
      · refine obeys_act trivial fun sought _ => ?_
        cases sought with
        | some e => exact obeys_trip trivial ⟨(Bool.or_true _).symm, fun h => by cases h⟩
        | none =>
            refine obeys_act trivial fun copied _ => ?_
            obtain ⟨n, err⟩ := copied
            cases err with
            | some e => exact obeys_trip trivial ⟨(Bool.or_true _).symm, fun h => by cases h⟩
            | none =>
                dsimp only
                split_ifs with short
                · exact obeys_trip trivial ⟨(Bool.or_true _).symm, fun h => by cases h⟩
                · refine obeys_act trivial fun sought _ => ?_
                  cases sought with
                  | some e => exact obeys_trip trivial ⟨(Bool.or_true _).symm, fun h => by cases h⟩
                  | none => exact ⟨(Bool.or_false _).symm, fun _ => .inr rfl⟩

end StagedBody

end Gosestor
