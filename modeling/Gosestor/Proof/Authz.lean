import Gosestor.Authz
import Gosestor.Proof.Go.Path

/-!
# The label that a path requires

`new` is inverted into what it checks (`new_ok`), and `required` is the label of the rule with the
longest segment prefix of the path, in whatever order the rules are declared and sorted.
-/

namespace Gosestor.Authz

open Gosestor.Go Gosestor.Lib

structure Sound (rules : List Rule) : Prop where
  rooted : ∀ r ∈ rules, hasPrefix r.path (lit "/") = true
  labelled : ∀ r ∈ rules, r.label ≠ []
  distinct : (rules.map fun r => clean r.path).Nodup

def Rule.cleaned (r : Rule) : Rule := ⟨clean r.path, r.label⟩

theorem compile_ok {rules compiled : List Rule} {seen : List GoString} :
    compile rules seen = .ok compiled ↔
      Sound rules ∧ (∀ r ∈ rules, clean r.path ∉ seen) ∧ compiled = rules.map Rule.cleaned := by
  induction rules generalizing seen compiled with
  | nil =>
      have sound : Sound [] := ⟨by simp, by simp, by simp⟩
      simp [compile, sound, eq_comm]
  | cons r rules ih =>
      unfold compile
      by_cases rooted : hasPrefix r.path (lit "/") = true
      case neg =>
        simp only [rooted, Bool.not_false, if_true, reduceCtorEq, false_iff]
        rintro ⟨sound, -⟩
        exact rooted (sound.rooted r List.mem_cons_self)
      by_cases unlabelled : r.label = []
      case pos =>
        simp only [rooted, unlabelled, Bool.not_true, Bool.false_eq_true, if_false, if_true,
          reduceCtorEq, false_iff]
        rintro ⟨sound, -⟩
        exact sound.labelled r List.mem_cons_self unlabelled
      by_cases repeated : clean r.path ∈ seen
      case pos =>
        simp only [rooted, unlabelled, repeated, Bool.not_true, Bool.false_eq_true, if_false,
          if_true, reduceCtorEq, false_iff]
        rintro ⟨-, new, -⟩
        exact new r List.mem_cons_self repeated
      simp only [rooted, unlabelled, repeated, Bool.not_true, Bool.false_eq_true, if_false]
      constructor
      · intro ok
        cases rest : compile rules (clean r.path :: seen) with
        | error e =>
            rw [rest] at ok
            cases ok
        | ok compiled' =>
            rw [rest] at ok
            cases ok
            obtain ⟨sound, new, rfl⟩ := ih.mp rest
            refine ⟨⟨?_, ?_, ?_⟩, ?_, rfl⟩
            · simpa [rooted] using sound.rooted
            · simpa [unlabelled] using sound.labelled
            · rw [List.map_cons, List.nodup_cons]
              refine ⟨?_, sound.distinct⟩
              intro member
              obtain ⟨s, listed, same⟩ := List.mem_map.mp member
              exact new s listed (by simp [same])
            · intro s member
              rcases List.mem_cons.mp member with rfl | later
              · exact repeated
              · exact fun old => new s later (List.mem_cons_of_mem _ old)
      · rintro ⟨sound, new, rfl⟩
        have fresh := List.nodup_cons.mp sound.distinct
        have rest : compile rules (clean r.path :: seen) = .ok (rules.map Rule.cleaned) := by
          refine ih.mpr ⟨⟨?_, ?_, fresh.2⟩, ?_, rfl⟩
          · exact fun s later => sound.rooted s (List.mem_cons_of_mem r later)
          · exact fun s later => sound.labelled s (List.mem_cons_of_mem r later)
          · intro s later old
            rcases List.mem_cons.mp old with same | old
            · exact fresh.1 (List.mem_map.mpr ⟨s, later, same⟩)
            · exact new s (List.mem_cons_of_mem r later) old
        rw [rest]
        rfl

theorem checkLabels_ok {a : Authz} {labels : List GoString} :
    checkLabels a labels = .ok () ↔ ∀ label ∈ labels, label ≠ anonymous → a.endpoint label ≠ [] := by
  induction labels with
  | nil => simp [checkLabels]
  | cons label labels ih =>
      unfold checkLabels
      split_ifs with bad
      · simp [bad.1, bad.2]
      · have good : label ≠ anonymous → a.endpoint label ≠ [] := fun other none => bad ⟨other, none⟩
        rw [ih, List.forall_mem_cons]
        exact ⟨fun rest => ⟨good, rest⟩, And.right⟩

theorem checkEndpoints_ok {a : Authz} {entries : List (GoString × GoString)} :
    checkEndpoints a entries = .ok () ↔ ∀ e ∈ entries,
      hasPrefix e.2 (lit "/") = true ∧ a.required (cut e.2 63).1 = anonymous := by
  induction entries with
  | nil => simp [checkEndpoints]
  | cons e entries ih =>
      obtain ⟨label, ep⟩ := e
      unfold checkEndpoints
      dsimp only
      split_ifs with relative loops
      · have bad : hasPrefix ep (lit "/") = false := by simpa using relative
        simp [bad]
      · simp [loops]
      · rw [ih]
        have absolute : hasPrefix ep (lit "/") = true := by simpa using relative
        have free : a.required (cut ep 63).1 = anonymous := by simpa using loops
        simp [absolute, free]

def compiled (cfg : Config) : Authz where
  rules := longestFirst (cfg.rules.map Rule.cleaned)
  defaultLabel := if cfg.defaultLabel = [] then anonymous else cfg.defaultLabel
  endpoints := cfg.authEndpoints
  redirectParam := if cfg.redirectParam = [] then lit "rd" else cfg.redirectParam

structure Accepted (cfg : Config) : Prop where
  sound : Sound cfg.rules
  reachable : ∀ label ∈ (compiled cfg).defaultLabel :: (compiled cfg).rules.map Rule.label,
    label ≠ anonymous → (compiled cfg).endpoint label ≠ []
  unguarded : ∀ e ∈ (compiled cfg).endpoints.entries, hasPrefix e.2 (lit "/") = true ∧
    (compiled cfg).required (cut e.2 63).1 = anonymous

theorem new_ok {cfg : Config} {a : Authz} : new cfg = .ok a ↔ Accepted cfg ∧ a = compiled cfg := by
  unfold new
  cases rules : compile cfg.rules [] with
  | error e =>
      constructor
      · intro ok
        cases ok
      · rintro ⟨accepted, -⟩
        rw [compile_ok.mpr ⟨accepted.sound, by simp, rfl⟩] at rules
        cases rules
  | ok cleaned =>
      obtain ⟨sound, -, rfl⟩ := compile_ok.mp rules
      change (do
        checkLabels (compiled cfg) ((compiled cfg).defaultLabel :: (compiled cfg).rules.map Rule.label)
        checkEndpoints (compiled cfg) (compiled cfg).endpoints.entries
        return compiled cfg) = .ok a ↔ _
      cases labels : checkLabels (compiled cfg)
          ((compiled cfg).defaultLabel :: (compiled cfg).rules.map Rule.label) with
      | error e =>
          constructor
          · intro ok
            cases ok
          · rintro ⟨accepted, -⟩
            rw [checkLabels_ok.mpr accepted.reachable] at labels
            cases labels
      | ok _ =>
          cases entries : checkEndpoints (compiled cfg) (compiled cfg).endpoints.entries with
          | error e =>
              constructor
              · intro ok
                cases ok
              · rintro ⟨accepted, -⟩
                rw [checkEndpoints_ok.mpr accepted.unguarded] at entries
                cases entries
          | ok _ =>
              have accepted : Accepted cfg :=
                ⟨sound, checkLabels_ok.mp labels, checkEndpoints_ok.mp entries⟩
              constructor
              · intro ok
                cases ok
                exact ⟨accepted, rfl⟩
              · rintro ⟨-, rfl⟩
                rfl

/-- What a path requires, in terms of segments: the label of the one rule with the longest prefix,
or the default label. -/
def Governs (cfg : Config) (path label : GoString) : Prop :=
  (∃ r ∈ cfg.rules, segments r.path <+: segments path ∧ label = r.label ∧
    ∀ s ∈ cfg.rules, s ≠ r → segments s.path <+: segments path →
      (segments s.path).length < (segments r.path).length) ∨
  (∀ r ∈ cfg.rules, ¬ segments r.path <+: segments path) ∧
    label = (compiled cfg).defaultLabel

theorem Governs.unique {cfg : Config} {path label label' : GoString} (governs : Governs cfg path label)
    (governs' : Governs cfg path label') : label = label' := by
  rcases governs with ⟨r, listed, covers, rfl, longest⟩ | ⟨none, rfl⟩
  · rcases governs' with ⟨s, listed', covers', rfl, longest'⟩ | ⟨none', -⟩
    · by_contra other
      have different : s ≠ r := by
        rintro rfl
        exact other rfl
      have less := longest s listed' different covers'
      have more := longest' r listed different.symm covers
      omega
    · exact absurd covers (none' r listed)
  · rcases governs' with ⟨s, listed', covers', -⟩ | ⟨-, rfl⟩
    · exact absurd covers' (none s listed')
    · rfl

section Required

variable {rules : List Rule} (sound : Sound rules)

include sound

theorem Sound.clean_eq {r : Rule} (listed : r ∈ rules) : clean r.path = absolute (segments r.path) :=
  clean_rooted (sound.rooted r listed)

theorem Sound.covers_iff {r : Rule} (listed : r ∈ rules) (path : GoString) :
    r.cleaned.covers (clean (lit "/" ++ path)) = true ↔ segments r.path <+: segments path := by
  have rooted : hasPrefix (lit "/" ++ path) (lit "/") = true := by simp [hasPrefix]
  rw [clean_rooted rooted, segments_slash, ← absolute_below_iff (fun _ => isSegment_of_mem_segments)
    (fun _ => isSegment_of_mem_segments)]
  simp only [Rule.covers, Rule.cleaned, sound.clean_eq listed, Bool.or_eq_true, decide_eq_true_eq,
    or_assoc]

theorem Sound.eq_of_segments {r s : Rule} (listed : r ∈ rules) (listed' : s ∈ rules)
    (same : segments r.path = segments s.path) : r = s := by
  apply List.inj_on_of_nodup_map sound.distinct listed listed'
  rw [sound.clean_eq listed, sound.clean_eq listed', same]

theorem Sound.longest {order before after : List Rule} {r s : Rule} {path : GoString}
    (split : order = before ++ r.cleaned :: after) (listed : r ∈ rules)
    (sorted : order.Pairwise fun a b => b.path.length ≤ a.path.length)
    (first : ∀ c ∈ before, c.covers (clean (lit "/" ++ path)) = false)
    (found : segments r.path <+: segments path) (listed' : s ∈ rules) (member : s.cleaned ∈ order)
    (different : s ≠ r) (covers : segments s.path <+: segments path) :
    (segments s.path).length < (segments r.path).length := by
  have unequal : segments r.path ≠ segments s.path :=
    fun same => different (sound.eq_of_segments listed listed' same).symm
  rcases List.prefix_or_prefix_of_prefix covers found with below | above
  · have bound := below.length_le
    have ne : (segments s.path).length ≠ (segments r.path).length :=
      fun same => unequal (below.eq_of_length same).symm
    omega
  · have longer := length_absolute_lt (fun _ => isSegment_of_mem_segments) above unequal
    rw [← sound.clean_eq listed, ← sound.clean_eq listed'] at longer
    rw [split] at member sorted
    rcases List.mem_append.mp member with earlier | later
    · have missed := first _ earlier
      rw [(sound.covers_iff listed' path).mpr covers] at missed
      cases missed
    · rcases List.mem_cons.mp later with same | later
      · have samePath : clean s.path = clean r.path := congrArg Rule.path same
        rw [samePath] at longer
        omega
      · have bound := (List.pairwise_cons.mp (List.pairwise_append.mp sorted).2.1).1 _ later
        change (clean s.path).length ≤ (clean r.path).length at bound
        omega

end Required

theorem required_governs {cfg : Config} (sound : Sound cfg.rules) {a : Authz}
    (same : a.rules.Perm (cfg.rules.map Rule.cleaned))
    (sorted : a.rules.Pairwise fun r s => s.path.length ≤ r.path.length)
    (default : a.defaultLabel = (compiled cfg).defaultLabel) (path : GoString) :
    Governs cfg path (a.required path) := by
  have member : ∀ r ∈ cfg.rules, r.cleaned ∈ a.rules :=
    fun r listed => same.mem_iff.mpr (List.mem_map_of_mem listed)
  unfold required
  cases found : a.rules.find? (·.covers (clean (lit "/" ++ path))) with
  | none =>
      right
      refine ⟨fun r listed covers => ?_, default⟩
      have missed := List.find?_eq_none.mp found _ (member r listed)
      exact missed ((sound.covers_iff listed path).mpr covers)
  | some c =>
      left
      obtain ⟨covers, before, after, split, first⟩ := List.find?_eq_some_iff_append.mp found
      have cleaned : c ∈ cfg.rules.map Rule.cleaned := by
        rw [← same.mem_iff, split]
        simp
      obtain ⟨r, listed, rfl⟩ := List.mem_map.mp cleaned
      have below := (sound.covers_iff listed path).mp covers
      refine ⟨r, listed, below, rfl, fun s listed' different covers' => ?_⟩
      refine sound.longest split listed sorted ?_ below listed' (member s listed') different covers'
      intro c earlier
      simpa using first c earlier

theorem longestFirst_perm (rules : List Rule) : (longestFirst rules).Perm rules :=
  List.perm_insertionSort _ rules

theorem longestFirst_sorted (rules : List Rule) :
    (longestFirst rules).Pairwise fun r s => s.path.length ≤ r.path.length := by
  have total : Std.Total fun r s : Rule => s.path.length ≤ r.path.length :=
    ⟨fun r s => le_total s.path.length r.path.length⟩
  have trans : IsTrans Rule fun r s => s.path.length ≤ r.path.length :=
    ⟨fun _ _ _ first second => second.trans first⟩
  exact List.pairwise_insertionSort _ rules

theorem Accepted.governs {cfg : Config} (accepted : Accepted cfg) (path : GoString) :
    Governs cfg path ((compiled cfg).required path) :=
  required_governs accepted.sound (longestFirst_perm _) (longestFirst_sorted _) rfl path

theorem required_mem (a : Authz) (path : GoString) :
    a.required path ∈ a.defaultLabel :: a.rules.map Rule.label := by
  unfold required
  cases found : a.rules.find? (·.covers (clean (lit "/" ++ path))) with
  | none => exact List.mem_cons_self
  | some r =>
      exact List.mem_cons_of_mem _ (List.mem_map_of_mem (List.mem_of_find?_eq_some found))

theorem required_congr {a : Authz} {path path' : GoString}
    (same : clean (lit "/" ++ path) = clean (lit "/" ++ path')) :
    a.required path = a.required path' := by
  unfold required
  rw [same]

theorem Accepted.endpoint {cfg : Config} (accepted : Accepted cfg) {label path : GoString}
    (required : (compiled cfg).required path = label) (guarded : label ≠ anonymous) :
    hasPrefix ((compiled cfg).endpoint label) (lit "/") = true ∧
      (compiled cfg).required (cut ((compiled cfg).endpoint label) 63).1 = anonymous := by
  have listed := required_mem (compiled cfg) path
  rw [required] at listed
  have configured := accepted.reachable label listed guarded
  unfold Authz.endpoint at configured ⊢
  cases found : (compiled cfg).endpoints.get label with
  | none => simp [found] at configured
  | some ep => exact accepted.unguarded (label, ep) (GoMap.mem_entries.mpr found)

theorem governs_self {cfg : Config} (sound : Sound cfg.rules) {r : Rule} (listed : r ∈ cfg.rules)
    {path : GoString} (same : segments r.path = segments path) : Governs cfg path r.label := by
  refine .inl ⟨r, listed, same ▸ List.prefix_refl _, rfl, fun s listed' different covers => ?_⟩
  rw [← same] at covers
  have bound := covers.length_le
  have unequal : (segments s.path).length ≠ (segments r.path).length := by
    intro equal
    exact different (sound.eq_of_segments listed' listed (covers.eq_of_length equal))
  omega

section Permuted

variable {cfg : Config} {order : List Rule} (permuted : order.Perm cfg.rules)

include permuted

theorem Sound.perm (sound : Sound cfg.rules) : Sound order where
  rooted := fun r listed => sound.rooted r (permuted.mem_iff.mp listed)
  labelled := fun r listed => sound.labelled r (permuted.mem_iff.mp listed)
  distinct := (permuted.map _).nodup_iff.mpr sound.distinct

theorem Governs.perm {path label : GoString} :
    Governs { cfg with rules := order } path label ↔ Governs cfg path label := by
  simp only [Governs, permuted.mem_iff, compiled]

theorem Accepted.perm (accepted : Accepted cfg) : Accepted { cfg with rules := order } := by
  have sound : Sound ({ cfg with rules := order } : Config).rules := accepted.sound.perm permuted
  have cleaned : (compiled { cfg with rules := order }).rules.Perm (compiled cfg).rules :=
    (longestFirst_perm _).trans ((permuted.map _).trans (longestFirst_perm _).symm)
  refine ⟨sound, fun label used => ?_, fun e listed => ?_⟩
  · apply accepted.reachable label
    rwa [List.mem_cons, (cleaned.map Rule.label).mem_iff, ← List.mem_cons] at used
  · refine ⟨(accepted.unguarded e listed).1, ?_⟩
    have governs := required_governs sound (longestFirst_perm _) (longestFirst_sorted _) rfl
      (cut e.2 63).1
    rw [((Governs.perm permuted).mp governs).unique (accepted.governs _)]
    exact (accepted.unguarded e listed).2

end Permuted

/-- The required label is that of the rule with the longest segment prefix. Neither the order of
the declarations nor the order that an unstable sort leaves rules of equal length in matters. -/
theorem required_longest_prefix {cfg : Config} {a : Authz} (accepted : new cfg = .ok a)
    {order : List Rule} (permuted : order.Perm cfg.rules) (path : GoString) :
    ∃ b, new { cfg with rules := order } = .ok b ∧ Governs cfg path (b.required path) ∧
      ∀ sorted : List Rule, sorted.Perm b.rules →
        sorted.Pairwise (fun r s => s.path.length ≤ r.path.length) →
        Governs cfg path ({ b with rules := sorted }.required path) := by
  have accepted' := (new_ok.mp accepted).1.perm permuted
  refine ⟨_, new_ok.mpr ⟨accepted', rfl⟩, (Governs.perm permuted).mp (accepted'.governs path), ?_⟩
  intro sorted same descending
  apply (Governs.perm permuted).mp
  exact required_governs (a := { compiled { cfg with rules := order } with rules := sorted })
    accepted'.sound (same.trans (longestFirst_perm _)) descending rfl path

def sampleConfig : Config where
  rules := [⟨lit "/admin/", lit "admin"⟩, ⟨lit "/admin/./public/../help", anonymous⟩]
  defaultLabel := lit "user"
  authEndpoints := (GoMap.set ∅ (lit "admin") (lit "/admin/help")).set (lit "user") (lit "/admin/help?x")

theorem sample_required_longest_prefix :
    ∃ b, new { sampleConfig with rules := sampleConfig.rules.reverse } = .ok b ∧
      Governs sampleConfig (lit "/admin//help/x") (b.required (lit "/admin//help/x")) := by
  obtain ⟨a, accepted⟩ : ∃ a, new sampleConfig = .ok a := ⟨_, rfl⟩
  obtain ⟨b, accepted', governs, -⟩ := required_longest_prefix accepted
    (List.reverse_perm sampleConfig.rules) (lit "/admin//help/x")
  exact ⟨b, accepted', governs⟩

end Gosestor.Authz
