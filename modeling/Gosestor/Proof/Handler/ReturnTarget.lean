import Gosestor.Proof.Go.Http
import Gosestor.Proof.Handler.Denial

/-!
# The request that a return parameter names

The return parameter is the decoded path and the raw query of the denied request. Sent as a request
target it is decoded once more.
-/

namespace Gosestor.Go

theorem unescape_length {query : Bool} {s decoded : GoString}
    (unescaped : unescape query s = some decoded) :
    decoded.length ≤ s.length ∧ (37 ∈ s → decoded.length < s.length) := by
  induction s using unescape.induct generalizing decoded with
  | case1 =>
      cases unescaped
      simp
  | case2 a b rest ih =>
      rw [unescape] at unescaped
      obtain ⟨high, -, unescaped⟩ := Option.bind_eq_some_iff.mp unescaped
      obtain ⟨low, -, unescaped⟩ := Option.bind_eq_some_iff.mp unescaped
      obtain ⟨tail, later, unescaped⟩ := Option.bind_eq_some_iff.mp unescaped
      cases unescaped
      have shorter := (ih later).1
      simp only [List.length_cons]
      omega
  | case3 rest short =>
      rw [unescape.eq_3 query rest short] at unescaped
      cases unescaped
  | case4 b rest notEscape notPercent ih =>
      have plain : b ≠ 37 := notPercent
      rw [unescape_cons query plain] at unescaped
      obtain ⟨tail, later, rfl⟩ := Option.map_eq_some_iff.mp unescaped
      obtain ⟨shorter, strictly⟩ := ih later
      simp only [List.length_cons, List.mem_cons, Ne.symm plain, false_or]
      exact ⟨by omega, fun escape => by have := strictly escape; omega⟩

theorem pathUnescape_self {s : GoString} : pathUnescape s = some s ↔ 37 ∉ s := by
  constructor
  · intro unescaped escape
    exact lt_irrefl _ ((unescape_length unescaped).2 escape)
  · exact unescape_plain

theorem cut_subset (s : GoString) (sep : UInt8) : (cut s sep).1 ⊆ s ∧ (cut s sep).2.1 ⊆ s := by
  obtain ⟨-, pieces⟩ | ⟨before, after, -, rfl, pieces⟩ := cut_cases s sep
  · rw [pieces]
    simp
  · rw [pieces]
    simp

theorem getScheme_subset {s scheme rest : GoString} (found : getScheme s = some (scheme, rest)) :
    rest ⊆ s := by
  have tail : s.dropWhile isSchemeByte ⊆ s := (List.dropWhile_sublist _).subset
  unfold getScheme at found
  dsimp only at found
  split at found
  · rename_i after begins
    split_ifs at found
    · cases found
      rw [begins] at tail
      exact fun b member => tail (List.mem_cons_of_mem 58 member)
    · cases found
      exact List.Subset.refl s
  · cases found
    exact List.Subset.refl s

theorem parseRequestURI_query {target : GoString} {t : Target}
    (sent : parseRequestURI target = some t) :
    t.rawQuery ⊆ target ∧ ∀ b ∈ target, 32 ≤ b ∧ b ≠ 127 := by
  unfold parseRequestURI at sent
  split_ifs at sent with bad star
  · cases sent
    simp only [Bool.or_eq_true, decide_eq_true_eq, List.any_eq_true, not_or, not_exists, not_and] at bad
    exact ⟨List.nil_subset _, fun b member => by simpa using bad.2 b member⟩
  · simp only [Bool.or_eq_true, decide_eq_true_eq, List.any_eq_true, not_or, not_exists, not_and] at bad
    refine ⟨?_, fun b member => by simpa using bad.2 b member⟩
    obtain ⟨⟨scheme, rest⟩, found, sent⟩ := Option.bind_eq_some_iff.mp sent
    have query : (cut rest 63).2.1 ⊆ target :=
      List.Subset.trans (cut_subset rest 63).2 (getScheme_subset found)
    dsimp only at sent
    split_ifs at sent with relative noScheme authority
    · cases sent
      exact query
    all_goals
      obtain ⟨path, -, sent⟩ := Option.bind_eq_some_iff.mp sent
      cases sent
      exact query

theorem readTarget_printable {target : GoString} {t : Target} (sent : readTarget target = some t) :
    t.rawQuery ⊆ target ∧ ∀ b ∈ target, 32 < b ∧ b ≠ 127 := by
  unfold readTarget at sent
  split_ifs at sent with blank
  obtain ⟨query, printable⟩ := parseRequestURI_query sent
  refine ⟨query, fun b member => ?_⟩
  obtain ⟨low, delete⟩ := printable b member
  refine ⟨UInt8.lt_of_le_of_ne low fun same => blank ?_, delete⟩
  rw [same]
  simpa using member

theorem parseRequestURI_rooted {s : GoString} (printable : ∀ b ∈ 47 :: s, 32 ≤ b ∧ b ≠ 127) :
    parseRequestURI (47 :: s) =
      (pathUnescape (cut (47 :: s) 63).1).map fun path => ⟨path, (cut (47 :: s) 63).2.1⟩ := by
  have clean : (47 :: s).any (fun b => b < 32 || b = 127) = false := by
    rw [List.any_eq_false]
    intro b member
    simpa using printable b member
  have star : (47 :: s = lit "*") = False := by
    have literal : lit "*" = [42] := by decide
    simp [literal]
  have scheme : getScheme (47 :: s) = some ([], 47 :: s) := by
    have slash : isSchemeByte 47 = false := by decide +kernel
    simp [getScheme, slash]
  have rooted : hasPrefix (cut (47 :: s) 63).1 (lit "/") = true :=
    hasPrefix_slash_iff.mpr ⟨(cut s 63).1, by simp [cut]⟩
  unfold parseRequestURI
  rw [clean]
  simp only [reduceCtorEq, decide_false, Bool.or_self, Bool.false_eq_true, if_false, star, scheme,
    Option.bind_eq_bind, Option.bind_some, rooted, Bool.not_true, ne_eq, not_true, false_and]
  cases pathUnescape (cut (47 :: s) 63).1 <;> rfl

theorem parseRequestURI_mark (query : GoString) : parseRequestURI (63 :: query) = none := by
  have scheme : getScheme (63 :: query) = some ([], 63 :: query) := by
    have mark : isSchemeByte 63 = false := by decide +kernel
    simp [getScheme, mark]
  have rootless : hasPrefix [] (lit "/") = false := by decide
  have star : 63 :: query ≠ lit "*" := by
    have literal : lit "*" = [42] := by decide
    simp [literal]
  unfold parseRequestURI
  split
  · rfl
  · simp [scheme, cut, rootless]

theorem cut_query {path : GoString} (query : GoString) (plain : 63 ∉ path) :
    cut (if query = [] then path else path ++ lit "?" ++ query) 63 =
      (path, query, decide (query ≠ [])) := by
  have mark : lit "?" = [63] := by decide
  split_ifs with empty
  · rw [cut_of_notMem plain, empty]
    rfl
  · rw [mark, List.append_assoc]
    simpa [empty] using cut_append plain query

end Gosestor.Go

namespace Gosestor.Handler

open Gosestor.Go Gosestor.Lib

def Rereadable (path : GoString) : Prop :=
  path ≠ [] ∧ ∀ b ∈ path, b ≠ 63 ∧ b ≠ 37 ∧ 32 < b ∧ b ≠ 127

theorem mem_returnTo {r : Request} {b : UInt8} (member : b ∈ returnTo r) :
    b ∈ r.path ∨ b = 63 ∨ b ∈ r.rawQuery := by
  have mark : lit "?" = [63] := by decide
  unfold returnTo at member
  split_ifs at member
  · exact .inl member
  · simpa [mark] using member

theorem path_prefix_returnTo (r : Request) : r.path <+: returnTo r := by
  unfold returnTo
  split_ifs
  · exact List.prefix_refl _
  · rw [List.append_assoc]
    exact List.prefix_append _ _

theorem readTarget_eq {s : GoString} (printable : ∀ b ∈ s, 32 < b ∧ b ≠ 127) :
    readTarget s = parseRequestURI s := by
  have blankless : s.contains 32 = false := by
    rw [← Bool.not_eq_true, List.contains_iff_mem]
    exact fun blank => absurd (printable 32 blank).1 (by decide)
  rw [readTarget, blankless, if_neg Bool.false_ne_true]

section Rooted

variable {r : Request} {s : GoString} (rooted : r.path = 47 :: s)

include rooted

theorem returnTo_rooted : ∃ t, returnTo r = 47 :: t := by
  obtain ⟨rest, same⟩ := path_prefix_returnTo r
  rw [rooted] at same
  exact ⟨s ++ rest, same.symm⟩

theorem reread_of_plain (query : ∀ b ∈ r.rawQuery, 32 < b ∧ b ≠ 127) (plain : Rereadable r.path) :
    readTarget (returnTo r) = some ⟨r.path, r.rawQuery⟩ := by
  have printable : ∀ b ∈ returnTo r, 32 < b ∧ b ≠ 127 := by
    intro b member
    obtain inPath | rfl | inQuery := mem_returnTo member
    · exact (plain.2 b inPath).2.2
    · decide
    · exact query b inQuery
  obtain ⟨t, begins⟩ := returnTo_rooted rooted
  have pieces : cut (returnTo r) 63 = (r.path, r.rawQuery, decide (r.rawQuery ≠ [])) :=
    cut_query r.rawQuery fun mark => (plain.2 63 mark).1 rfl
  have decoded : pathUnescape r.path = some r.path :=
    pathUnescape_self.mpr fun escape => (plain.2 37 escape).2.1 rfl
  rw [readTarget_eq printable, begins, parseRequestURI_rooted, ← begins, pieces, decoded]
  · rfl
  · intro b member
    rw [← begins] at member
    exact ⟨UInt8.le_of_lt (printable b member).1, (printable b member).2⟩

theorem plain_of_reread (same : readTarget (returnTo r) = some ⟨r.path, r.rawQuery⟩) :
    Rereadable r.path := by
  obtain ⟨-, printable⟩ := readTarget_printable same
  obtain ⟨t, begins⟩ := returnTo_rooted rooted
  have inside := (path_prefix_returnTo r).subset
  rw [readTarget_eq printable, begins, parseRequestURI_rooted, ← begins] at same
  swap
  · intro b member
    rw [← begins] at member
    exact ⟨UInt8.le_of_lt (printable b member).1, (printable b member).2⟩
  obtain ⟨path, decoded, whole⟩ := Option.map_eq_some_iff.mp same
  obtain ⟨rfl, -⟩ := Target.mk.inj whole
  -- Decoding never lengthens, so the path before the first `?` is all of it.
  have shorter := (unescape_length decoded).1
  have markless : 63 ∉ r.path := by
    intro mark
    obtain ⟨before, after, split, clean⟩ := List.eq_append_cons_of_mem mark
    obtain ⟨rest, whole⟩ := path_prefix_returnTo r
    rw [split, List.append_assoc, List.cons_append] at whole
    rw [← whole, cut_append clean, split] at shorter
    simp only [List.length_append, List.length_cons] at shorter
    omega
  have pieces : cut (returnTo r) 63 = (r.path, r.rawQuery, decide (r.rawQuery ≠ [])) :=
    cut_query r.rawQuery markless
  rw [pieces] at decoded
  have escapeless := pathUnescape_self.mp decoded
  refine ⟨by simp [rooted], fun b member => ⟨?_, ?_, printable b (inside member)⟩⟩
  · rintro rfl
    exact markless member
  · rintro rfl
    exact escapeless member

end Rooted

theorem readTarget_returnTo {r : Request} {target : GoString}
    (sent : readTarget target = some ⟨r.path, r.rawQuery⟩) :
    readTarget (returnTo r) = some ⟨r.path, r.rawQuery⟩ ↔ Rereadable r.path := by
  obtain ⟨inside, printable⟩ := readTarget_printable sent
  have query : ∀ b ∈ r.rawQuery, 32 < b ∧ b ≠ 127 := fun b member => printable b (inside member)
  rw [readTarget_eq printable] at sent
  rcases parseRequestURI_path sent with none | ⟨star, bare⟩ | absolute
  · dsimp only at none
    have unread : readTarget (returnTo r) = Option.none := by
      have mark : lit "?" = [63] := by decide
      rw [returnTo, none, mark, List.nil_append, List.singleton_append, readTarget]
      split_ifs
      all_goals first | rfl | exact parseRequestURI_mark _
    simp [unread, Rereadable, none]
  · dsimp only at star bare
    rw [returnTo, if_pos bare, star, bare]
    refine iff_of_true (by decide +kernel) ⟨by decide, by decide +kernel⟩
  · obtain ⟨s, rooted⟩ := hasPrefix_slash_iff.mp absolute
    exact ⟨plain_of_reread rooted, reread_of_plain rooted query⟩

/-- The return parameter of a redirect decodes to the path and query of the denied request. Sent as
a request target it is read as a request for the same path and query if and only if the path is
not empty and has no `?`, no `%`, no blank and no control byte. -/
theorem return_parameter_names_request_iff {a : Authz} {w : Writer} {r : Request}
    {required : GoString} {header : Header} {rest : Unit → Act Writer}
    (answered : denyAuthz a w r required = .call (.writeHeader 302 header) rest)
    {target : GoString} (sent : readTarget target = some ⟨r.path, r.rawQuery⟩) :
    ∃ value decoded, header.get (lit "Location") = a.endpoint required ++
        separator (a.endpoint required) ++ a.redirectParam ++ lit "=" ++ value ∧
      (∀ b ∈ value, b ≠ 38 ∧ b ≠ 35) ∧ queryUnescape value = some decoded ∧
      (readTarget decoded = some ⟨r.path, r.rawQuery⟩ ↔
        r.path ≠ [] ∧ ∀ b ∈ r.path, b ≠ 63 ∧ b ≠ 37 ∧ 32 < b ∧ b ≠ 127) :=
  ⟨_, returnTo r, denyAuthz_location answered, queryEscape_plain _, queryUnescape_queryEscape _,
    readTarget_returnTo sent⟩

theorem sample_return_parameter_names_request : ∃ header rest value decoded,
    readTarget (lit "/admin/a%23b?x=1&y=%20") = some ⟨lit "/admin/a#b", lit "x=1&y=%20"⟩ ∧
    denyAuthz sampleAuthz {} { browserRequest (lit "/admin/a#b") with rawQuery := lit "x=1&y=%20" }
      (lit "staff") = .call (.writeHeader 302 header) rest ∧
    header.get (lit "Location") = lit "/login?rd=" ++ value ∧ queryUnescape value = some decoded ∧
    readTarget decoded = some ⟨lit "/admin/a#b", lit "x=1&y=%20"⟩ := by
  obtain ⟨header, rest, answered⟩ : ∃ header rest,
      denyAuthz sampleAuthz {}
        { browserRequest (lit "/admin/a#b") with rawQuery := lit "x=1&y=%20" } (lit "staff") =
          .call (.writeHeader 302 header) rest := ⟨_, _, rfl⟩
  have sent : readTarget (lit "/admin/a%23b?x=1&y=%20") =
      some ⟨lit "/admin/a#b", lit "x=1&y=%20"⟩ := by decide +kernel
  obtain ⟨value, decoded, location, -, unescaped, same⟩ :=
    return_parameter_names_request_iff answered sent
  have opening : sampleAuthz.endpoint (lit "staff") ++
      separator (sampleAuthz.endpoint (lit "staff")) ++ sampleAuthz.redirectParam ++ lit "=" =
        lit "/login?rd=" := by decide +kernel
  rw [opening] at location
  exact ⟨header, rest, value, decoded, sent, answered, location, unescaped,
    same.mpr ⟨by decide, by decide +kernel⟩⟩

/-- The escaped `?` of the path comes back as the start of a query. -/
theorem return_parameter_names_other_request :
    Authz.new adminConfig = .ok sampleAuthz ∧
    readTarget (lit "/admin/a%3Fb") = some ⟨lit "/admin/a?b", []⟩ ∧
    ∃ header rest,
      sampleHandler.serveHTTP ⟨false, false⟩ {} (browserRequest (lit "/admin/a?b"))
        (fun _ => .ret none) = .call (.writeHeader 302 header) rest ∧
      header.get (lit "Location") = lit "/login?rd=%2Fadmin%2Fa%3Fb" ∧
      queryUnescape (lit "%2Fadmin%2Fa%3Fb") = some (lit "/admin/a?b") ∧
      readTarget (lit "/admin/a?b") = some ⟨lit "/admin/a", lit "b"⟩ ∧
      readTarget (lit "/admin/a?b") ≠ some ⟨lit "/admin/a?b", []⟩ := by
  refine ⟨rfl, by decide +kernel, _, _, rfl, by decide +kernel, by decide +kernel, by decide +kernel,
    by decide +kernel⟩

end Gosestor.Handler
