import Gosestor.Proof.Go.Http

/-!
# Cookies written and read back

`Cookie.String` as a list of attributes, what `ParseSetCookie` reads from such a line, and what
`Request.Cookie` reads from the `Cookie` header of a client that sends a cookie back.
-/

namespace Gosestor.Go

open Gosestor.Lib

theorem join_cons (first : GoString) (rest : List GoString) (sep : GoString) :
    join (first :: rest) sep = first ++ rest.flatMap (sep ++ ·) := by
  induction rest generalizing first with
  | nil => simp [join]
  | cons next rest ih =>
      have inner : sep.intercalate (next :: rest) = next ++ rest.flatMap (sep ++ ·) := ih next
      rw [join, List.intercalate_cons_cons, inner, List.flatMap_cons]
      simp

theorem getLast_join (sep : GoString) {parts : List GoString} {b : UInt8}
    (full : ∀ part ∈ parts, part ≠ []) (last : b ∈ (join parts sep).getLast?) :
    ∃ part ∈ parts, b ∈ part := by
  induction parts with
  | nil => simp [join] at last
  | cons first rest ih =>
      cases rest with
      | nil =>
          refine ⟨first, List.mem_cons_self, List.mem_of_getLast? ?_⟩
          simpa [join] using last
      | cons next rest =>
          have filled : join (next :: rest) sep ≠ [] := by
            simp [join_cons, full next (by simp)]
          have later : b ∈ (join (next :: rest) sep).getLast? := by
            rw [join, List.intercalate_cons_cons, ← join,
              List.getLast?_append_of_ne_nil _ filled] at last
            exact last
          obtain ⟨part, member, inside⟩ := ih (fun part member => full part (by simp [member])) later
          exact ⟨part, List.mem_cons_of_mem first member, inside⟩

theorem trimString_join {first : GoString} {rest : List GoString} (sep : GoString)
    (full : ∀ part ∈ first :: rest, part ≠ [])
    (clean : ∀ part ∈ first :: rest, ∀ b ∈ part, isTrimByte b = false) :
    trimString (join (first :: rest) sep) = join (first :: rest) sep := by
  -- The first and the last part have no blank at the ends of the line.
  apply trimString_of_ends
  · intro b starts
    rw [join_cons, List.head?_append_of_ne_nil _ (full first List.mem_cons_self)] at starts
    exact clean first List.mem_cons_self b (List.mem_of_head? starts)
  · intro b ends
    obtain ⟨part, member, inside⟩ := getLast_join sep full ends
    exact clean part member b inside

theorem count_join {sep : UInt8} (other : sep ≠ 32) {first : GoString} {rest : List GoString}
    (clean : ∀ part ∈ first :: rest, sep ∉ part) :
    (join (first :: rest) [sep, 32]).count sep = rest.length := by
  have parts : ∀ part ∈ rest, ([sep, 32] ++ part).count sep = 1 := by
    intro part member
    have free : sep ∉ part := clean part (List.mem_cons_of_mem first member)
    simp [List.count_eq_zero_of_not_mem free, other.symm]
  rw [join_cons, List.count_append, List.count_flatMap,
    List.count_eq_zero_of_not_mem (clean first List.mem_cons_self), Nat.zero_add]
  have ones : rest.map (List.count sep ∘ ([sep, 32] ++ ·)) = rest.map fun _ => 1 :=
    List.map_congr_left parts
  rw [ones]
  simp

/-- The cookie-octets of RFC 6265: a value that is written without quotes and read back as it is. -/
def PlainValue (value : GoString) : Prop := ∀ b ∈ value, validCookieValueByte b ∧ b ≠ 32 ∧ b ≠ 44

theorem plainByte_clean : ∀ b : UInt8, validCookieValueByte b = true → b ≠ 32 →
    isTrimByte b = false := by
  apply forall_byte
  decide +kernel

namespace PlainValue

variable {value : GoString} (plain : PlainValue value)

include plain

theorem valid : value.all validCookieValueByte = true :=
  List.all_eq_true.mpr fun b member => (plain b member).1

theorem clean : ∀ b ∈ value, isTrimByte b = false :=
  fun b member => plainByte_clean b (plain b member).1 (plain b member).2.1

theorem sanitized : sanitizeCookieValue value false = value := by
  have kept : value.filter validCookieValueByte = value :=
    List.filter_eq_self.mpr fun b member => (plain b member).1
  have blank : 32 ∉ value := fun member => (plain 32 member).2.1 rfl
  have comma : 44 ∉ value := fun member => (plain 44 member).2.2 rfl
  simp [sanitizeCookieValue, kept, blank, comma]

theorem pair {name : GoString} (token : isToken name) : IsPair (name, value) := ⟨token, plain.valid⟩

end PlainValue

theorem parseCookieValue_of_valid {value : GoString} (valid : value.all validCookieValueByte = true)
    (allow : Bool) : parseCookieValue value allow = some (value, false) := by
  have unquoted : unquote value = (value, false) := by
    have quote : value.head? ≠ some 34 := by
      intro starts
      have byte := List.all_eq_true.mp valid 34 (List.mem_of_head? starts)
      exact (validCookieValueByte_ne 34 byte).1 rfl
    simp [unquote, quote]
  cases allow with
  | false => simp [parseCookieValue, valid]
  | true => simp [parseCookieValue, unquoted, valid]

theorem writePair_clean {c : GoString × GoString} (token : isToken c.1) (plain : PlainValue c.2) :
    ∀ b ∈ writePair c, isTrimByte b = false := by
  intro b member
  obtain inName | inValue := List.mem_append.mp member
  · exact (isToken_clean token b inName).2.2
  · obtain rfl | inValue := List.mem_cons.mp inValue
    · decide
    · exact plain.clean b inValue

def pathAfter (path part : GoString) : GoString :=
  let part := trimString part
  if part = [] then path
  else
    let (attr, value, _) := cut part 61
    if !isASCII attr then path
    else match parseCookieValue value false with
      | none => path
      | some (value, _) => if toLower attr = lit "path" then value else path

theorem setCookieAttribute_path (parseTime : GoString → Option Int) (c : Cookie) (part : GoString) :
    (setCookieAttribute parseTime c part).path = pathAfter c.path part := by
  have other : lit "expires" ≠ lit "path" := by decide
  unfold setCookieAttribute pathAfter
  dsimp only
  cases parseCookieValue (cut (trimString part) 61).2.1 false with
  | none =>
      dsimp only
      split_ifs <;> rfl
  | some value =>
      dsimp only
      split_ifs with empty wide expires path
      all_goals first | rfl | exact absurd (expires.symm.trans path) other

theorem attributes_path (parseTime : GoString → Option Int) (attributes : List GoString)
    (c : Cookie) : (attributes.foldl (setCookieAttribute parseTime) c).path =
      attributes.foldl pathAfter c.path := by
  induction attributes generalizing c with
  | nil => rfl
  | cons part attributes ih => rw [List.foldl_cons, List.foldl_cons, ih, setCookieAttribute_path]

namespace Cookie

def sameSiteText : SameSite → GoString
  | .lax => lit "SameSite=Lax"
  | .strict => lit "SameSite=Strict"
  | .none => lit "SameSite=None"

variable (c : Cookie)

def attributes : List GoString :=
  (if c.path = [] then [] else [lit "Path=" ++ sanitizeCookiePath c.path]) ++
  (if c.expires = some 1 then [lit "Expires=Thu, 01 Jan 1970 00:00:01 GMT"] else []) ++
  (if c.maxAge < 0 then [lit "Max-Age=0"] else []) ++
  (if c.httpOnly then [lit "HttpOnly"] else []) ++
  (if c.secure then [lit "Secure"] else []) ++
  (c.sameSite.map sameSiteText).toList

variable {c}

theorem string_eq (token : isToken c.name) : c.string =
    join (writePair (c.name, sanitizeCookieValue c.value c.quoted) :: c.attributes) (lit "; ") := by
  have path : lit "; Path=" = lit "; " ++ lit "Path=" := by decide
  have expires : lit "; Expires=Thu, 01 Jan 1970 00:00:01 GMT" =
    lit "; " ++ lit "Expires=Thu, 01 Jan 1970 00:00:01 GMT" := by decide
  have maxAge : lit "; Max-Age=0" = lit "; " ++ lit "Max-Age=0" := by decide
  have httpOnly : lit "; HttpOnly" = lit "; " ++ lit "HttpOnly" := by decide
  have secure : lit "; Secure" = lit "; " ++ lit "Secure" := by decide
  have optional (p : Prop) [Decidable p] (text : GoString) :
      (if p then [text] else []).flatMap (lit "; " ++ ·) = if p then lit "; " ++ text else [] := by
    split_ifs
    · simp
    · rfl
  have located : (if c.path = [] then [] else [lit "Path=" ++ sanitizeCookiePath c.path]).flatMap
      (lit "; " ++ ·) = if c.path = [] then [] else lit "; Path=" ++ sanitizeCookiePath c.path := by
    split_ifs
    · rfl
    · simp [path]
  rw [join_cons, attributes, string, if_neg (by simpa using token)]
  simp only [List.flatMap_append, optional, located, expires, maxAge, httpOnly, secure, writePair,
    List.append_assoc, List.nil_append, List.cons_append]
  -- what is left is the last attribute
  obtain _ | mode := c.sameSite
  · rfl
  · cases mode <;> rfl

theorem attributes_clean {part : GoString} (member : part ∈ c.attributes) : 59 ∉ part := by
  have optional {p : Prop} [Decidable p] {text : GoString} (free : 59 ∉ text)
      (listed : part ∈ if p then [text] else []) : 59 ∉ part := by
    split_ifs at listed
    · rwa [List.mem_singleton.mp listed]
    · cases listed
  simp only [attributes, List.mem_append] at member
  obtain ((((path | expires) | maxAge) | httpOnly) | secure) | sameSite := member
  · split_ifs at path
    · cases path
    · have opening : 59 ∉ lit "Path=" := by decide
      have sanitized : 59 ∉ sanitizeCookiePath c.path := by
        intro inside
        exact absurd (List.mem_filter.mp inside).2 (by decide)
      rw [List.mem_singleton.mp path, List.mem_append, not_or]
      exact ⟨opening, sanitized⟩
  · exact optional (by decide) expires
  · exact optional (by decide) maxAge
  · exact optional (by decide) httpOnly
  · exact optional (by decide) secure
  · obtain ⟨mode, -, rfl⟩ : ∃ mode, c.sameSite = some mode ∧ sameSiteText mode = part := by
      simpa using sameSite
    cases mode <;> decide

section Parse

variable (token : isToken c.name) (plain : PlainValue c.value) (unquoted : c.quoted = false)
  {mode : SameSite} (site : c.sameSite = some mode)

include token plain unquoted

theorem string_pair :
    c.string = join (writePair (c.name, c.value) :: c.attributes) (lit "; ") := by
  rw [string_eq token, unquoted, plain.sanitized]

include site

theorem string_trimmed : trimString c.string = c.string := by
  obtain ⟨front, ends⟩ : ∃ front, c.attributes = front ++ [sameSiteText mode] :=
    ⟨_, by rw [attributes, site]; rfl⟩
  have text : sameSiteText mode ≠ [] ∧ ∀ b ∈ (sameSiteText mode).getLast?, isTrimByte b = false := by
    have last : (sameSiteText mode).getLast?.all (!isTrimByte ·) = true := by
      cases mode <;> decide
    refine ⟨by cases mode <;> decide, fun b ends => ?_⟩
    simpa using (Option.all_eq_true _ _).mp last b ends
  apply trimString_of_ends
  · intro b starts
    rw [string_pair token plain unquoted, join_cons, writePair,
      List.head?_append_of_ne_nil _ (by simp)] at starts
    exact writePair_clean (c := (c.name, c.value)) token plain b (List.mem_of_head? starts)
  · intro b last
    apply text.2 b
    rw [string_pair token plain unquoted, join_cons, ends, List.flatMap_append, List.flatMap_singleton,
      ← List.append_assoc, ← List.append_assoc, List.getLast?_append_of_ne_nil _ text.1] at last
    exact last

/-- What is read from the line that was written. -/
theorem parseSetCookie_string (parseTime : GoString → Option Int) :
    parseSetCookie parseTime c.string = some ((c.attributes.map (32 :: ·)).foldl
      (setCookieAttribute parseTime) { name := c.name, value := c.value }) := by
  have pair : IsPair (c.name, c.value) := plain.pair token
  have parts : split (trimString c.string) 59 =
      writePair (c.name, c.value) :: c.attributes.map (32 :: ·) := by
    have semicolon : lit "; " = [59, 32] := by decide
    rw [string_trimmed token plain unquoted site, string_pair token plain unquoted, semicolon]
    apply split_join_blank (by decide)
    intro part member
    obtain rfl | listed := List.mem_cons.mp member
    · exact pair.semicolonless
    · exact attributes_clean listed
  have trimmed : trimString (writePair (c.name, c.value)) = writePair (c.name, c.value) :=
    trimString_of_clean (writePair_clean token plain)
  simp only [parseSetCookie, parts, trimmed]
  rw [writePair, cut_append pair.equalless]
  simp [trimString_token token, token, parseCookieValue_of_valid plain.valid]

end Parse

theorem path_attributes : (c.attributes.map (32 :: ·)).foldl pathAfter [] =
    if c.path = [] then [] else pathAfter [] (32 :: (lit "Path=" ++ sanitizeCookiePath c.path)) := by
  have optional (p : Prop) [Decidable p] {text : GoString}
      (other : ∀ path, pathAfter path (32 :: text) = path) (path : GoString) :
      ((if p then [text] else []).map (32 :: ·)).foldl pathAfter path = path := by
    split_ifs
    · exact other path
    · rfl
  have site (path : GoString) :
      ((c.sameSite.map sameSiteText).toList.map (32 :: ·)).foldl pathAfter path = path := by
    cases c.sameSite with
    | none => rfl
    | some mode => cases mode <;> rfl
  rw [attributes]
  simp only [List.map_append, List.foldl_append]
  rw [site, optional _ fun _ => rfl, optional _ fun _ => rfl, optional _ fun _ => rfl,
    optional _ fun _ => rfl]
  split_ifs <;> rfl

end Cookie

theorem readCookiePart_blank (filter part : GoString) :
    readCookiePart filter (32 :: part) = readCookiePart filter part := by
  simp only [readCookiePart, trimString_blank]

theorem readCookiePart_writePair {c : GoString × GoString} (token : isToken c.1)
    (plain : PlainValue c.2) (filter : GoString) : readCookiePart filter (writePair c) =
      if filter ≠ [] ∧ filter ≠ c.1 then none else some ⟨c.1, c.2, false⟩ := by
  have pair : IsPair c := plain.pair token
  have filled : writePair c ≠ [] := by simp [writePair]
  have trimmed : trimString (writePair c) = writePair c :=
    trimString_of_clean (writePair_clean token plain)
  simp only [readCookiePart, trimmed, if_neg filled]
  rw [writePair, cut_append pair.equalless]
  simp [trimString_token token, token, parseCookieValue_of_valid plain.valid]

/-- The cookies of a client that sends one `Cookie` line. -/
theorem readCookies_join {h : Header} {pairs : List (GoString × GoString)} (some : pairs ≠ [])
    (sent : GoMap.get h (lit "Cookie") = Option.some [join (pairs.map writePair) (lit "; ")])
    (valid : ∀ c ∈ pairs, isToken c.1 ∧ PlainValue c.2) (few : pairs.length ≤ cookieMaxNum)
    (filter : GoString) : readCookies h filter = pairs.filterMap fun c =>
      if filter ≠ [] ∧ filter ≠ c.1 then none else Option.some ⟨c.1, c.2, false⟩ := by
  have semicolon : lit "; " = [59, 32] := by decide
  have read : (pairs.map writePair).filterMap (readCookiePart filter) = pairs.filterMap fun c =>
      if filter ≠ [] ∧ filter ≠ c.1 then none else Option.some ⟨c.1, c.2, false⟩ := by
    rw [List.filterMap_map]
    apply List.filterMap_congr
    intro c member
    exact readCookiePart_writePair (valid c member).1 (valid c member).2 filter
  cases pairs with
  | nil => exact absurd rfl some
  | cons first rest =>
      have clean : ∀ part ∈ writePair first :: rest.map writePair, 59 ∉ part := by
        intro part member
        rw [← List.map_cons] at member
        obtain ⟨c, listed, rfl⟩ := List.mem_map.mp member
        exact ((valid c listed).2.pair (valid c listed).1).semicolonless
      have trimmed : trimString (join (writePair first :: rest.map writePair) [59, 32]) =
          join (writePair first :: rest.map writePair) [59, 32] := by
        apply trimString_join
        · intro part member
          rw [← List.map_cons] at member
          obtain ⟨c, listed, rfl⟩ := List.mem_map.mp member
          simp [writePair]
        · intro part member
          rw [← List.map_cons] at member
          obtain ⟨c, listed, rfl⟩ := List.mem_map.mp member
          exact writePair_clean (valid c listed).1 (valid c listed).2
      have counted : ¬ (join (writePair first :: rest.map writePair) [59, 32]).count 59 + 1 >
          cookieMaxNum := by
        rw [count_join (by decide) clean, List.length_map]
        simpa using few
      rw [List.map_cons, semicolon] at sent
      simp only [readCookies, sent, Option.getD_some, List.map_cons, List.map_nil, List.sum_cons,
        List.sum_nil, Nat.add_zero, if_neg counted, List.flatMap_cons, List.flatMap_nil,
        List.append_nil, trimmed]
      rw [split_join_blank (by decide) clean, ← read, List.filterMap_cons, List.map_cons,
        List.filterMap_cons, List.filterMap_map]
      simp only [Function.comp_def, readCookiePart_blank]

end Gosestor.Go
