import Gosestor.Proof.Go.SetCookie
import Gosestor.Proof.Handler.Batch
import Gosestor.Proof.Handler.Dealings
import Gosestor.Proof.Handler.Upstream

/-!
# Cookie values on their way to the backend

A value that a backend set and a session kept, and a value that a client sent, reach the backend as
the octets they were, unless they stood in double quotes: net/http takes the quotes off, and they
are not put on again. A kept value is also sent with the blanks it began with.
-/

namespace Gosestor.Go

open Gosestor.Lib

/-! ## The octets of a value -/

/-- What a user agent sends back for a Set-Cookie line: the octets between the first equals sign and
the first semicolon, without white space around them. -/
def rawValue (line : GoString) : GoString := trimString (cut (cut line 59).1 61).2.1

theorem cut_of_split {s first : GoString} {rest : List GoString} {sep : UInt8}
    (parts : split s sep = first :: rest) : (cut s sep).1 = first := by
  induction s generalizing first rest with
  | nil =>
      cases parts
      rfl
  | cons b s ih =>
      rw [split, List.splitOn_cons_eq_if_modifyHead] at parts
      rw [cut]
      by_cases same : b = sep
      · rw [if_pos same]
        simp only [same, BEq.rfl, if_true] at parts
        exact (List.cons.inj parts).1
      · rw [if_neg same]
        simp only [beq_iff_eq, same, if_false] at parts
        cases pieces : s.splitOn sep with
        | nil => simp [pieces] at parts
        | cons piece pieces' =>
            rw [pieces, List.modifyHead_cons] at parts
            obtain ⟨rfl, -⟩ := List.cons.inj parts
            exact congrArg (b :: ·) (ih pieces)

theorem head_dropWhile {s : GoString} {b : UInt8} (first : b ∈ (s.dropWhile isTrimByte).head?) :
    isTrimByte b = false := by
  have none := List.head?_dropWhile_not isTrimByte s
  rw [Option.mem_def.mp first] at none
  simpa using none

theorem ends_trimString (s : GoString) :
    (∀ b ∈ (trimString s).head?, isTrimByte b = false) ∧
      ∀ b ∈ (trimString s).getLast?, isTrimByte b = false := by
  constructor
  · intro b first
    have kept : trimString s <+: s.dropWhile isTrimByte := by
      have dropped := List.dropWhile_suffix isTrimByte (l := (s.dropWhile isTrimByte).reverse)
      simpa [trimString] using List.reverse_prefix.mpr dropped
    refine head_dropWhile (s := s) ?_
    obtain ⟨rest, same⟩ := kept
    rw [← same]
    cases trimmed : trimString s with
    | nil => simp [trimmed] at first
    | cons c s' => simpa [trimmed] using first
  · intro b last
    rw [trimString, List.getLast?_reverse] at last
    exact head_dropWhile last

theorem trimByte_ne {sep : UInt8} (solid : isTrimByte sep = false) {s : GoString}
    (blank : ∀ b ∈ s, isTrimByte b = true) : sep ∉ s := fun member =>
  Bool.false_ne_true (solid.symm.trans (blank sep member))

theorem cut_untrimmed {s first rest : GoString} {sep : UInt8} (solid : isTrimByte sep = false)
    (found : cut (trimString s) sep = (first, rest, true)) : ∃ before after,
      (∀ b ∈ before, isTrimByte b = true) ∧ (∀ b ∈ after, isTrimByte b = true) ∧
      cut s sep = (before ++ first, rest ++ after, true) := by
  -- A separator of the trimmed string is found where it stood, with the blanks around.
  obtain ⟨before, after, left, right, same⟩ := exists_trimString s
  obtain ⟨-, absent⟩ | ⟨first', rest', clean, split, found'⟩ := cut_cases (trimString s) sep
  · cases absent.symm.trans found
  · cases found'.symm.trans found
    have whole : s = (before ++ first) ++ sep :: (rest ++ after) := by
      rw [same, split]
      simp
    have clean' : sep ∉ before ++ first := by simp [clean, trimByte_ne solid left]
    exact ⟨before, after, left, right, by rw [whole, cut_append clean']⟩

theorem trimString_cut (s : GoString) {sep : UInt8} (solid : isTrimByte sep = false) :
    trimString (cut (trimString s) sep).1 = trimString (cut s sep).1 := by
  -- Trimming a line first makes no difference to its trimmed first part.
  rcases found : cut (trimString s) sep with ⟨first, rest, whether⟩
  cases whether with
  | true =>
      obtain ⟨before, after, left, -, same⟩ := cut_untrimmed solid found
      rw [same]
      simpa using (trimString_append left (List.forall_mem_nil _) first).symm
  | false =>
      obtain ⟨before, after, left, right, same⟩ := exists_trimString s
      obtain ⟨clean, whole⟩ | ⟨first', rest', -, -, found'⟩ := cut_cases (trimString s) sep
      · cases whole.symm.trans found
        have clean' : sep ∉ s := by
          rw [same]
          simp [clean, trimByte_ne solid left, trimByte_ne solid right]
        rw [cut_of_notMem clean']
        conv_rhs => rw [same]
        exact (trimString_append left right _).symm
      · cases found'.symm.trans found

/-- What the parser reads as the value of a line, and the octets that stand there. -/
theorem parseSetCookie_raw {parseTime : GoString → Option Int} {line : GoString} {c : Cookie}
    (parsed : parseSetCookie parseTime line = some c) : ∃ raw,
    rawValue line = trimString raw ∧ (∀ b ∈ raw.getLast?, isTrimByte b = false) ∧
      parseCookieValue raw true = some (c.value, c.quoted) := by
  obtain ⟨head, attributes, name, raw, parts, pair, -, -, value⟩ := parseSetCookie_some parsed
  refine ⟨raw, ?_, ?_, value⟩
  · have trimmed : trimString head = trimString (cut line 59).1 := by
      rw [← cut_of_split parts]
      exact trimString_cut line (by decide)
    rw [trimmed] at pair
    obtain ⟨before, after, -, right, same⟩ := cut_untrimmed (by decide) pair
    rw [rawValue, same]
    simpa using trimString_append (List.forall_mem_nil _) right raw
  · intro b last
    obtain ⟨-, absent⟩ | ⟨first, rest, -, split, found⟩ := cut_cases (trimString head) 61
    · cases absent.symm.trans pair
    · cases found.symm.trans pair
      refine (ends_trimString head).2 b ?_
      cases raw with
      | nil => cases last
      | cons c raw =>
          rw [split, List.getLast?_append_of_ne_nil _ (by simp), List.getLast?_cons_cons]
          exact last

theorem unquote_cases (raw : GoString) : unquote raw = (raw, false) ∨
    ∃ value, unquote raw = (value, true) ∧ raw = 34 :: value ++ [34] := by
  unfold unquote
  split_ifs with ends
  · obtain ⟨long, first, last⟩ := ends
    cases raw with
    | nil => cases first
    | cons b raw =>
        cases first
        refine .inr ⟨raw.dropLast, rfl, ?_⟩
        cases raw with
        | nil => simp at long
        | cons c raw =>
            rw [List.getLast?_cons_cons] at last
            rw [List.cons_append, List.dropLast_append_getLast? 34 last]
  · exact .inl rfl

theorem parseCookieValue_cases {raw value : GoString} {quoted : Bool}
    (parsed : parseCookieValue raw true = some (value, quoted)) :
    (quoted = false ∧ raw = value) ∨ (quoted = true ∧ raw = 34 :: value ++ [34]) := by
  simp only [parseCookieValue, if_true, Option.ite_none_right_eq_some] at parsed
  obtain ⟨-, parsed⟩ := parsed
  obtain same | ⟨inner, same, whole⟩ := unquote_cases raw
  · rw [same] at parsed
    cases parsed
    exact .inl ⟨rfl, rfl⟩
  · rw [same] at parsed
    cases parsed
    exact .inr ⟨rfl, whole⟩

/-- The parsed value has the octets of the line if it did not stand in quotes or behind a blank. -/
theorem value_eq_rawValue_iff {parseTime : GoString → Option Int} {line : GoString} {c : Cookie}
    (parsed : parseSetCookie parseTime line = some c) :
    c.value = rawValue line ↔ c.quoted = false ∧ c.value.head? ≠ some 32 := by
  obtain ⟨raw, octets, last, value⟩ := parseSetCookie_raw parsed
  have valid := parseCookieValue_valid value
  rw [octets]
  obtain ⟨unquoted, rfl⟩ | ⟨quoted, same⟩ := parseCookieValue_cases value
  · constructor
    · intro same
      refine ⟨unquoted, fun blank => ?_⟩
      have clean := (ends_trimString c.value).1
      rw [← same] at clean
      exact absurd (clean 32 blank) (by decide)
    · rintro ⟨-, solid⟩
      refine (trimString_of_ends (fun b first => ?_) last).symm
      refine plainByte_clean b (List.all_eq_true.mp valid b (List.mem_of_head? first)) ?_
      rintro rfl
      exact solid first
  · have whole : trimString raw = raw := by
      refine trimString_of_ends (fun b first => ?_) last
      rw [same] at first
      cases first
      decide
    constructor
    · intro shorter
      have lengths := congrArg List.length (shorter.trans (whole.trans same))
      simp only [List.length_append, List.length_cons, List.length_nil] at lengths
      omega
    · rintro ⟨unquoted, -⟩
      cases unquoted.symm.trans quoted

end Gosestor.Go

namespace Gosestor

open Gosestor.Go Gosestor.Lib Gosestor.Session

/-! ## What a response leaves of a line -/

section Lines

variable {h : Handler} {lines : List GoString} {nows : List Int} {line name : GoString}
  {cookie : Cookie} {cookies : GoMap GoString GoString}

theorem stored_of_decision {d : Cookie × Bool} (decided : d ∈ h.decisions lines nows) :
    ∃ line ∈ lines, h.stored line = some d.1 := by
  induction lines generalizing nows with
  | nil => cases decided
  | cons line lines ih =>
      have later : ∀ {nows}, d ∈ h.decisions lines nows →
          ∃ line' ∈ line :: lines, h.stored line' = some d.1 := by
        intro nows decided
        obtain ⟨line', member, stored⟩ := ih decided
        exact ⟨line', List.mem_cons_of_mem line member, stored⟩
      rw [Handler.decisions] at decided
      cases stored : h.stored line with
      | none =>
          rw [stored] at decided
          exact later decided
      | some cookie =>
          cases nows with
          | nil => simp [stored] at decided
          | cons now nows =>
              simp only [stored, List.mem_cons] at decided
              obtain rfl | decided := decided
              · exact ⟨line, List.mem_cons_self, stored⟩
              · exact later decided

theorem foldl_keepCookie_other {decided : List (Cookie × Bool)}
    (others : ∀ d ∈ decided, d.1.name ≠ name) :
    (decided.foldl keepCookie cookies).get name = cookies.get name := by
  induction decided generalizing cookies with
  | nil => rfl
  | cons d decided ih =>
      have other : name ≠ d.1.name := (others d List.mem_cons_self).symm
      rw [List.foldl_cons, ih fun d' member => others d' (List.mem_cons_of_mem d member)]
      obtain ⟨cookie, deletes⟩ := d
      cases deletes with
      | true => exact GoMap.get_delete_of_ne other
      | false => exact GoMap.get_set_of_ne other

theorem foldl_keepCookie_deletes {decided : List (Cookie × Bool)}
    (deletes : ∀ d ∈ decided, d.2 = true) : decided.foldl keepCookie ∅ = ∅ := by
  induction decided with
  | nil => rfl
  | cons d decided ih =>
      obtain ⟨cookie, gone⟩ := d
      obtain rfl : gone = true := deletes (cookie, gone) List.mem_cons_self
      exact ih fun d member => deletes d (List.mem_cons_of_mem _ member)

theorem foldl_keepCookie_isPair {decided : List (Cookie × Bool)}
    (valid : ∀ d ∈ decided, IsPair (d.1.name, d.1.value))
    (before : ∀ name value, cookies.get name = some value → IsPair (name, value)) :
    ∀ name value, (decided.foldl keepCookie cookies).get name = some value →
      IsPair (name, value) := by
  induction decided generalizing cookies with
  | nil => exact before
  | cons d decided ih =>
      refine ih (fun d' member => valid d' (List.mem_cons_of_mem d member)) fun name value held => ?_
      have pair := valid d List.mem_cons_self
      obtain ⟨cookie, deletes⟩ := d
      cases deletes with
      | true =>
          rw [keepCookie, GoMap.get_delete] at held
          split_ifs at held
          exact before name value held
      | false =>
          rw [keepCookie, GoMap.get_set] at held
          split_ifs at held with same
          · cases held
            rw [same]
            exact pair
          · exact before name value held

/-- Of the lines of a response, read at the times `readings`, this one decides on a cookie that the
session keeps. -/
structure Decides (h : Handler) (lines : List GoString) (readings : List Int) (line : GoString)
    (cookie : Cookie) : Prop where
  stored : h.stored line = some cookie
  kept : ∀ now ∈ readings, cookieDeletesNow line cookie now = false
  last : ∃ before after, lines = before ++ line :: after ∧
    ∀ line' ∈ after, ∀ cookie', h.stored line' = some cookie' → cookie'.name ≠ cookie.name

theorem Decides.held (decides : Decides h lines nows line cookie)
    (count : nows.length = (lines.filterMap h.stored).length) :
    ((h.decisions lines nows).foldl keepCookie cookies).get cookie.name = some cookie.value := by
  obtain ⟨before, after, rfl, last⟩ := decides.last
  have kept := decides.kept
  have stored := decides.stored
  clear decides
  induction before generalizing nows cookies with
  | nil =>
      cases nows with
      | nil => simp [stored] at count
      | cons now nows =>
          rw [List.nil_append, Handler.decisions]
          simp only [stored, kept now List.mem_cons_self, List.foldl_cons]
          rw [foldl_keepCookie_other, keepCookie, GoMap.get_set_self]
          intro d decided
          obtain ⟨line', member, stored'⟩ := stored_of_decision decided
          exact last line' member d.1 stored'
  | cons line' before ih =>
      rw [List.cons_append, Handler.decisions]
      cases stored' : h.stored line' with
      | none =>
          refine ih ?_ kept
          simpa [stored'] using count
      | some cookie' =>
          cases nows with
          | nil => simp [stored'] at count
          | cons now nows =>
              dsimp only
              rw [List.foldl_cons]
              refine ih ?_ fun now' member => kept now' (List.mem_cons_of_mem now member)
              simpa [stored'] using count

end Lines

/-! ## The next request of the session -/

theorem Exchange.resolvePresented_alone (x : Exchange) {faults : Fault → Bool} {t : Nat} {w : World} :
    Alone faults t
      (fun result w' => ∀ p l, result = .ok p → p.live = some l → ∃ key, x.presented = some key ∧
        Finds key w.mem l w'.mem)
      (x.handler.resolvePresented x.stripped) w := by
  unfold Handler.resolvePresented Exchange.presented
  cases x.handler.presentedKey x.stripped with
  | none =>
      rintro p l ⟨⟩ alive
      cases alive
  | some key =>
      refine alone_bind (resolve_alone x.handler.manager key) fun result w₁ finds => ?_
      cases result with
      | ok live =>
          rintro p l ⟨⟩ alive
          exact ⟨key, rfl, finds l (congrArg Except.ok alive)⟩
      | error e =>
          dsimp only
          split_ifs
          · rintro p l ⟨⟩
          · rintro p l ⟨⟩ alive
            cases alive

theorem Once.unique {r : Request} {name value value' : GoString} (first : Once r name value)
    (second : Once r name value') : value = value' := by
  obtain ⟨line, header, pairs⟩ := first
  obtain ⟨line', header', pairs'⟩ := second
  cases header.symm.trans header'
  cases pairs.symm.trans pairs'
  rfl

theorem once_iff_kept {x : Exchange} {p : Handler.Presented} {l : Live} {name value v : GoString}
    (alive : p.live = some l) (valid : ∀ name value, l.cookies.get name = some value →
      IsPair (name, value)) (held : l.cookies.get name = some value)
    (listed : name ∈ x.handler.filter.store) :
    Once (x.handler.upstream x.stripped p) name v ↔ value = v := by
  have keeps : x.handler.keeps name = true := by
    simp [Handler.keeps, Filter.decide, listed]
  have once : Once (x.handler.upstream x.stripped p) name value := by
    rw [Handler.upstream, alive, Option.map_some, Option.getD_some]
    exact (x.handler.once_iff x.stripped (fun c member => valid c.1 c.2 (GoMap.mem_entries.mp member))
      held).mpr (.inl keeps)
  constructor
  · exact fun other => once.unique other
  · rintro rfl
    exact once

theorem Handler.stored_isPair {h : Handler} {line : GoString} {cookie : Cookie}
    (stored : h.stored line = some cookie) : IsPair (cookie.name, cookie.value) :=
  parseSetCookie_isPair (Handler.stored_iff.mp stored).1

theorem getCookies_isPair {visit : Nat → Visit} {c : Machine (Option (Ended × Writer))}
    (run : (traffic visit).Reaches quietStart c) (sid : GoString) {name value : GoString}
    (held : (c.state.mem.getCookies sid).get name = some value) : IsPair (name, value) := by
  have stocked := (traffic_furnished run).stocked
  rw [Store.Memory.getCookies] at held
  cases table : c.state.mem.cookies.get sid with
  | none => simp [table] at held
  | some cached =>
      rw [table] at held
      exact stocked.cookies table held

/-! ## The client's own pairs -/

def cookieParts (r : Request) : List GoString :=
  ((GoMap.get r.header (lit "Cookie")).getD []).flatMap fun line => split (trimString line) 59

def partValue (part : GoString) : GoString := (cut (trimString part) 61).2.1

theorem readCookiePart_raw {part : GoString} {c : RequestCookie}
    (read : readCookiePart [] part = some c) :
    parseCookieValue (partValue part) true = some (c.value, c.quoted) := by
  simp only [readCookiePart] at read
  split_ifs at read with empty token named
  cases parsed : parseCookieValue (cut (trimString part) 61).2.1 true with
  | none => simp [parsed] at read
  | some value =>
      simp only [parsed, Option.some.injEq] at read
      subst read
      exact parsed

/-- A pair that the client may send goes upstream with its octets, unless they stand in quotes. -/
theorem Handler.client_value_iff (h : Handler) (r : Request) {cached : GoMap GoString GoString}
    (stored : ∀ c ∈ cached.entries, IsPair c) {part : GoString} {c : RequestCookie}
    (read : readCookiePart [] part = some c) (accepted : c ∈ readCookies r.header [])
    (unmanaged : h.keeps c.name = false) :
    (∃ line, GoMap.get (h.prepareUpstreamCookies r cached).header (lit "Cookie") = some [line] ∧
      (c.name, partValue part) ∈ readPairs line) ↔ c.quoted = false := by
  have own : (c.name, c.value) ∈ h.upstreamPairs r cached := by
    refine List.mem_append_left _ (List.mem_map.mpr ⟨c, List.mem_filter.mpr ⟨accepted, ?_⟩, rfl⟩)
    simp [unmanaged]
  obtain ⟨line, header, pairs, -⟩ :=
    (h.upstream_cookies r stored).2.1 (List.ne_nil_of_mem own)
  obtain ⟨unquoted, octets⟩ | ⟨quoted, octets⟩ := parseCookieValue_cases (readCookiePart_raw read)
  · refine ⟨fun _ => unquoted, fun _ => ⟨line, header, ?_⟩⟩
    rw [pairs, octets]
    exact own
  · constructor
    · rintro ⟨line', header', member⟩
      cases header.symm.trans header'
      rw [pairs] at member
      have pair : IsPair (c.name, partValue part) := by
        obtain client | server := List.mem_append.mp member
        · exact (h.clientPairs_isPair client).1
        · exact stored _ server
      have quote : 34 ∈ partValue part := by simp [octets]
      exact absurd rfl (validCookieValueByte_ne 34 (List.all_eq_true.mp pair.value 34 quote)).1
    · intro unquoted
      cases unquoted.symm.trans quoted

/-- A value that the session keeps and a value that the client sends go upstream with their octets
if and only if they did not stand in quotes, nor a kept one behind a blank. -/
theorem cookie_values_unchanged_iff {visit : Nat → Visit} {c : Machine (Option (Ended × Writer))}
    (reached : (traffic visit).Reaches quietStart c) :
    (∀ (h : Handler) (ic ic' : Interceptor) (t : Nat) (w : World),
      (ic.readRevoke h).revokeRequested = false →
      (ic.process h).Run (exec anyFaults t) c.state (.ok (), ic') w →
      ∀ line cookie, Decides h (h.heard ic.responseHeader).lines (walls t w) line cookie →
      ∃ l', ic'.live = some l' ∧ ∀ (x : Exchange) (u : Nat) (p : Handler.Presented) (l : Live)
        (key : GoString) (w₁ : World), cookie.name ∈ x.handler.filter.store →
        x.presented = some key → w.mem.keys.get key = some l'.sessionID →
        (x.handler.resolvePresented x.stripped).Run (exec anyFaults u) w (.ok p) w₁ →
        p.live = some l →
        (Once (x.handler.upstream x.stripped p) cookie.name (rawValue line) ↔
          cookie.quoted = false ∧ cookie.value.head? ≠ some 32)) ∧
    ∀ (t : Nat) (x : Exchange) (r : Request), visit t = .request x →
      (⟨.next r, ()⟩ : Deed) ∈ own t c.state → ∀ part ∈ cookieParts x.stripped, ∀ cookie,
      readCookiePart [] part = some cookie → cookie ∈ readCookies x.stripped.header [] →
      x.handler.keeps cookie.name = false →
      ((∃ line, GoMap.get r.header (lit "Cookie") = some [line] ∧
        (cookie.name, partValue part) ∈ readPairs line) ↔ cookie.quoted = false) := by
  constructor
  · intro h ic ic' t w unrevoked processed line cookie decides
    obtain ⟨nows, live, mem, now, done⟩ := (ic.process_alone unrevoked).run processed rfl
    have batched := done.batched (traffic_good reached).inv.inv
    have timely : Decides h (h.heard ic.responseHeader).lines nows line cookie :=
      { decides with
        kept := fun now member => decides.kept now (by simp [done.readings, member]) }
    have count := done.count
    cases alive : ic'.live with
    | none =>
        have held : (List.foldl keepCookie ∅ _).get cookie.name = some cookie.value :=
          timely.held count
        rw [foldl_keepCookie_deletes (batched.unminted alive)] at held
        cases held
    | some l' =>
        refine ⟨l', rfl, fun x u p l key w₁ listed presented maps resolves present => ?_⟩
        obtain ⟨key', presented', finds⟩ := x.resolvePresented_alone.run resolves p l rfl present
        cases presented.symm.trans presented'
        have same : l'.sessionID = l.sessionID := Option.some.inj (maps.symm.trans finds.held)
        have cookies : l.cookies = (h.decisions (h.heard ic.responseHeader).lines nows).foldl
            keepCookie (c.state.mem.getCookies l'.sessionID) := by
          rw [finds.cookies, ← same]
          exact batched.cookies l' alive
        rw [once_iff_kept present ?_ (cookies ▸ timely.held count) listed]
        · exact value_eq_rawValue_iff (Handler.stored_iff.mp decides.stored).1
        · rw [cookies]
          refine foldl_keepCookie_isPair (fun d decided => ?_) fun _ _ => getCookies_isPair reached _
          obtain ⟨line', -, stored⟩ := stored_of_decision decided
          exact Handler.stored_isPair stored
  · intro t x r asked sent part member cookie read accepted unmanaged
    obtain ⟨new, past, history⟩ := List.append_of_mem sent
    have passesOn := (traffic_furnished reached).made t new (.next r) () past history
    rw [asked] at passesOn
    obtain ⟨p, resolving, rfl⟩ := passesOn.sends r rfl
    refine x.handler.client_value_iff x.stripped ?_ read accepted unmanaged
    cases alive : p.live with
    | none => exact fun c listed => by cases GoMap.mem_entries.mp listed
    | some l =>
        obtain ⟨keyID, -, row, now, ttl, -, -, -, -, -, rfl⟩ := resolving.live l alive
        have looked : (⟨.store (.getCookies l.sessionID), .ok l.cookies⟩ : Deed) ∈ own t c.state := by
          simp [history]
        exact read_cookies_isPair reached looked

/-! ## Values in quotes -/

def themed (cookie : GoString) : Exchange where
  handler := Handler.storingHandler
  conn := ⟨false, false⟩
  outer := ∅
  request := { path := lit "/", header := Header.set ∅ (lit "Cookie") cookie }
  next := fun _ => .ret none

def setting (line : GoString) : Interceptor where
  w := { header := ∅ }
  live := none
  responseHeader := Header.add ∅ setCookieName line
  hadProxyCookie := false
  resolveErr := none

def settingChoices : List Choice :=
  [{ clock := 100 }, { clock := 100 }, { random := some (List.replicate 32 0) },
   { random := some (List.replicate 32 1) }, {}, {}, { clock := 100 }, {}, {}]

def comesBack (line : GoString) (check : Handler.Presented → Bool)
    (c : Machine (Option (Ended × Writer))) : Bool :=
  (playAlone anyFaults 1 ((setting line).process Handler.storingHandler) c.state settingChoices).any
    fun processed => processed.1.1.isOk &&
      processed.1.2.live.any (fun l => processed.2.mem.keys.get sampleKey = some l.sessionID) &&
      (playAlone anyFaults 2 (Handler.storingHandler.resolvePresented
        (returning Handler.storingHandler).stripped) processed.2 resolveChoices).any fun resolved =>
          match resolved.1 with
          | .ok p => check p
          | .error _ => false

theorem of_comesBack {line : GoString} {check : Handler.Presented → Bool}
    {c : Machine (Option (Ended × Writer))} (checked : comesBack line check c) :
    ∃ ic' l' w p w₁, ((setting line).process Handler.storingHandler).Run (exec anyFaults 1) c.state
        (.ok (), ic') w ∧ ic'.live = some l' ∧ w.mem.keys.get sampleKey = some l'.sessionID ∧
      (Handler.storingHandler.resolvePresented (returning Handler.storingHandler).stripped).Run
        (exec anyFaults 2) w (.ok p) w₁ ∧ check p := by
  simp only [comesBack, Option.any_eq_true, Bool.and_eq_true, decide_eq_true_eq] at checked
  obtain ⟨⟨⟨result, ic'⟩, w⟩, processed, ⟨done, l', alive, maps⟩, ⟨found, w₁⟩, resolved, checked⟩ :=
    checked
  cases result with
  | error e => cases done
  | ok done =>
      cases found with
      | error e => cases checked
      | ok p =>
          exact ⟨ic', l', w, p, w₁, run_of_playAlone processed, alive, maps,
            run_of_playAlone resolved, checked⟩

def upstreamLines (c : Machine (Option (Ended × Writer))) : Option (List GoString) :=
  match own 0 c.state with
  | [⟨.next r, _⟩] => GoMap.get r.header (lit "Cookie")
  | _ => none

theorem of_upstreamLines {c : Machine (Option (Ended × Writer))} {lines : List GoString}
    (seen : upstreamLines c = some lines) : ∃ r, (⟨.next r, ()⟩ : Deed) ∈ own 0 c.state ∧
      GoMap.get r.header (lit "Cookie") = some lines := by
  unfold upstreamLines at seen
  split at seen
  · rename_i r u history
    exact ⟨r, by simp [history], seen⟩
  · cases seen

def themedVisits (cookie : GoString) (_ : Nat) : Visit := .request (themed cookie)

theorem secret_decides (readings : List Int) : Decides Handler.storingHandler [lit "sid=secret"]
    readings (lit "sid=secret") { name := lit "sid", value := lit "secret" } where
  stored := by decide +kernel
  kept := by
    have unaged : maxAgeDeletes (lit "sid=secret") = none := by decide +kernel
    intro now _
    simp [cookieDeletesNow, unaged]
  last := ⟨[], [], rfl, fun _ member => by cases member⟩

theorem plain_values_unchanged : ∃ (c : Machine (Option (Ended × Writer))) (ic' : Interceptor)
    (w w₁ : World) (p : Handler.Presented) (r : Request),
    (traffic (themedVisits (lit "theme=dark"))).Reaches quietStart c ∧
    ((setting (lit "sid=secret")).process Handler.storingHandler).Run (exec anyFaults 1) c.state
      (.ok (), ic') w ∧
    (Handler.storingHandler.resolvePresented (returning Handler.storingHandler).stripped).Run
      (exec anyFaults 2) w (.ok p) w₁ ∧
    Once (Handler.storingHandler.upstream (returning Handler.storingHandler).stripped p) (lit "sid")
      (rawValue (lit "sid=secret")) ∧
    (⟨.next r, ()⟩ : Deed) ∈ own 0 c.state ∧
    ∃ line, GoMap.get r.header (lit "Cookie") = some [line] ∧
      (lit "theme", partValue (lit "theme=dark")) ∈ readPairs line := by
  have played : (play anyFaults (fun _ _ => true) (traffic (themedVisits (lit "theme=dark"))).prog
      quietStart [.start 0, .act 0 {}]).any fun c =>
        comesBack (lit "sid=secret") (fun p => p.live.isSome) c &&
          upstreamLines c = some [lit "theme=dark"] := by
    decide +kernel
  obtain ⟨c, reached, -, checked⟩ := reaches_of_played (fun _ => trivial) played
  simp only [Bool.and_eq_true, decide_eq_true_eq] at checked
  obtain ⟨ic', l', w, p, w₁, processed, alive, maps, resolved, present⟩ := of_comesBack checked.1
  obtain ⟨l, present⟩ := Option.isSome_iff_exists.mp present
  obtain ⟨r, sent, -⟩ := of_upstreamLines checked.2
  obtain ⟨kept, client⟩ := cookie_values_unchanged_iff reached
  refine ⟨c, ic', w, w₁, p, r, reached, processed, resolved, ?_, sent, ?_⟩
  · have heard : (Handler.storingHandler.heard (setting (lit "sid=secret")).responseHeader).lines =
        [lit "sid=secret"] := by decide +kernel
    obtain ⟨l'', same, next⟩ := kept _ _ _ _ _ (by decide +kernel) processed (lit "sid=secret") _
      (heard ▸ secret_decides (walls 1 w))
    cases alive.symm.trans same
    exact (next (returning Handler.storingHandler) 2 p l sampleKey w₁ (by decide) (by decide +kernel)
      maps resolved present).mpr ⟨rfl, by decide⟩
  · exact (client 0 (themed (lit "theme=dark")) r rfl sent (lit "theme=dark") (by decide +kernel)
      ⟨lit "theme", lit "dark", false⟩ (by decide +kernel) (by decide +kernel)
      (by decide +kernel)).mpr rfl

/-- The quotes of a kept value and of a client's value are lost. -/
theorem quoted_values_change : ∃ (c : Machine (Option (Ended × Writer))) (ic' : Interceptor)
    (w w₁ : World) (p : Handler.Presented) (r : Request),
    (traffic (themedVisits (lit "theme=\"dark\""))).Reaches quietStart c ∧
    ((setting (lit "sid=\"secret\"")).process Handler.storingHandler).Run (exec anyFaults 1) c.state
      (.ok (), ic') w ∧
    (Handler.storingHandler.resolvePresented (returning Handler.storingHandler).stripped).Run
      (exec anyFaults 2) w (.ok p) w₁ ∧
    Handler.storingHandler.stored (lit "sid=\"secret\"") =
      some { name := lit "sid", value := lit "secret", quoted := true } ∧
    rawValue (lit "sid=\"secret\"") = lit "\"secret\"" ∧
    GoMap.get (Handler.storingHandler.upstream (returning Handler.storingHandler).stripped p).header
      (lit "Cookie") = some [lit "sid=secret"] ∧
    (⟨.next r, ()⟩ : Deed) ∈ own 0 c.state ∧
    GoMap.get r.header (lit "Cookie") = some [lit "theme=dark"] := by
  have played : (play anyFaults (fun _ _ => true)
      (traffic (themedVisits (lit "theme=\"dark\""))).prog quietStart [.start 0, .act 0 {}]).any
        fun c => comesBack (lit "sid=\"secret\"") (fun p => GoMap.get (Handler.storingHandler.upstream
            (returning Handler.storingHandler).stripped p).header (lit "Cookie") =
              some [lit "sid=secret"]) c &&
          upstreamLines c = some [lit "theme=dark"] := by
    decide +kernel
  obtain ⟨c, reached, -, checked⟩ := reaches_of_played (fun _ => trivial) played
  simp only [Bool.and_eq_true, decide_eq_true_eq] at checked
  obtain ⟨ic', l', w, p, w₁, processed, -, -, resolved, kept⟩ := of_comesBack checked.1
  obtain ⟨r, sent, client⟩ := of_upstreamLines checked.2
  exact ⟨c, ic', w, w₁, p, r, reached, processed, resolved, by decide +kernel, by decide +kernel,
    of_decide_eq_true kept, sent, client⟩

end Gosestor
