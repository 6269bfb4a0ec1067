import Gosestor.Go.Strings
import Gosestor.Lib.GoMap

/-!
# Package net/http: header maps and cookies
-/

namespace Gosestor.Go

open Gosestor.Lib

def isTokenByte (b : UInt8) : Bool :=
  isDigit b || (65 ≤ b && b ≤ 90) || (97 ≤ b && b ≤ 122) ||
    (lit "!#$%&'*+-.^_\x60|~").contains b

def isToken (s : GoString) : Bool := s ≠ [] && s.all isTokenByte

def canonicalBytes : Bool → GoString → GoString
  | _, [] => []
  | upper, b :: rest =>
      let c := if upper && 97 ≤ b && b ≤ 122 then b - 32
        else if !upper && 65 ≤ b && b ≤ 90 then b + 32 else b
      c :: canonicalBytes (c == 45) rest

/-- As `http.CanonicalHeaderKey` does it: a name with a byte outside the token alphabet is left
alone. -/
def canonicalHeaderKey (name : GoString) : GoString :=
  if name.all isTokenByte then canonicalBytes true name else name

abbrev Header := GoMap GoString (List GoString)

namespace Header

def values (h : Header) (name : GoString) : List GoString :=
  (GoMap.get h (canonicalHeaderKey name)).getD []

def get (h : Header) (name : GoString) : GoString := (h.values name).headD []

def set (h : Header) (name value : GoString) : Header :=
  GoMap.set h (canonicalHeaderKey name) [value]

def add (h : Header) (name value : GoString) : Header :=
  GoMap.set h (canonicalHeaderKey name) (h.values name ++ [value])

def del (h : Header) (name : GoString) : Header := GoMap.delete h (canonicalHeaderKey name)

def delAll (h : Header) (names : List GoString) : Header := names.foldl del h

end Header

/-- One read of a request body, with the trailer fields that net/http fills in at that read. -/
structure BodyPart where
  data : List UInt8
  trailer : Header := ∅

structure Request where
  path : GoString
  rawQuery : GoString := []
  header : Header := ∅
  trailer : Option Header := none
  body : Option (List BodyPart) := none

def isTrimByte (b : UInt8) : Bool := b == 32 || b == 9 || b == 10 || b == 13

def trimString (s : GoString) : GoString :=
  ((s.dropWhile isTrimByte).reverse.dropWhile isTrimByte).reverse

def validCookieValueByte (b : UInt8) : Bool :=
  0x20 ≤ b && b < 0x7F && b != 34 && b != 59 && b != 92

def validCookiePathByte (b : UInt8) : Bool := 0x20 ≤ b && b < 0x7F && b != 59

def unquote (raw : GoString) : GoString × Bool :=
  if raw.length > 1 ∧ raw.head? = some 34 ∧ raw.getLast? = some 34
  then (raw.tail.dropLast, true) else (raw, false)

def parseCookieValue (raw : GoString) (allowDoubleQuote : Bool) : Option (GoString × Bool) :=
  let (value, quoted) := if allowDoubleQuote then unquote raw else (raw, false)
  if value.all validCookieValueByte then some (value, quoted) else none

structure RequestCookie where
  name : GoString
  value : GoString
  quoted : Bool
  deriving DecidableEq

def cookieMaxNum : Nat := 3000

def readCookiePart (filter part : GoString) : Option RequestCookie :=
  let part := trimString part
  if part = [] then none
  else
    let (name, value, _) := cut part 61
    let name := trimString name
    if !isToken name then none
    else if filter ≠ [] ∧ filter ≠ name then none
    else match parseCookieValue value true with
      | none => none
      | some (value, quoted) => some ⟨name, value, quoted⟩

def readCookies (h : Header) (filter : GoString) : List RequestCookie :=
  let lines := (GoMap.get h (lit "Cookie")).getD []
  if (lines.map fun line => line.count 59 + 1).sum > cookieMaxNum then []
  else lines.flatMap fun line => (split (trimString line) 59).filterMap (readCookiePart filter)

inductive SameSite
  | lax | strict | none
  deriving DecidableEq

structure Cookie where
  name : GoString
  value : GoString
  quoted : Bool := false
  path : GoString := []
  expires : Option Int := none
  maxAge : Int := 0
  httpOnly : Bool := false
  secure : Bool := false
  sameSite : Option SameSite := none
  deriving DecidableEq

def isASCII (s : GoString) : Bool := s.all (· < 0x80)

/-- Of the attributes of a Set-Cookie line only `Expires` and `Path` matter; `parseTime` is
`time.Parse` with the two layouts that net/http tries. -/
def setCookieAttribute (parseTime : GoString → Option Int) (c : Cookie) (part : GoString) : Cookie :=
  let part := trimString part
  if part = [] then c
  else
    let (attr, value, _) := cut part 61
    if !isASCII attr then c
    else match parseCookieValue value false with
      | none => c
      | some (value, _) =>
          if toLower attr = lit "expires" then { c with expires := parseTime value }
          else if toLower attr = lit "path" then { c with path := value } else c

/-- What `http.ParseSetCookie` reads; `none` is any of its errors. -/
def parseSetCookie (parseTime : GoString → Option Int) (line : GoString) : Option Cookie :=
  match split (trimString line) 59 with
  | [] => none
  | head :: attributes =>
      let (name, value, found) := cut (trimString head) 61
      let name := trimString name
      if !found || !isToken name then none
      else match parseCookieValue value true with
        | none => none
        | some (value, quoted) =>
            some (attributes.foldl (setCookieAttribute parseTime) { name, value, quoted })

def sanitizeCookieValue (value : GoString) (quoted : Bool) : GoString :=
  let value := value.filter validCookieValueByte
  if value = [] then value
  else if value.contains 32 || value.contains 44 || quoted then [34] ++ value ++ [34] else value

def sanitizeCookiePath (path : GoString) : GoString := path.filter validCookiePathByte

/-- The line of `Cookie.String`; the only expiry that the handler formats is one second after the
epoch. -/
def Cookie.string (c : Cookie) : GoString :=
  if !isToken c.name then []
  else c.name ++ [61] ++ sanitizeCookieValue c.value c.quoted ++
    (if c.path = [] then [] else lit "; Path=" ++ sanitizeCookiePath c.path) ++
    (if c.expires = some 1 then lit "; Expires=Thu, 01 Jan 1970 00:00:01 GMT" else []) ++
    (if c.maxAge < 0 then lit "; Max-Age=0" else []) ++
    (if c.httpOnly then lit "; HttpOnly" else []) ++
    (if c.secure then lit "; Secure" else []) ++
    (match c.sameSite with
      | Option.none => []
      | some .none => lit "; SameSite=None"
      | some .lax => lit "; SameSite=Lax"
      | some .strict => lit "; SameSite=Strict")

end Gosestor.Go
