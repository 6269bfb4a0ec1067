import Gosestor.Go.Path

/-!
# Package net/url, and URL references as a browser reads them

References follow the regular expression of RFC 3986, appendix B, and their resolution section
5.2.2, as far as the origin and the path are concerned.
-/

namespace Gosestor.Go

def hexValue (b : UInt8) : Option UInt8 :=
  if isDigit b then some (b - 48)
  else if 65 ≤ b && b ≤ 70 then some (b - 55)
  else if 97 ≤ b && b ≤ 102 then some (b - 87) else none

def unescape (query : Bool) : GoString → Option GoString
  | [] => some []
  | 37 :: a :: b :: rest => do
      let high ← hexValue a
      let low ← hexValue b
      return (16 * high + low) :: (← unescape query rest)
  | 37 :: _ => none
  | b :: rest => do return (if query && b = 43 then 32 else b) :: (← unescape query rest)

def queryUnescape (s : GoString) : Option GoString := unescape true s

def pathUnescape (s : GoString) : Option GoString := unescape false s

def isAlpha (b : UInt8) : Bool := (65 ≤ b && b ≤ 90) || (97 ≤ b && b ≤ 122)

def isSchemeByte (b : UInt8) : Bool := isAlpha b || isDigit b || (lit "+-.").contains b

def getScheme (s : GoString) : Option (GoString × GoString) :=
  let scheme := s.takeWhile isSchemeByte
  match s.dropWhile isSchemeByte with
  | 58 :: rest =>
      if scheme = [] then none
      else if scheme.head?.any isAlpha then some (scheme, rest) else some ([], s)
  | _ => some ([], s)

structure Target where
  path : GoString
  rawQuery : GoString
  deriving DecidableEq

/-- What `url.ParseRequestURI` reads. Any authority is taken to be a valid one. -/
def parseRequestURI (target : GoString) : Option Target :=
  if target = [] || target.any (fun b => b < 32 || b = 127) then none
  else if target = lit "*" then some ⟨target, []⟩
  else do
    let (scheme, rest) ← getScheme target
    let (rest, rawQuery, _) := cut rest 63
    if !hasPrefix rest (lit "/") then
      if scheme = [] then none else return ⟨[], rawQuery⟩
    else
      let rest := if scheme ≠ [] ∧ hasPrefix rest (lit "//")
        then (rest.drop 2).dropWhile (· ≠ 47) else rest
      return ⟨← pathUnescape rest, rawQuery⟩

/-- A request line is split at its blanks, so a target holds none. -/
def readTarget (target : GoString) : Option Target :=
  if target.contains 32 then none else parseRequestURI target

structure Reference where
  scheme : Option GoString
  authority : Option GoString
  path : GoString

namespace Reference

/-- Query and fragment are left out. -/
def parse (s : GoString) : Reference :=
  let s := s.takeWhile fun b => b ≠ 63 && b ≠ 35
  let name := s.takeWhile fun b => b ≠ 58 && b ≠ 47
  let (scheme, rest) := match s.drop name.length with
    | 58 :: rest => if name = [] then (none, s) else (some name, rest)
    | _ => (none, s)
  if hasPrefix rest (lit "//") then
    ⟨scheme, some ((rest.drop 2).takeWhile (· ≠ 47)), (rest.drop 2).dropWhile (· ≠ 47)⟩
  else ⟨scheme, none, rest⟩

structure Origin where
  scheme : GoString
  authority : Option GoString

/-- The origin of the reference when it is resolved against a document of another origin. -/
def origin (r : Reference) (site : Origin) : Origin :=
  match r.scheme with
  | some scheme => ⟨scheme, r.authority⟩
  | none => ⟨site.scheme, r.authority.or site.authority⟩

end Reference

end Gosestor.Go
