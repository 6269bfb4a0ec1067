import Gosestor.Go.Strings

/-!
# Packages path and net/url
-/

namespace Gosestor.Go

/-- The elements that `path.Clean` keeps, last one first. An element `..` removes the one before it;
where there is none to remove it is dropped from a rooted path and kept in another. -/
def cleanElements (rooted : Bool) : List GoString → List GoString → List GoString
  | kept, [] => kept
  | kept, element :: rest =>
      if element = [] ∨ element = lit "." then cleanElements rooted kept rest
      else if element = lit ".." then
        match kept with
        | [] => cleanElements rooted (if rooted then [] else [element]) rest
        | last :: earlier =>
            if last = lit ".." then cleanElements rooted (element :: kept) rest
            else cleanElements rooted earlier rest
      else cleanElements rooted (element :: kept) rest

def clean (path : GoString) : GoString :=
  let rooted := hasPrefix path (lit "/")
  let kept := join (cleanElements rooted [] (split path 47)).reverse (lit "/")
  if rooted then lit "/" ++ kept else if kept = [] then lit "." else kept

def hexDigit (n : UInt8) : UInt8 := if n < 10 then 48 + n else 55 + n

def isUnreserved (b : UInt8) : Bool :=
  isDigit b || (65 ≤ b && b ≤ 90) || (97 ≤ b && b ≤ 122) || (lit "-_.~").contains b

def queryEscape (s : GoString) : GoString :=
  s.flatMap fun b =>
    if isUnreserved b then [b] else if b = 32 then [43]
    else [37, hexDigit (b / 16), hexDigit (b % 16)]

end Gosestor.Go
