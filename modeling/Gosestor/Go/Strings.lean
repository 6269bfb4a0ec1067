import Mathlib.Algebra.Ring.Int.Defs
import Mathlib.Algebra.Ring.Nat
import Mathlib.Data.List.Sort

/-!
# Go strings

A Go string is a sequence of bytes, not necessarily valid UTF-8. The white-space runes of
`unicode.IsSpace` start with a byte that no rune contains elsewhere, so an occurrence of their
encodings is recognised byte by byte, also in strings that are not valid UTF-8.
-/

namespace Gosestor.Go

abbrev GoString := List UInt8

instance : LawfulBEq GoString := inferInstance

def lit (s : String) : GoString := s.toUTF8.data.toList

def hasPrefix (s pre : GoString) : Bool := pre.isPrefixOf s

def contains (s sub : GoString) : Bool := s.tails.any fun rest => hasPrefix rest sub

def split (s : GoString) (sep : UInt8) : List GoString := s.splitOn sep

def join (parts : List GoString) (sep : GoString) : GoString := sep.intercalate parts

def cut : GoString → UInt8 → GoString × GoString × Bool
  | [], _ => ([], [], false)
  | b :: rest, sep =>
      if b = sep then ([], rest, true)
      else
        let (before, after, found) := cut rest sep
        (b :: before, after, found)

def isSpaceByte (b : UInt8) : Bool := (9 ≤ b && b ≤ 13) || b == 32

def isWideSpace (b c d : UInt8) : Bool :=
  (b == 0xE1 && c == 0x9A && d == 0x80) ||
  (b == 0xE2 && c == 0x80 &&
    ((0x80 ≤ d && d ≤ 0x8A) || d == 0xA8 || d == 0xA9 || d == 0xAF)) ||
  (b == 0xE2 && c == 0x81 && d == 0x9F) ||
  (b == 0xE3 && c == 0x80 && d == 0x80)

def spaceLen : GoString → Nat
  | [] => 0
  | [b] => if isSpaceByte b then 1 else 0
  | [b, c] => if isSpaceByte b then 1
      else if b == 0xC2 && (c == 0x85 || c == 0xA0) then 2 else 0
  | b :: c :: d :: _ => if isSpaceByte b then 1
      else if b == 0xC2 && (c == 0x85 || c == 0xA0) then 2
      else if isWideSpace b c d then 3 else 0

def spaceLenLast : GoString → Nat
  | [] => 0
  | [b] => if isSpaceByte b then 1 else 0
  | [c, b] => if isSpaceByte c then 1
      else if b == 0xC2 && (c == 0x85 || c == 0xA0) then 2 else 0
  | d :: c :: b :: _ => if isSpaceByte d then 1
      else if c == 0xC2 && (d == 0x85 || d == 0xA0) then 2
      else if isWideSpace b c d then 3 else 0

def dropRunes (width : GoString → Nat) : Nat → GoString → GoString
  | 0, s => s
  | fuel + 1, s => if width s = 0 then s else dropRunes width fuel (s.drop (width s))

def trimLeftSpace (s : GoString) : GoString := dropRunes spaceLen s.length s

def trimRightSpace (s : GoString) : GoString := (dropRunes spaceLenLast s.length s.reverse).reverse

def trimSpace (s : GoString) : GoString := trimRightSpace (trimLeftSpace s)

/-- As `strings.FieldsFunc` does it: the maximal runs between separators, `width` being the number
of bytes of the separator at the head of a string. -/
def fieldsFrom (width : GoString → Nat) : Nat → GoString → GoString → List GoString
  | 0, field, _ => if field = [] then [] else [field]
  | _ + 1, field, [] => if field = [] then [] else [field]
  | fuel + 1, field, b :: rest =>
      if width (b :: rest) = 0 then fieldsFrom width fuel (field ++ [b]) rest
      else (if field = [] then [] else [field]) ++
        fieldsFrom width fuel [] ((b :: rest).drop (width (b :: rest)))

def fieldsFunc (s : GoString) (width : GoString → Nat) : List GoString :=
  fieldsFrom width (s.length + 1) [] s

def fields (s : GoString) : List GoString := fieldsFunc s spaceLen

/-- As a comparison with an ASCII string sees `strings.ToLower`: besides the ASCII capitals only
U+212A (Kelvin sign) and U+0130 have an ASCII lower case; other runes stay as they are. -/
def toLower : GoString → GoString
  | 0xE2 :: 0x84 :: 0xAA :: rest => 107 :: toLower rest
  | 0xC4 :: 0xB0 :: rest => 105 :: toLower rest
  | b :: rest => (if 65 ≤ b ∧ b ≤ 90 then b + 32 else b) :: toLower rest
  | [] => []

/-- Simple case folding of the ASCII letters and of the two runes that fold to one of them, U+212A
and U+017F. -/
def fold : GoString → GoString
  | 0xE2 :: 0x84 :: 0xAA :: rest => 107 :: fold rest
  | 0xC5 :: 0xBF :: rest => 115 :: fold rest
  | b :: rest => (if 65 ≤ b ∧ b ≤ 90 then b + 32 else b) :: fold rest
  | [] => []

def equalFold (s t : GoString) : Bool := fold s == fold t

def sortStrings (xs : List GoString) : List GoString := xs.insertionSort (· ≤ ·)

def parseBool (s : GoString) : Option Bool :=
  if s ∈ [lit "1", lit "t", lit "T", lit "true", lit "TRUE", lit "True"] then some true
  else if s ∈ [lit "0", lit "f", lit "F", lit "false", lit "FALSE", lit "False"] then some false
  else none

def isDigit (b : UInt8) : Bool := 48 ≤ b && b ≤ 57

def digitsValue (s : GoString) : Nat := s.foldl (fun n b => 10 * n + (b.toNat - 48)) 0

/-- The number that `strconv.ParseInt(s, 10, 64)` reads; `none` is a syntax or range error. -/
def parseInt (s : GoString) : Option Int :=
  let (negative, digits) := match s with
    | 43 :: rest => (false, rest)
    | 45 :: rest => (true, rest)
    | _ => (false, s)
  if digits = [] || !digits.all isDigit then none
  else
    let value : Int := digitsValue digits
    if negative then (if value ≤ 2 ^ 63 then some (-value) else none)
    else if value < 2 ^ 63 then some value else none

def decimal : Nat → Nat → GoString → GoString
  | 0, _, acc => acc
  | fuel + 1, n, acc =>
      let acc := UInt8.ofNat (48 + n % 10) :: acc
      if n < 10 then acc else decimal fuel (n / 10) acc

def formatInt (n : Int) : GoString :=
  let digits := decimal (n.natAbs + 1) n.natAbs []
  if n < 0 then 45 :: digits else digits

def base64Alphabet : GoString :=
  lit "ABCDEFGHIJKLMNOPQRSTUVWXYZabcdefghijklmnopqrstuvwxyz0123456789-_"

def base64Digit (n : Nat) : UInt8 := base64Alphabet.getD (n % 64) 0

def encodeToString : List UInt8 → GoString
  | a :: b :: c :: rest =>
      let n := a.toNat * 65536 + b.toNat * 256 + c.toNat
      base64Digit (n / 262144) :: base64Digit (n / 4096) :: base64Digit (n / 64) ::
        base64Digit n :: encodeToString rest
  | [a, b] =>
      let n := a.toNat * 1024 + b.toNat * 4
      [base64Digit (n / 4096), base64Digit (n / 64), base64Digit n]
  | [a] => [base64Digit (a.toNat / 4), base64Digit (a.toNat * 16)]
  | [] => []

abbrev Duration := Int

def second : Duration := 1000000000

def int64 (n : Int) : Int := n.bmod (2 ^ 64)

def Duration.milliseconds (d : Duration) : Int := d.tdiv 1000000

/-- The value of `int64(d.Seconds())`. The sum of whole seconds and fraction is rounded to a float64
before it is truncated, so a fraction within half a unit in the last place of the next second is
carried. -/
def Duration.truncSeconds (d : Duration) : Int :=
  let whole := d.tdiv second
  let fraction := (d.tmod second).natAbs
  if fraction ≠ 0 ∧ (1000000000 - fraction) * 2 ^ 53 < 1000000000 * 2 ^ whole.natAbs.log2
  then whole + d.sign else whole

end Gosestor.Go
