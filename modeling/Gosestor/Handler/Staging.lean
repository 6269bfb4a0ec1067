import Gosestor.Runtime

/-!
# Staging of response bodies

A body is kept in memory up to 1 MiB and in a spool file beyond that. Every staged byte is
reserved in the budget that all responses share. A failed bound or spool operation leaves a `trip`
mark.
-/

namespace Gosestor

open Gosestor.Go Gosestor.Lib

def stagedResponseMemoryLimit : Int := 2 ^ 20

def stagedResponseMaxBytes : Int := 64 * 2 ^ 20

def stagedResponseMaxInformational : Nat := 16

def stagedResponseMaxMetadataBytes : Int := 2 ^ 20

def trip (e : Err) : Act Err := do
  act (.trip e)
  return e

/-- The header map of the writer below, whether a final header block went out, and whether the
connection was taken over. -/
structure Writer where
  header : Header := ∅
  wrote : Bool := false
  hijacked : Bool := false

namespace Writer

def informational (status : Int) : Bool := 100 ≤ status && status < 200 && status ≠ 101

def writeHeader (w : Writer) (status : Int) : Act Writer := do
  if w.wrote || w.hijacked then return w
  else
    act (.writeHeader status w.header)
    return { w with wrote := !informational status }

def write (w : Writer) (p : List UInt8) : Act ((Nat × Option Err) × Writer) := do
  if w.hijacked then return ((0, some .hijacked), w)
  else
    let w ← w.writeHeader 200
    return (← act (.write p), w)

def flush (w : Writer) : Act (Option Err × Writer) := do
  let w ← w.writeHeader 200
  return (← act .flush, w)

end Writer

structure SpoolFile where
  content : List UInt8 := []
  offset : Nat := 0

def SpoolFile.written (f : SpoolFile) (p : List UInt8) (n : Nat) : SpoolFile where
  content := f.content.take f.offset ++ p.take n ++ f.content.drop (f.offset + n)
  offset := f.offset + n

structure StagedBody where
  memory : List UInt8 := []
  file : Option SpoolFile := none
  size : Int := 0
  reserved : Int := 0
  unlinked : Bool := false
  validated : Bool := false

namespace StagedBody

def releaseReserved (b : StagedBody) (n : Int) : Act StagedBody := do
  if n = 0 then return b
  else
    act (.release n)
    return { b with reserved := b.reserved - n }

def closeFile (unlinked : Bool) : Act (Option Err) := do
  let closeErr ← act .fileClose
  if unlinked then return closeErr
  else
    let removed ← act .removeTemp
    return closeErr.or (if removed then none else some .io)

def close (b : StagedBody) : Act (Option Err × StagedBody) := do
  let b := { b with memory := [], size := 0, validated := false }
  match b.file with
  | none => return (none, ← b.releaseReserved b.reserved)
  | some _ =>
    let err ← closeFile b.unlinked
    let b := { b with file := none, unlinked := false }
    return (err, ← b.releaseReserved b.reserved)

/-- What `Close` does, with its error dropped. -/
def reset (b : StagedBody) : Act StagedBody := do
  let (_, b) ← b.close
  return b

def writeFile (b : StagedBody) (f : SpoolFile) (p : List UInt8) :
    Act ((Nat × Option Err) × StagedBody) := do
  let (n, err) ← act (.fileWrite p)
  let b := { b with file := some (f.written p n), size := b.size + n }
  let b ← b.releaseReserved (p.length - n)
  match err with
  | none => return ((n, none), b)
  | some e => return ((n, some (← trip e)), b)

def spill (b : StagedBody) (p : List UInt8) : Act ((Nat × Option Err) × StagedBody) := do
  match ← act .createTemp with
  | some e =>
    let b ← b.releaseReserved p.length
    return ((0, some (← trip e)), b)
  | none =>
    let unlinked ← act .removeTemp
    let (n, err) ← act (.fileWrite b.memory)
    match err with
    | some e =>
      let (_, b) ← { b with file := some {}, unlinked }.close
      return ((0, some (← trip e)), b)
    | none =>
      let f := SpoolFile.written {} b.memory n
      writeFile { b with memory := [], file := some f, unlinked } f p

def write (b : StagedBody) (p : List UInt8) : Act ((Nat × Option Err) × StagedBody) := do
  if p.length > stagedResponseMaxBytes - b.size then
    return ((0, some (← trip .stagedResponseTooLarge)), b)
  else
    match ← act (.reserve p.length) with
    | false => return ((0, some (← trip .stagedResponseBudgetExhausted)), b)
    | true =>
      let b := { b with reserved := b.reserved + p.length, validated := false }
      match b.file with
      | some f => writeFile b f p
      | none =>
        if b.memory.length + p.length ≤ stagedResponseMemoryLimit then
          return ((p.length, none), { b with memory := b.memory ++ p, size := b.size + p.length })
        else spill b p

def validate (b : StagedBody) : Act (Option Err × StagedBody) := do
  match b.file with
  | none => return (none, b)
  | some f =>
    if b.validated then return (none, b)
    else
      match ← act .fileSeek with
      | some e => return (some (← trip e), b)
      | none =>
        match ← act (.fileCopy f.content.length) with
        | (n, some e) =>
          return (some (← trip e), { b with file := some { f with offset := n } })
        | (n, none) =>
          if (n : Int) ≠ b.size then
            return (some (← trip .unexpectedEOF), { b with file := some { f with offset := n } })
          else
            match ← act .fileSeek with
            | some e =>
              return (some (← trip e), { b with file := some { f with offset := n } })
            | none =>
              return (none, { b with file := some { f with offset := 0 }, validated := true })

def copyFile (b : StagedBody) (f : SpoolFile) (w : Writer) :
    Act (Option Err × StagedBody × Writer) := do
  let rest := f.content.drop f.offset
  let (n, readErr) ← act (.fileCopy rest.length)
  let b := { b with file := some { f with offset := f.offset + n } }
  if n = 0 then return (readErr, b, w)
  else
    let ((written, writeErr), w) ← w.write (rest.take n)
    let shortErr := if written < n then some Err.shortWrite else none
    return ((writeErr.or shortErr).or readErr, b, w)

def flushTo (b : StagedBody) (w : Writer) : Act (Option Err × StagedBody × Writer) := do
  match b.file with
  | none =>
    let ((n, err), w) ← w.write b.memory
    let shortErr := if n ≠ b.memory.length then some Err.shortWrite else none
    return (err.or shortErr, b, w)
  | some _ =>
    match ← b.validate with
    | (some e, b) => return (some e, b, w)
    | (none, b) =>
      match b.file with
      | none => return (none, b, w)
      | some f => copyFile b f w

def len (b : StagedBody) : Int := b.size

end StagedBody

end Gosestor
