import Gosestor.Handler.Interceptor

/-!
# ServeHTTP

The downstream handler is a program over the response writer and the request it is given, with any
result; `serveHTTP` runs it against the interceptor. `respondTo` adds what net/http does after a
handler that returned without writing a header.
-/

namespace Gosestor

open Gosestor.Go Gosestor.Lib Gosestor.Session

inductive DownCall
  | header
  | setHeader (change : Header → Header)
  | writeHeader (status : Int)
  | write (p : List UInt8)
  | flushError
  | hijack
  | trailer
  | readBody
  | closeBody

abbrev DownCall.Answer : DownCall → Type
  | .header => Header
  | .setHeader _ | .writeHeader _ | .closeBody => Unit
  | .write _ => Nat × Option Err
  | .flushError | .hijack => Option Err
  | .trailer => Option Header
  | .readBody => Option (List UInt8)

abbrev Down := Prog DownCall DownCall.Answer (Option Err)

/-- The body that the downstream handler reads; after each read `names` are scrubbed from the
trailer, if the request had one when it came in. -/
structure Incoming where
  trailer : Option Header
  parts : List BodyPart
  names : List GoString

namespace Incoming

def merge (trailer : Option Header) (late : Header) : Option Header :=
  if late.len = 0 then trailer else some ((trailer.getD ∅).copyFrom late)

def scrub (b : Incoming) : Incoming := { b with trailer := b.trailer.map (·.delAll b.names) }

def read (b : Incoming) : Option (List UInt8) × Incoming :=
  match b.parts with
  | [] => (none, b.scrub)
  | part :: parts =>
      (some part.data, { b with parts, trailer := merge b.trailer part.trailer }.scrub)

def close (b : Incoming) : Incoming :=
  { b with
    parts := []
    trailer := (b.parts.map BodyPart.trailer).foldl merge b.trailer }.scrub

end Incoming

inductive Ended
  | returned (err : Option Err)
  | panicked (p : Panic)

namespace Handler

variable (h : Handler) (conn : Conn)

def serveCall : (c : DownCall) → Interceptor → Incoming →
    Act (Except Panic c.Answer × Interceptor × Incoming)
  | .header, ic, r => return (.ok ic.responseHeader, ic, r)
  | .setHeader change, ic, r =>
      return (.ok (), { ic with responseHeader := change ic.responseHeader }, r)
  | .writeHeader status, ic, r => do
      let (result, ic) ← ic.writeHeader status
      return (result, ic, r)
  | .write p, ic, r => do
      let (result, ic) ← ic.write p
      return (.ok result, ic, r)
  | .flushError, ic, r => do
      let (err, ic) ← ic.flushError h conn
      return (.ok err, ic, r)
  | .hijack, ic, r => do
      let (err, ic) ← ic.hijack h conn
      return (.ok err, ic, r)
  | .trailer, ic, r => return (.ok r.trailer, ic, r)
  | .readBody, ic, r => return (.ok r.read.1, ic, r.read.2)
  | .closeBody, ic, r => return (.ok (), ic, r.close)

def runNext : Down → Interceptor → Incoming → Act (Ended × Interceptor)
  | .ret err, ic, _ => return (.returned err, ic)
  | .call c next, ic, r => do
      let (answer, ic, r) ← serveCall h conn c ic r
      match answer with
      | .error p => return (.panicked p, ic)
      | .ok answer => runNext (next answer) ic r

def rollBack (ic : Interceptor) : Act Interceptor := do
  let body ← ic.body.reset
  let ic := { ic with body }.discardBackendMetadata h
  return { ic with w := { ic.w with header := clearHeaders ic.w.header } }

def refuse (ic : Interceptor) : Act Interceptor := do
  let ic ← rollBack h ic
  let w ← ic.w.writeHeader 502
  return { ic with w }

def finalStatus (ic : Interceptor) : Int := if ic.status = 0 then 200 else ic.status

def emit (ic : Interceptor) : Act (Option Err × Interceptor) := do
  let w ← Interceptor.commitInformational h ic.informational ic.w
  let w := { w with header := copyHeaders w.header ic.responseHeader }
  if !ic.wroteHeader then return (none, { ic with w })
  else
    let w ← w.writeHeader (finalStatus ic)
    if ic.body.len > 0 then
      let (err, body, w) ← ic.body.flushTo w
      return (err, { ic with body, w })
    else return (none, { ic with w })

/-- The response is known to be complete: process it, and send it or 502. A processed response has
no backend metadata left for `refuse` to discard. -/
def settle (ic : Interceptor) : Act (Option Err × Interceptor) := do
  let ic ← ic.ensureProcessed h
  if ic.failed then return (none, ← refuse h ic)
  else emit h ic

def conclude (ic : Interceptor) (err : Option Err) : Act (Option Err × Interceptor) := do
  if ic.writeErr.isSome then return (none, ← refuse h ic)
  else
    match err with
    | some e => return (some e, ← rollBack h ic)
    | none =>
      match ← ic.reserveFinalMetadata h with
      | (some e, ic) => return (none, ← refuse h { ic with writeErr := some e })
      | (none, ic) =>
        if ic.terminal then return (none, ic)
        else
          match ← ic.body.validate with
          | (some _, body) => return (none, ← refuse h { ic with body })
          | (none, body) => settle h { ic with body }

def intercept (ic : Interceptor) (r : Request) (incoming : Incoming) (next : Down) :
    Act (Ended × Writer) := do
  act (.next r)
  let (ended, ic) ← runNext h conn next ic incoming
  match ended with
  | .panicked p =>
    let _ ← ic.body.close
    return (.panicked p, ic.w)
  | .returned err =>
    act (.returned err ic.responseHeader)
    let (err, ic) ← conclude h ic err
    let _ ← ic.body.close
    return (.returned err, ic.w)

def stripSpoofed (r : Request) : Request :=
  { r with
    header := r.header.delAll h.managedHeaders
    trailer := r.trailer.map (·.delAll h.managedHeaders) }

def presentedKey (r : Request) : Option GoString :=
  if h.cookie.name = [] then none
  else (readCookies r.header h.cookie.name).head?.map RequestCookie.value

/-- The cached cookies come in the order of a `range` over the map. -/
def prepareUpstreamCookies (r : Request) (cached : GoMap GoString GoString) : Request :=
  let own := (readCookies r.header []).filter fun c =>
    c.name ≠ h.cookie.name && h.filter.decide c.name ≠ .store
  let kept := (own.map fun c => c.name ++ lit "=" ++ c.value) ++
    cached.entries.map fun (name, value) => name ++ lit "=" ++ value
  { r with header :=
      if kept = [] then r.header.del (lit "Cookie")
      else r.header.set (lit "Cookie") (join kept (lit "; ")) }

def denyAuthz (a : Authz) (w : Writer) (r : Request) (required : GoString) : Act Writer := do
  let endpoint := a.endpoint required
  if contains (r.header.get (lit "Accept")) (lit "text/html") then
    let rd := if r.rawQuery = [] then r.path else r.path ++ lit "?" ++ r.rawQuery
    let sep := if contains endpoint (lit "?") then lit "&" else lit "?"
    let location := endpoint ++ sep ++ a.redirectParam ++ lit "=" ++ queryEscape rd
    Writer.writeHeader { w with header := w.header.set (lit "Location") location } 302
  else Writer.writeHeader { w with header := w.header.set (lit "X-Auth-Endpoint") endpoint } 401

/-- What is known of the session when the request is authorized: the handle, the error of a store
that failed open, and whether a proxy cookie was presented. -/
structure Presented where
  live : Option Live := none
  resolveErr : Option Err := none
  hadProxyCookie : Bool := false

def resolvePresented (r : Request) : Act (Except Err Presented) := do
  match h.presentedKey r with
  | none => return .ok {}
  | some key =>
    match ← h.manager.resolve key with
    | .ok live => return .ok { live, hadProxyCookie := true }
    | .error e =>
      if h.onStoreError = failClosed then return .error (.badGateway e)
      else return .ok { resolveErr := some e, hadProxyCookie := true }

def lacking (a : Authz) (r : Request) (live : Option Live) : Option GoString :=
  let required := a.required r.path
  if required ≠ Authz.anonymous ∧ !live.any (·.hasLabel required) then some required else none

def forward (w : Writer) (r : Request) (p : Presented) (next : Request → Down) :
    Act (Ended × Writer) :=
  let scrubbed := if r.body.isSome && r.trailer.isSome then h.managedHeaders else []
  let r := h.prepareUpstreamCookies r ((p.live.map Live.cookies).getD ∅)
  intercept h conn
    { w
      live := p.live
      hadProxyCookie := p.hadProxyCookie
      resolveErr := p.resolveErr
      responseHeader := w.header }
    r ⟨r.trailer, r.body.getD [], scrubbed⟩ (next r)

def serveHTTP (w : Writer) (r : Request) (next : Request → Down) : Act (Ended × Writer) := do
  let r := h.stripSpoofed r
  match ← h.resolvePresented r with
  | .error e => return (.returned (some e), w)
  | .ok p =>
    match h.authz with
    | none => h.forward conn w r p next
    | some a =>
      match lacking a r p.live with
      | some required => return (.returned none, ← denyAuthz a w r required)
      | none => h.forward conn w r p next

/-- A response that was not written yet when the handler returns is sent with status 200. -/
def respondTo (w : Writer) (r : Request) (next : Request → Down) : Act (Ended × Writer) := do
  let (ended, w) ← h.serveHTTP conn w r next
  match ended with
  | .returned none => return (.returned none, ← w.writeHeader 200)
  | ended => return (ended, w)

end Handler

end Gosestor
