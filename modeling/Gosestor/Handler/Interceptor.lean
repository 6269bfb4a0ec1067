import Gosestor.Handler.Config
import Gosestor.Handler.Staging

/-!
# The response interceptor

It stages the response of the downstream handler and, once that has returned, turns the backend's
cookies and control headers into one session transition. Header maps are passed as values: what the
code changes in place is returned.
-/

namespace Gosestor

open Gosestor.Go Gosestor.Lib Gosestor.Session

def clearHeaders (h : Header) : Header := h.delAll h.keys

def copyHeaders (dst src : Header) : Header := (clearHeaders dst).copyFrom src

def trailerPrefix : GoString := lit "Trailer:"

def setCookieName : GoString := lit "Set-Cookie"

def trailerName : GoString := lit "Trailer"

def declaredTrailers (h : Header) : List GoString :=
  (h.values trailerName).flatMap fun declaration => (split declaration 44).map trimSpace

def prefixedTrailer (key : GoString) : Option GoString :=
  if hasPrefix (toLower key) (toLower trailerPrefix) then some (key.drop trailerPrefix.length)
  else none

def stripManagedTrailerDeclarations (h : Header) (names : List GoString) : Header :=
  let managed := names.map canonicalHeaderKey
  let declared := declaredTrailers h
  let h := h.delAll (declared.filter (canonicalHeaderKey · ∈ managed))
  let kept := declared.filter fun name => canonicalHeaderKey name ∉ managed && name ≠ []
  let h := h.del trailerName
  let h := if kept = [] then h else h.set trailerName (join kept (lit ", "))
  h.delAll (h.keys.filter fun key =>
    (prefixedTrailer key).any fun name => canonicalHeaderKey name ∈ managed)

def stagedHeaderBytes (h : Header) : Int :=
  (h.entries.map fun (name, values) =>
    (values.map fun value => (name.length + value.length + 4 : Int)).sum).sum

def splitLabels (s : GoString) : List GoString :=
  fieldsFunc s fun rest => if rest.head? = some 44 then 1 else spaceLen rest

def maxAgeDecision (part : GoString) : Option Bool :=
  let (name, value, found) := cut part 61
  if !found || !equalFold (trimSpace name) (lit "Max-Age") then none
  else
    let value := trimSpace value
    let negative := hasPrefix value (lit "-")
    let digits := if negative then value.drop 1 else value
    if digits = [] || !digits.all isDigit then none
    else some (negative || digits.all (· = 48))

def maxAgeDeletes (raw : GoString) : Option Bool :=
  ((split raw 59).drop 1).foldl (fun decided part => (maxAgeDecision part).or decided) none

def cookieDeletesNow (raw : GoString) (c : Cookie) (now : Int) : Bool :=
  match maxAgeDeletes raw with
  | some deletes => deletes
  | none => c.expires.any (· ≤ now)

namespace Handler

def managedHeaders (h : Handler) : List GoString :=
  [h.identityHeader, h.rotateHeaderName, h.revokeHeaderName, h.labelsHeaderName]

def proxyCookiePath (h : Handler) : GoString :=
  if h.cookie.path = [] then lit "/" else h.cookie.path

def sameSiteMode (h : Handler) : SameSite :=
  if toLower h.cookie.sameSite = lit "strict" then .strict
  else if toLower h.cookie.sameSite = lit "none" then .none else .lax

def buildProxyCookie (h : Handler) (value : GoString) : GoString :=
  Cookie.string
    { name := h.cookie.name
      value
      path := h.proxyCookiePath
      httpOnly := true
      secure := !h.cookie.insecure
      sameSite := some h.sameSiteMode }

def buildExpiredProxyCookie (h : Handler) : GoString :=
  Cookie.string
    { name := h.cookie.name
      value := []
      path := h.proxyCookiePath
      httpOnly := true
      secure := !h.cookie.insecure
      maxAge := -1
      expires := some 1
      sameSite := some h.sameSiteMode }

def scrubTrailers (h : Handler) (hdr : Header) : Header :=
  stripManagedTrailerDeclarations hdr (setCookieName :: h.managedHeaders)

def dropManaged (h : Handler) (hdr : Header) : Header :=
  hdr.delAll (setCookieName :: h.managedHeaders)

def scrubManagedResponseHeader (h : Handler) (hdr : Header) : Header :=
  h.dropManaged (h.scrubTrailers hdr)

end Handler

structure StagedInformationalResponse where
  status : Int
  header : Header

/-- The field `processed` is the state of the `sync.Once`. -/
structure Interceptor where
  w : Writer
  live : Option Live
  processed : Bool := false
  failed : Bool := false
  wroteHeader : Bool := false
  status : Int := 0
  body : StagedBody := {}
  responseHeader : Header
  informational : List StagedInformationalResponse := []
  hijacked : Bool := false
  storeErr : Option Err := none
  revokeRequested : Bool := false
  hadProxyCookie : Bool
  resolveErr : Option Err
  writeErr : Option Err := none
  metadataBytes : Int := 0
  finalMetadataReserved : Bool := false
  terminal : Bool := false

/-- What the connection below offers: hijacking, and Caddy's extended-CONNECT upgrade. -/
structure Conn where
  hijackable : Bool
  extendedConnect : Bool

structure Panic where
  code : Int

namespace Interceptor

variable (h : Handler)

def note (ic : Interceptor) (e : Err) : Interceptor :=
  { ic with writeErr := ic.writeErr.or (some e) }

def reserveMetadataBytes (ic : Interceptor) (n : Int) : Act (Option Err × Interceptor) := do
  if n > stagedResponseMaxMetadataBytes - ic.metadataBytes then
    return (some (← trip .stagedMetadataTooLarge), ic)
  else
    match ← act (.reserve n) with
    | false => return (some (← trip .stagedResponseBudgetExhausted), ic)
    | true =>
      return (none, { ic with
        body := { ic.body with reserved := ic.body.reserved + n }
        metadataBytes := ic.metadataBytes + n })

def generatedMetadataAllowance : Int :=
  let issued := h.buildProxyCookie (List.replicate 43 120)
  let expired := h.buildExpiredProxyCookie
  setCookieName.length + (if expired.length > issued.length then expired else issued).length + 4

def reserveFinalMetadata (ic : Interceptor) : Act (Option Err × Interceptor) := do
  if ic.finalMetadataReserved then return (none, ic)
  else
    let n := stagedHeaderBytes ic.responseHeader + generatedMetadataAllowance h
    match ← ic.reserveMetadataBytes n with
    | (some e, ic) => return (some e, ic)
    | (none, ic) => return (none, { ic with finalMetadataReserved := true })

def writeHeader (ic : Interceptor) (status : Int) : Act (Except Panic Unit × Interceptor) := do
  if ic.wroteHeader then return (.ok (), ic)
  else if status < 100 ∨ status > 999 then return (.error ⟨status⟩, ic)
  else if Writer.informational status then
    if ic.informational.length ≥ stagedResponseMaxInformational then
      return (.ok (), ic.note (← trip .tooManyInformationalResponses))
    else
      match ← ic.reserveMetadataBytes (stagedHeaderBytes ic.responseHeader) with
      | (some e, ic) => return (.ok (), ic.note e)
      | (none, ic) =>
        return (.ok (), { ic with
          informational := ic.informational ++ [⟨status, ic.responseHeader⟩] })
  else return (.ok (), { ic with wroteHeader := true, status })

def bodyless (status : Int) : Bool :=
  status = 204 || status = 304 || (100 ≤ status && status < 200)

def write (ic : Interceptor) (p : List UInt8) : Act ((Nat × Option Err) × Interceptor) := do
  if ic.terminal then
    let (result, w) ← ic.w.write p
    return (result, { ic with w })
  else
    let (_, ic) ← ic.writeHeader 200
    if bodyless ic.status then return ((0, some .bodyNotAllowed), ic)
    else
      let ((n, err), body) ← ic.body.write p
      match err with
      | none => return ((n, none), { ic with body })
      | some e => return ((n, some e), { ic with body }.note e)

def discardBackendMetadata (ic : Interceptor) : Interceptor :=
  if ic.processed then ic
  else { ic with
    processed := true
    responseHeader := h.scrubTrailers (h.dropManaged ic.responseHeader) }

def commitInformational : List StagedInformationalResponse → Writer → Act Writer
  | [], w => return w
  | info :: rest, w => do
    let header := copyHeaders w.header (h.scrubManagedResponseHeader info.header)
    let w ← { w with header }.writeHeader info.status
    commitInformational rest w

def releaseTerminalStaging (ic : Interceptor) : Act Interceptor := do
  let body ← ic.body.reset
  return { ic with
    body
    informational := []
    responseHeader := clearHeaders ic.responseHeader
    metadataBytes := 0 }

/-- The wire commit that `FlushError` and `Hijack` share. Backend metadata is discarded and the
session is left alone. -/
def commitHandshake (ic : Interceptor) : Act Interceptor := do
  let ic := { ic.discardBackendMetadata h with terminal := true }
  let w ← commitInformational h ic.informational ic.w
  let w := { w with header := copyHeaders w.header ic.responseHeader }
  let w ← if ic.wroteHeader then w.writeHeader ic.status else pure w
  releaseTerminalStaging { ic with w }

def flushError (conn : Conn) (ic : Interceptor) : Act (Option Err × Interceptor) := do
  if !conn.extendedConnect then return (some .notSupported, ic)
  else if ic.terminal then
    let (err, w) ← ic.w.flush
    return (err, { ic with w })
  else if ic.writeErr.isSome then return (ic.writeErr, ic)
  else
    match ← ic.reserveFinalMetadata h with
    | (some e, ic) => return (some e, { ic with writeErr := some e })
    | (none, ic) =>
      if ic.body.len ≠ 0 then return (some .hijackWithStagedBody, ic)
      else
        -- After this the header is written, so the handshake commits it.
        let (_, ic) ← ic.writeHeader 200
        let ic ← ic.commitHandshake h
        let (err, w) ← ic.w.flush
        return (err, { ic with w, hijacked := ic.hijacked || err.isNone })

def hijack (conn : Conn) (ic : Interceptor) : Act (Option Err × Interceptor) := do
  if !conn.hijackable then return (some .hijackUnsupported, ic)
  else if ic.writeErr.isSome then return (ic.writeErr, ic)
  else
    match ← ic.reserveFinalMetadata h with
    | (some e, ic) => return (some e, { ic with writeErr := some e })
    | (none, ic) =>
      if ic.body.len ≠ 0 then return (some .hijackWithStagedBody, ic)
      else
        let ic ← ic.commitHandshake h
        let err ← act .hijack
        return (err, if err.isNone then { ic with hijacked := true, w := { ic.w with hijacked := true } }
          else ic)

def ensureLive (ic : Interceptor) : Act (Except Err Unit × Interceptor) := do
  if ic.live.isSome then return (.ok (), ic)
  else
    match ← h.manager.begin with
    | .error e => return (.error e, ic)
    | .ok l => return (.ok (), { ic with live := some l })

structure Controls where
  owner : Option Int := none
  rotate : Bool := false
  labels : Option (List GoString) := none

def readLabels (raw : List GoString) : Option (List GoString) :=
  if raw = [] then none
  else some ((splitLabels (join raw (lit ","))).filter (· ≠ Authz.anonymous))

/-- Each control is stripped as soon as it is read, whatever its value. -/
def readControls (hdr : Header) : Controls × Header :=
  let raw := hdr.get h.identityHeader
  let hdr := hdr.del h.identityHeader
  let rawRotate := hdr.get h.rotateHeaderName
  let hdr := hdr.del h.rotateHeaderName
  let rawLabels := hdr.values h.labelsHeaderName
  let hdr := hdr.del h.labelsHeaderName
  ({ owner := (parseInt raw).filter (0 < ·)
     rotate := h.rotateEnabled && (parseBool rawRotate).getD false
     labels := readLabels rawLabels }, hdr)

def sortCookies : List GoString → List CookieMutation → Interceptor →
    Act (Except Err (List CookieMutation) × Interceptor)
  | [], mutations, ic => return (.ok mutations, ic)
  | sc :: rest, mutations, ic => do
    match parseSetCookie h.parseTime sc with
    | none => sortCookies rest mutations ic
    | some cookie =>
      match h.filter.decide cookie.name with
      | .forward =>
        sortCookies rest mutations
          { ic with responseHeader := ic.responseHeader.add setCookieName sc }
      | .store =>
        let now ← act .wallClock
        if cookieDeletesNow sc cookie now then
          if ic.live.isSome then
            sortCookies rest (mutations ++ [{ name := cookie.name, delete := true }]) ic
          else sortCookies rest mutations ic
        else
          match ← ic.ensureLive h with
          | (.error e, ic) => return (.error e, ic)
          | (.ok (), ic) =>
            sortCookies rest (mutations ++ [{ name := cookie.name, value := cookie.value }]) ic
      | .drop => sortCookies rest mutations ic

def wantsSession (c : Controls) : Bool := c.owner.isSome || c.labels.any (· ≠ [])

def commitControls (ic : Interceptor) (c : Controls) (mutations : List CookieMutation) :
    Act (Except Err Unit × Interceptor) := do
  match ic.live with
  | none => return (.ok (), ic)
  | some l =>
    let (result, l) ← l.applyResponse h.manager c.owner c.labels c.rotate mutations
    let ic := { ic with live := some l }
    match result with
    | .error e => return (.error e, ic)
    | .ok () =>
      match l.newProxyCookie with
      | none => return (.ok (), ic)
      | some key => return (.ok (), { ic with
          responseHeader := ic.responseHeader.add setCookieName (h.buildProxyCookie key) })

def revokeLocked (ic : Interceptor) : Act (Except Err Unit × Interceptor) := do
  let expire (ic : Interceptor) : Interceptor :=
    if ic.hadProxyCookie then { ic with
      responseHeader := ic.responseHeader.add setCookieName h.buildExpiredProxyCookie } else ic
  match ic.live with
  | none => return (.ok (), expire ic)
  | some l =>
    match ← l.revoke with
    | (.error e, l) => return (.error e, { ic with live := some l })
    | (.ok (), _) => return (.ok (), expire { ic with live := none })

def processLocked (ic : Interceptor) : Act (Except Err Unit × Interceptor) := do
  let setCookies := ic.responseHeader.values setCookieName
  let (controls, responseHeader) := readControls h (ic.responseHeader.del setCookieName)
  if ic.revokeRequested then revokeLocked h { ic with responseHeader }
  else
    match ← sortCookies h setCookies [] { ic with responseHeader } with
    | (.error e, ic) => return (.error e, ic)
    | (.ok mutations, ic) =>
      if ic.live.isNone && wantsSession controls then
        match ← ic.ensureLive h with
        | (.error e, ic) => return (.error e, ic)
        | (.ok (), ic) => ic.commitControls h controls mutations
      else ic.commitControls h controls mutations

/-- The revoke signal is read and stripped before the lock is taken, so that a contended logout is
still known to be one. -/
def readRevoke (ic : Interceptor) : Interceptor :=
  let hdr := h.scrubTrailers ic.responseHeader
  let asked := h.revokeEnabled &&
    (hdr.values h.revokeHeaderName).any fun raw => parseBool raw = some true
  { ic with
    responseHeader := hdr.del h.revokeHeaderName
    revokeRequested := ic.revokeRequested || asked }

def process (ic : Interceptor) : Act (Except Err Unit × Interceptor) := do
  let ic := ic.readRevoke h
  match ic.revokeRequested, ic.resolveErr with
  | true, some e => return (.error (.revokeUnresolved e), ic)
  | _, _ =>
    match ic.live with
    | none => ic.processLocked h
    | some l => h.manager.withLock l.sessionID (fun e => (.error e, ic)) (ic.processLocked h)

/-- On any failure no backend cookie or control header survives. A failed logout is answered with
502 also under fail_open. -/
def ensureProcessed (ic : Interceptor) : Act Interceptor := do
  if ic.processed then return ic
  else
    match ← { ic with processed := true }.process h with
    | (.ok (), ic) =>
      act (.processed none)
      return ic
    | (.error e, ic) =>
      act (.processed (some e))
      let ic := { ic with responseHeader := h.dropManaged ic.responseHeader }
      if h.onStoreError = failClosed ∨ ic.revokeRequested then
        return { ic with failed := true, storeErr := some e }
      else return ic

end Interceptor

end Gosestor
