import McpGateway.Config
import McpGateway.ScopePolicy
import McpGateway.ToolsList

/-!
# The proxied endpoint

`proxyMcp` as a pipeline of gates. A gate passes a value on or stops the
request with what has been audited and what the caller gets; a request that
passes them all is forwarded and its response relayed.
-/

namespace McpGateway

open Unicode Binary64 Json

inductive AuditDecision
  | pending
  | allowed
  | denied
  | rejected
  | error
  deriving DecidableEq

/-- One authorization decision, without its latency. -/
structure AuditRecord where
  requestId : Text
  clientRequestId : Option Text := none
  sourceIp : Option Text := none
  subject : Option Text := none
  issuer : Option Text := none
  audience : Option Text := none
  method : Option Text := none
  toolName : Option Text := none
  toolRule : Option Text := none
  toolsReturned : Option Nat := none
  toolsFiltered : Option Nat := none
  decision : AuditDecision := .pending
  errorCode : Option Text := none
  reason : Option Text := none
  requiredScopes : List Text := []
  heldScopeCount : Nat := 0
  upstreamStatus : Option Nat := none
  scopeValues : List Text := []
  deriving DecidableEq

def AuditRecord.decide (record : AuditRecord) (decision : AuditDecision) (errorCode : Text) : AuditRecord :=
  { record with decision := decision, errorCode := some errorCode }

def AuditRecord.because (record : AuditRecord) (reason : Text) : AuditRecord :=
  { record with reason := some reason }

/-! ## Requests and responses -/

/-- Bytes as Starlette shows them. -/
def latin1 (b : Bytes) : Text := b.map fun x => ⟨x.toNat, Nat.lt_trans x.toNat_lt (by decide)⟩

/-- A request to `/mcp`; the client may go away before the last chunk. -/
structure Request where
  raw : List (Bytes × Bytes)
  client : Option Text
  chunks : List Bytes
  disconnected : Bool

def Request.headers (request : Request) : List (Text × Text) := request.raw.map fun h => (latin1 h.1, latin1 h.2)

/-- `request.headers.get(name)`: the first of that name. -/
def Request.header (request : Request) (name : Text) : Option Text := request.headers.lookup name

inductive Body
  | content (b : Bytes)
  | stream (chunks : List Bytes) (ending : Option Exc)
  deriving DecidableEq

structure Response where
  status : Nat
  headers : List (Text × Text)
  mediaType : Option Text
  body : Body
  deriving DecidableEq

/-- A response whose headers can be written as Latin-1. -/
def respond (status : Nat) (headers : List (Text × Text)) (mediaType : Option Text) (body : Body) :
    Except Exc Response :=
  let writable (s : Text) := s.all fun c => c.val < 0x100
  if headers.all (fun h => writable h.1 && writable h.2) && (mediaType.getD []).all (fun c => c.val < 0x100) then
    .ok ⟨status, headers, mediaType, body⟩
  else .error .unicodeEncodeError

/-- `JSONResponse`, which prints its content like the canonical body. -/
def jsonResponse (py : Interp) (status : Nat) (content : List (Text × Value)) (headers : List (Text × Text)) :
    Except Exc Response :=
  match canonicalize py (.obj content) with
  | .error e => .error e
  | .ok b => respond status headers (some (txt "application/json")) (.content b)

def errorContent (error detail : Text) : List (Text × Value) :=
  [(txt "error", .str error), (txt "detail", .str detail)]

/-! ## What surrounds a request -/

inductive VerifyError
  | tokenError (message : Text)
  | raised (e : Exc)

structure UpstreamRequest where
  method : Text
  url : Text
  headers : List (Text × Text)
  content : Bytes
  deriving DecidableEq

/-- An opened response: its header items, its chunks, decoded and raw, and how reading them ends. -/
structure UpstreamResponse where
  status : Nat
  headers : List (Text × Text)
  decoded : List Bytes
  decodedEnd : Option Exc
  raw : List Bytes
  rawEnd : Option Exc

/-- `create_app`, and the claims its verifier decodes from a token during the request. -/
structure Gateway where
  settings : Settings
  verifier : Option (Text → Except VerifyError DecodedClaims)
  policy : ScopePolicy
  toolPolicy : Option ToolPolicy

structure Stop where
  emitted : List AuditRecord
  outcome : Except Exc Response

def raise (e : Exc) : Stop := ⟨[], .error e⟩

/-! ## Helpers -/

section
variable (py : Interp)

def normalizeOrigin (origin : Text) : Text := py.lower (rstrip (fun c => c = ch '/') (strip origin))

def bearerToken (request : Request) : Text :=
  let header := (request.header (txt "authorization")).getD []
  if !startsWith (py.lower header) (txt "bearer ") then [] else strip (header.drop 7)

def baseUrl (s : Settings) : Text :=
  match s.publicBaseUrl with
  | some url =>
    if url.isEmpty then txt "http://" ++ s.host ++ txt ":" ++ intRepr s.port else rstrip (fun c => c = ch '/') url
  | none => txt "http://" ++ s.host ++ txt ":" ++ intRepr s.port

def resourceMetadataUrl (s : Settings) : Text := baseUrl s ++ txt "/.well-known/oauth-protected-resource"

def unauthorized (s : Settings) (detail : Text) (errorCode : Option Text) : Except Exc Response :=
  let resource := txt "resource_metadata=\"" ++ resourceMetadataUrl s ++ txt "\""
  let challenge :=
    match errorCode with
    | some code => txt "Bearer error=\"" ++ code ++ txt "\", " ++ resource
    | none => txt "Bearer " ++ resource
  jsonResponse py 401 (errorContent (txt "unauthorized") detail) [(txt "WWW-Authenticate", challenge)]

def forbidden (detail : Text) (required : List Text) : Except Exc Response :=
  jsonResponse py 403
    (errorContent (txt "insufficient_scope") detail ++ [(txt "required_scopes", .arr (required.map .str))])
    [(txt "WWW-Authenticate", txt "Bearer error=\"insufficient_scope\", scope=\"" ++
      [ch ' '].intercalate required ++ txt "\"")]

def forbiddenTool (tool detail : Text) : Except Exc Response :=
  jsonResponse py 403 (errorContent (txt "tool_not_allowed") detail ++ [(txt "tool", .str tool)]) []

/-! ## The gates -/

variable (gw : Gateway) (request : Request)

def originGate (record : AuditRecord) : Except Stop Unit :=
  match request.header (txt "origin") with
  | none => .ok ()
  | some origin =>
    if normalizeOrigin py origin ∈ gw.settings.allowedOrigins.map (normalizeOrigin py) then .ok ()
    else .error
      ⟨[(record.decide .rejected (txt "origin_not_allowed")).because
          (txt "origin not in allow-list: " ++ strRepr py.isPrintable (origin.take 256))],
        jsonResponse py 403 (errorContent (txt "origin_not_allowed") (txt "request origin is not allowed")) []⟩

def tooLarge (record : AuditRecord) : Stop :=
  ⟨[record.decide .rejected (txt "payload_too_large")],
    jsonResponse py 413 (errorContent (txt "payload_too_large") (txt "request body exceeds limit")) []⟩

def lengthGate (record : AuditRecord) : Except Stop Unit :=
  if gw.settings.maxRequestBytes > 0 then
    match request.header (txt "content-length") with
    | none => .ok ()
    | some declared =>
      if py.isdigit declared then
        match py.int declared with
        | .error e => .error (raise e)
        | .ok n => if n > gw.settings.maxRequestBytes then .error (tooLarge py record) else .ok ()
      else .ok ()
  else .ok ()

/-- `async for chunk in request.stream()`. -/
def readBody (record : AuditRecord) : Bytes → List Bytes → Except Stop Bytes
  | body, [] => if request.disconnected then .error (raise .clientDisconnect) else .ok body
  | body, chunk :: chunks =>
    if gw.settings.maxRequestBytes > 0 ∧ (body ++ chunk).length > gw.settings.maxRequestBytes then
      .error (tooLarge py record)
    else readBody record (body ++ chunk) chunks

def verify (decode : Text → Except VerifyError DecodedClaims) (token : Text) : Except VerifyError VerifiedToken :=
  match decode token with
  | .error e => .error e
  | .ok claims =>
    match verifyClaims claims with
    | .error message => .error (.tokenError message)
    | .ok v => .ok v

def AuditRecord.verified (record : AuditRecord) (v : VerifiedToken) : AuditRecord :=
  { record with subject := some v.subject, heldScopeCount := v.scopes.card, scopeValues := sorted v.scopes }

def authenticate (record : AuditRecord) : Except Stop (Option VerifiedToken × AuditRecord) :=
  if gw.settings.requireAuth then
    match gw.verifier with
    | none => .error
        ⟨[record.decide .error (txt "server_misconfigured")],
          jsonResponse py 500 (errorContent (txt "server_misconfigured") (txt "auth required but no verifier")) []⟩
    | some decode =>
      let token := bearerToken py request
      if token.isEmpty then .error
        ⟨[record.decide .rejected (txt "missing_token")],
          unauthorized py gw.settings (txt "missing bearer token") none⟩
      else
        match verify decode token with
        | .error (.raised e) => .error (raise e)
        | .error (.tokenError message) => .error
            ⟨[(record.decide .rejected (txt "invalid_token")).because message],
              unauthorized py gw.settings (txt "invalid bearer token") (some (txt "invalid_token"))⟩
        | .ok v => .ok (some v, record.verified v)
  else .ok (none, record)

def heldScopes (verified : Option VerifiedToken) : Finset Text :=
  match verified with
  | some v => v.scopes
  | none => ∅

def parseGate (raw : Bytes) (record : AuditRecord) : Except Stop JsonRpcParse :=
  match parseJsonrpc py raw with
  | .error e => .error (raise e)
  | .ok parsed =>
    match parsed.error with
    | some error => .error
        ⟨[(record.decide .rejected parsed.errorCode).because error],
          jsonResponse py 400 (errorContent parsed.errorCode error) []⟩
    | none => .ok parsed

def scopeGate (parsed : JsonRpcParse) (verified : Option VerifiedToken) (record : AuditRecord) :
    Except Stop AuditRecord :=
  let decision := gw.policy.check py (parsed.method.getD []) (heldScopes verified)
  let record := { record with
    method := parsed.method, toolName := parsed.toolName, requiredScopes := sorted decision.required }
  if decision.allowed then .ok record
  else .error
    ⟨[(record.decide .denied (txt "insufficient_scope")).because decision.reason],
      forbidden py decision.reason (sorted decision.required)⟩

def missingName : Text := txt "tools/call request missing a string 'params.name'"

def toolGate (parsed : JsonRpcParse) (verified : Option VerifiedToken) (record : AuditRecord) :
    Except Stop AuditRecord :=
  match gw.toolPolicy with
  | none => .ok record
  | some toolPolicy =>
    if parsed.method = some (txt "tools/call") then
      match parsed.toolName with
      | none => .error
          ⟨[(record.decide .rejected (txt "invalid_tool_call")).because missingName],
            jsonResponse py 400 (errorContent (txt "invalid_tool_call") missingName) []⟩
      | some tool =>
        let decision := toolPolicy.check tool (verified.map VerifiedToken.claims)
        let record := { record with toolRule := decision.matchedRule }
        if decision.allowed then .ok record
        else .error
          ⟨[(record.decide .denied (txt "tool_not_allowed")).because decision.reason],
            forbiddenTool py tool decision.reason⟩
    else .ok record

structure Authorized where
  raw : Bytes
  verified : Option VerifiedToken
  parsed : JsonRpcParse
  record : AuditRecord

def openRecord (requestId : Text) : AuditRecord where
  requestId := requestId
  clientRequestId := request.header (txt "x-request-id")
  sourceIp := request.client
  issuer := some gw.settings.issuer
  audience := some gw.settings.audience

def authorize (requestId : Text) : Except Stop Authorized := do
  let record := openRecord gw request requestId
  originGate py gw request record
  lengthGate py gw request record
  let raw ← readBody py gw request record [] request.chunks
  let (verified, record) ← authenticate py gw request record
  let parsed ← parseGate py raw record
  let record ← scopeGate py gw parsed verified record
  let record ← toolGate py gw parsed verified record
  return ⟨raw, verified, parsed, record⟩

/-! ## Forwarding -/

def forwardedRequestHeaders : List Text :=
  [txt "accept", txt "accept-language", txt "content-type", txt "mcp-protocol-version", txt "mcp-session-id",
    txt "last-event-id", txt "traceparent", txt "tracestate"]

def allowListed : List (Text × Text) := request.headers.filter fun h => py.lower h.1 ∈ forwardedRequestHeaders

def fwdHeaders (verified : Option VerifiedToken) (requestId : Text) : List (Text × Text) :=
  let fwd := setMember (txt "X-Request-Id") requestId (dictOf (allowListed py request))
  match verified with
  | none => fwd
  | some v => (identityHeaders v).foldl (fun fwd h => setMember h.1 h.2 fwd) fwd

def upstreamRequest (a : Authorized) : UpstreamRequest :=
  ⟨txt "POST", gw.settings.upstreamUrl.text, fwdHeaders py request a.verified a.record.requestId,
    a.parsed.canonicalBody.getD a.raw⟩

/-! ## Relaying -/

/-- What the handler has done when it ends; `closed` counts its calls of `__aexit__`. -/
structure Run where
  attempts : List UpstreamRequest
  emitted : List AuditRecord
  closed : Nat
  outcome : Except Exc Response

structure Relay where
  emitted : List AuditRecord
  closed : Nat
  outcome : Except Exc Response

def toolsListError (record : AuditRecord) (code detail : Text) : Relay :=
  ⟨[(record.decide .rejected code).because detail], 1, jsonResponse py 502 (errorContent code detail) []⟩

def mediaType (up : UpstreamResponse) : Text :=
  py.lower (strip (((up.headers.lookup (txt "content-type")).getD []).takeWhile fun c => c ≠ ch ';'))

inductive PageRead
  | body (b : Bytes)
  | tooLarge
  | failed
  | raised (e : Exc)

/-- `async for chunk in upstream.aiter_bytes()`; only `httpx.HTTPError` is caught. -/
def readPage (up : UpstreamResponse) : Bytes → List Bytes → PageRead
  | body, [] =>
    match up.decodedEnd with
    | none => .body body
    | some (.requestError _) => .failed
    | some e => .raised e
  | body, chunk :: chunks =>
    if (body ++ chunk).length > gw.settings.maxToolsListBytes then .tooLarge else readPage up (body ++ chunk) chunks

def filteredResponseHeaders : List Text := [txt "mcp-session-id", txt "mcp-protocol-version"]

def relayFiltered (toolPolicy : ToolPolicy) (a : Authorized) (up : UpstreamResponse) : Relay :=
  let record := { a.record with upstreamStatus := some up.status }
  if mediaType py up ≠ txt "application/json" then
    toolsListError py record (txt "tools_list_filter_unsupported_media_type")
      (txt "tools/list response media type cannot be filtered")
  else
    match readPage gw up [] up.decoded with
    | .raised e => ⟨[], 1, .error e⟩
    | .tooLarge =>
      toolsListError py record (txt "tools_list_response_too_large")
        (txt "tools/list response exceeds filtering limit")
    | .failed =>
      toolsListError py record (txt "tools_list_read_failed") (txt "tools/list response could not be read")
    | .body body =>
      match filterToolsList py toolPolicy (a.verified.map VerifiedToken.claims) body with
      | .error e => ⟨[], 1, .error e⟩
      | .ok outcome =>
        match outcome.errorCode, outcome.body with
        | none, some content =>
          let record := { record with
            decision := .allowed, toolsReturned := some outcome.toolsReturned, toolsFiltered :=
              some outcome.toolsFiltered }
          let headers := dictOf (up.headers.filter fun h => py.lower h.1 ∈ filteredResponseHeaders)
          ⟨[record], 1, respond 200 (setMember (txt "Cache-Control") (txt "no-store") headers)
            (some (txt "application/json"))
            (.content content)⟩
        | errorCode, _ =>
          let code := errorCode.getD filterFailed
          toolsListError py record code
            (if code = upstreamError then txt "upstream returned a JSON-RPC error that was not relayed"
            else txt "tools/list response could not be filtered")

def hopByHop : List Text :=
  [txt "connection", txt "keep-alive", txt "proxy-authenticate", txt "proxy-authorization",
    txt "te", txt "trailers", txt "transfer-encoding", txt "upgrade", txt "host", txt "content-length"]

/-- Whether the upstream declares more than the cap; `int` may raise. -/
def overCap (up : UpstreamResponse) : Except Exc Bool :=
  if gw.settings.maxResponseBytes > 0 then
    match up.headers.lookup (txt "content-length") with
    | none => .ok false
    | some declared =>
      if py.isdigit declared then
        match py.int declared with
        | .error e => .error e
        | .ok n => .ok (n > gw.settings.maxResponseBytes)
      else .ok false
  else .ok false

def relayStreamed (a : Authorized) (up : UpstreamResponse) : Relay :=
  match overCap py gw up with
  | .error e => ⟨[], 0, .error e⟩
  | .ok true =>
    ⟨[a.record.decide .rejected (txt "response_too_large")], 1,
      jsonResponse py 413 (errorContent (txt "response_too_large") (txt "upstream response exceeds limit")) []⟩
  | .ok false =>
    ⟨[{ a.record with decision := .allowed, upstreamStatus := some up.status }], 0,
      respond up.status (dictOf (up.headers.filter fun h => py.lower h.1 ∉ hopByHop))
        (up.headers.lookup (txt "content-type"))
        (.stream up.raw up.rawEnd)⟩

def relay (a : Authorized) (up : UpstreamResponse) : Relay :=
  match gw.toolPolicy with
  | some toolPolicy =>
    if a.parsed.method = some (txt "tools/list") ∧ up.status = 200 then relayFiltered py gw toolPolicy a up
    else relayStreamed py gw a up
  | none => relayStreamed py gw a up

/-- `proxy_mcp`, with `upstream` for `client.stream(..).__aenter__()`. -/
def proxyMcp (upstream : UpstreamRequest → Except Exc UpstreamResponse) (requestId : Text) : Run :=
  match authorize py gw request requestId with
  | .error stop => ⟨[], stop.emitted, 0, stop.outcome⟩
  | .ok a =>
    let sent := upstreamRequest py gw request a
    match upstream sent with
    | .error (.requestError cls) =>
      ⟨[sent], [(a.record.decide .error (txt "bad_gateway")).because cls], 0,
        jsonResponse py 502 (errorContent (txt "bad_gateway") (txt "upstream unreachable: " ++ cls)) []⟩
    | .error e => ⟨[sent], [], 0, .error e⟩
    | .ok up =>
      let r := relay py gw a up
      ⟨[sent], r.emitted, r.closed, r.outcome⟩

end

end McpGateway
