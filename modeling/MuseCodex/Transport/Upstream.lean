import MuseCodex.Transport.Images
import MuseCodex.Transport.Models
import MuseCodex.Transport.Response
import MuseCodex.Transport.Retry

/-!
# Requests to the Codex endpoint

The calls of `Transport` in `transport.rs` (here `CodexTransport`) that a client of the gateway
causes: a turn, a search, and opening a page. Each is one document that is sent under
`execute_with_401_recovery`, and every send resolves the credentials anew and puts the headers
together (`sendJsonOnce`).

The world is what the manager of the credentials and the HTTP client change (`rest`), the counters
for generated names, and the log of the requests that were sent. URLs are those of a library, which
is a parameter.
-/

namespace MuseCodex.Transport

open Text Json

/-! ## Credentials -/

/-- The kinds of credentials. -/
inductive AuthMode where
  | apiKey
  | chatgpt
  | chatgptAuthTokens
  | headers
  | agentIdentity
  | personalAccessToken
  | bedrockApiKey
  | bedrockAccessKeys
deriving DecidableEq

/-- Whether credentials are those of a person's account. -/
def AuthMode.hasChatgptAccount : AuthMode → Bool
  | .chatgpt | .chatgptAuthTokens | .personalAccessToken => true
  | .apiKey | .headers | .agentIdentity | .bedrockApiKey | .bedrockAccessKeys => false

/-- Credentials, as far as a request uses them. The token is missing where none can be read. -/
structure CodexAuth where
  apiAuthMode : AuthMode
  token : Option String
  accountId : Option String
  isFedrampAccount : Bool

namespace CodexAuth

/-- The kind of credentials, for which tokens of other origin are those of an account. -/
def authMode (auth : CodexAuth) : AuthMode :=
  match auth.apiAuthMode with
  | .chatgptAuthTokens => .chatgpt
  | mode => mode

/-- Whether the credentials are a key. -/
def isApiKeyAuth (auth : CodexAuth) : Bool := auth.authMode = .apiKey

/-- Whether the credentials are those of an account. -/
def isChatgptAuth (auth : CodexAuth) : Bool := auth.apiAuthMode.hasChatgptAccount

/-- The credentials of a key. -/
def fromApiKey (apiKey : String) : CodexAuth := ⟨.apiKey, some apiKey, none, false⟩

end CodexAuth

/-! ## The provider -/

/-- Where the subscription is served. -/
def CHATGPT_CODEX_BASE_URL : String := "https://chatgpt.com/backend-api/codex"

/-- Where the public API is served. -/
def OPENAI_BASE_URL : String := "https://api.openai.com/v1"

/-- Where and with which headers a provider is asked. -/
structure ApiProvider where
  baseUrl : String
  headers : HeaderMap

/-- The value of a header from a variable of the environment, unless it is blank. -/
def envHeader (environment : String → Option String) (name envVar : String) : HeaderMap :=
  match (environment envVar).filter fun value => trim value ≠ "" with
  | some value => ((headerValue value).map fun value => (name, value)).toList
  | none => []

/-- The provider for credentials of a kind. The environment may name an organization and a
project. -/
def toApiProvider (environment : String → Option String) (packageVersion : String)
    (baseUrl : Option String) (mode : AuthMode) : ApiProvider where
  baseUrl := baseUrl.getD (match mode with
    | .chatgpt | .chatgptAuthTokens | .headers | .agentIdentity | .personalAccessToken =>
      CHATGPT_CODEX_BASE_URL
    | .apiKey | .bedrockApiKey | .bedrockAccessKeys => OPENAI_BASE_URL)
  headers := ((headerValue packageVersion).map fun value => ("version", value)).toList ++
    envHeader environment "openai-organization" "OPENAI_ORGANIZATION" ++
    envHeader environment "openai-project" "OPENAI_PROJECT"

/-- The address of a path, which is not empty and does not start with a slash. -/
def ApiProvider.urlForPath (provider : ApiProvider) (path : String) : String :=
  String.ofList (provider.baseUrl.toList.reverse.dropWhile (· = '/')).reverse ++ "/" ++ path

/-! ## Headers -/

/-- What the transport calls itself. -/
def MUSE_CODEX_USER_AGENT : String := "muse-codex/0.1.0"

/-- The header that says that a request is in Responses Lite. -/
def RESPONSES_LITE_HEADER : String := "x-openai-internal-codex-responses-lite"

/-- The header of the routing hint. -/
def CODEX_ROUTING_HINT_HEADER : String := "x-codex-routing-hint"

/-- The headers that a request may not bring in. -/
def isForbiddenForwardedHeader (name : String) : Bool :=
  name ∈ ["authorization", "proxy-authorization", "cookie", "host", "content-length", "connection",
    "keep-alive", "proxy-authenticate", "te", "trailer", "transfer-encoding", "upgrade",
    "chatgpt-account-id", "x-openai-fedramp", "x-api-key", "api-key", "openai-organization",
    "openai-project", "originator", "user-agent", "version", RESPONSES_LITE_HEADER,
    CODEX_ROUTING_HINT_HEADER]

/-- Adds the headers of a call that may be passed on. -/
def mergeSafeRequestHeaders (destination source : HeaderMap) : HeaderMap :=
  destination.copy (fun name => !isForbiddenForwardedHeader name) source

/-- Adds the headers that show the credentials. -/
def attachAuthHeaders (headers : HeaderMap) (auth : CodexAuth) : Except Error HeaderMap :=
  match auth.token with
  | none => .error (.authentication "credential has no bearer token")
  | some token => match headerValue ("Bearer " ++ token) with
    | none => .error (.authentication "credential is not a valid header value")
    | some authorization =>
      let headers := headers.insert "authorization" authorization
      let withFedramp (headers : HeaderMap) :=
        if auth.isFedrampAccount then headers.insert "x-openai-fedramp" (toUtf8 "true") else headers
      match auth.accountId with
      | none => .ok (withFedramp headers)
      | some accountId => match headerValue accountId with
        | none => .error (.authentication "account id is not a valid header value")
        | some account => .ok (withFedramp (headers.insert "chatgpt-account-id" account))

/-- Sets or removes the header for Responses Lite. -/
def setInternalResponsesLiteHeader (headers : HeaderMap) (enabled : Bool) : HeaderMap :=
  if enabled then headers.insert RESPONSES_LITE_HEADER (toUtf8 "true")
  else headers.remove RESPONSES_LITE_HEADER

/-- Sets or removes the routing hint. -/
def setInternalRoutingHintHeader (headers : HeaderMap) (value : Option Bytes) : HeaderMap :=
  match value with
  | some value => headers.insert CODEX_ROUTING_HINT_HEADER value
  | none => headers.remove CODEX_ROUTING_HINT_HEADER

/-! ## Preparing a turn -/

/-- Fast mode needs a model of the catalog that has it. A custom endpoint is not checked. -/
def validateFastModeAvailability (enabled customBaseUrl : Bool)
    (capabilities : Option ModelCapabilities) : Except Error Unit :=
  if !enabled || customBaseUrl || capabilities.isNone then .ok ()
  else if capabilities.any (·.supportsFastMode) then .ok ()
  else .error .fastModeUnavailable

/-- Sets the tier of a request, whatever the request says of it. -/
def applyFastServiceTier (body : Value) (enabled : Bool) : Except Error Value :=
  match body.asObject with
  | none => .error (.invalidRequest "request body must be an object")
  | some object =>
    let object := object.erase "service_tier"
    .ok (.object (if enabled then object.insert "service_tier" (.string "priority") else object))

/-- What the subscription is told of a request besides its body. -/
def subscriptionRoutingHint (body : Value) : Except Error Bytes :=
  match (body.get "model").bind Value.asStr with
  | none => .error (.invalidRequest "model must be a string")
  | some model =>
    let hint := match (body.get "service_tier").bind Value.asStr with
      | some tier => "model=" ++ model ++ ";tier=" ++ tier
      | none => "model=" ++ model
    match headerValue hint with
    | none => .error (.invalidHeader "generated Codex routing hint")
    | some value => .ok value

/-- A request with a key has no hint. -/
def routingHintFor (apiKeyAuth : Bool) (body : Value) : Except Error (Option Bytes) :=
  if apiKeyAuth then .ok none else (subscriptionRoutingHint body).map some

/-- The name of the run of a request in Responses Lite, from its id if it has one. -/
def responsesLiteRequestNamespace (headers : HeaderMap) : Option String :=
  ((headerStr headers "x-request-id").filter fun id => id ≠ "" && id.utf8ByteSize ≤ 512).map
    ("request:" ++ ·)

/-! ## The other calls -/

/-- The search of a client. -/
structure SearchRequest where
  query : String
  requestId : String
  iterationIndex : ℕ

/-- Reads a search from a document: an object, or an array of the members in their order. -/
def SearchRequest.fromValue : Value → Option SearchRequest
  | .object object => do
    let query ← (Map.get object "query").bind Value.asStr
    let requestId ← (Map.get object "request_id").bind Value.asStr
    let iterationIndex ← (Map.get object "iteration_index").bind Value.asU64
    return ⟨query, requestId, iterationIndex⟩
  | .array [query, requestId, iterationIndex] => do
    return ⟨← query.asStr, ← requestId.asStr, ← iterationIndex.asU64⟩
  | _ => none

/-- The document of a search for upstream. -/
def SearchRequest.toUpstream (request : SearchRequest) : Except Error Value :=
  if trim request.query = "" then .error (.invalidRequest "search query cannot be empty")
  else if trim request.requestId = "" then
    .error (.invalidRequest "search request_id cannot be empty")
  else .ok (.obj [("id", .string (request.requestId ++ ":" ++ decimal request.iterationIndex)),
    ("input", .string request.query)])

/-! ## The transport -/

/-- A request that is sent. -/
structure HttpRequest (U : Type) where
  url : U
  headers : HeaderMap
  body : Value

/-- The library of URLs. -/
structure UrlLibrary (U : Type) where
  parse : String → Except String U
  scheme : U → String
  asStr : U → String

/-- An error of the HTTP client. -/
structure HttpError where
  reason : String
  isTimeout : Bool
  isConnect : Bool
  isRequest : Bool
  isBody : Bool

/-- An error of a send, among those of the transports. -/
def SendError.toError : SendError HttpError Error → Error
  | .http error => .http error.reason
  | .other error => error

/-- What the transport reads and changes. -/
structure World (V U : Type) where
  rest : V
  liteSequence : ℕ
  openSequence : ℕ
  sent : List (HttpRequest U)

/-- What a transport is built with. `readError` is the text of an error about a document that is no
search. -/
structure CodexTransport (V U H L : Type) where
  apiKeyOverride : Option String
  apiKeyBaseUrl : Option String
  fastMode : Bool
  modelCapabilities : Map ModelCapabilities
  urls : UrlLibrary U
  environment : String → Option String
  packageVersion : String
  codexUserAgent : String
  processId : ℕ
  serde : Serde
  sha256 : Bytes → Bytes
  items : ItemLibrary
  readError : Value → String
  auth : V → Option CodexAuth × V
  unauthorizedRecovery : V → UnauthorizedRecovery
  manager : AuthManager V
  http : HttpRequest U → V → Except HttpError RawResponse × V
  sleep : ℕ → V → V
  home : H
  acquireCredentialRefreshLock : H → V → Except String L × V

/-- The longest wait that a response can ask for, in seconds. -/
def MAX_RETRY_AFTER : ℕ := 2

/-- The wait that a response asks for. -/
def RawResponse.retryAfter (response : RawResponse) : Option ℕ :=
  ((headerStr response.headers "retry-after").bind fun value => parseU64 (trim value)).map
    (min · MAX_RETRY_AFTER)

namespace CodexTransport

variable {V U H L : Type} (t : CodexTransport V U H L)

/-- The credentials that there are: a key that the transport was given, or those of the manager. -/
def currentAuth (w : World V U) : Option CodexAuth × World V U :=
  match t.apiKeyOverride with
  | some apiKey => (some (CodexAuth.fromApiKey apiKey), w)
  | none =>
    let (auth, rest) := t.auth w.rest
    (auth, { w with rest })

/-- The credentials for a request. Only a key may be shown to a custom endpoint. -/
def resolveAuth (w : World V U) : Except Error CodexAuth × World V U :=
  match t.currentAuth w with
  | (none, w) => (.error .notAuthenticated, w)
  | (some auth, w) =>
    if !auth.isApiKeyAuth && !auth.isChatgptAuth then (.error .unsupportedAuthMode, w)
    else if t.apiKeyBaseUrl.isSome && !auth.isApiKeyAuth then
      (.error .customBaseUrlRequiresApiKey, w)
    else (.ok auth, w)

/-- The provider for some credentials. -/
def provider (auth : CodexAuth) : ApiProvider :=
  toApiProvider t.environment t.packageVersion
    (if auth.isApiKeyAuth then t.apiKeyBaseUrl else none) auth.authMode

/-- The name of the client. -/
def userAgent : String :=
  MUSE_CODEX_USER_AGENT ++ " wire/" ++ CODEX_WIRE_COMPATIBILITY_VERSION ++ " " ++ t.codexUserAgent

/-- The address and the headers of a request with some credentials. -/
def prepareRequest (path : String) (extraHeaders : HeaderMap) (accept : String) (auth : CodexAuth) :
    Except Error (U × HeaderMap) := do
  let provider := t.provider auth
  let url ← (t.urls.parse (provider.urlForPath path)).mapError .provider
  let headers := mergeSafeRequestHeaders provider.headers extraHeaders
  let headers := headers.insert "version" (toUtf8 CODEX_WIRE_COMPATIBILITY_VERSION)
  let headers ← attachAuthHeaders headers auth
  let headers := headers.insert "content-type" (toUtf8 "application/json")
  let headers := headers.insert "accept" (toUtf8 accept)
  match headerValue t.userAgent with
  | none => .error (.invalidHeader "generated user-agent")
  | some userAgent => .ok (url, headers.insert "user-agent" userAgent)

/-- What a request is sent with. -/
structure JsonRequestOptions where
  accept : String
  useResponsesLite : Bool
  routingHint : Option Bytes

/-- A document, sent once. -/
def sendJsonOnce (path : String) (body : Value) (extraHeaders : HeaderMap)
    (options : JsonRequestOptions) (w : World V U) :
    Except (SendError HttpError Error) RawResponse × World V U :=
  match t.resolveAuth w with
  | (.error error, w) => (.error (.other error), w)
  | (.ok auth, w) => match t.prepareRequest path extraHeaders options.accept auth with
    | .error error => (.error (.other error), w)
    | .ok (url, headers) =>
      let headers := setInternalResponsesLiteHeader headers options.useResponsesLite
      let headers := setInternalRoutingHintHeader headers options.routingHint
      let request : HttpRequest U := ⟨url, headers, body⟩
      match t.http request w.rest with
      | (.ok response, rest) => (.ok response, { w with rest, sent := w.sent ++ [request] })
      | (.error error, rest) => (.error (.http error), { w with rest, sent := w.sent ++ [request] })

/-- A send under `execute_with_401_recovery`. -/
def prestream (send : World V U → Except (SendError HttpError Error) RawResponse × World V U) :
    Prestream (World V U) UnauthorizedRecovery H L RawResponse HttpError Error where
  hasNext r w := r.hasNext t.manager w.rest
  next r w :=
    let (result, r, rest) := r.next t.manager w.rest
    (if result then .ok () else .error (.other (.authentication
      "credential refresh failed; run `muse-codex login` again")), r, { w with rest })
  send := send
  isTimeout := HttpError.isTimeout
  isConnect := HttpError.isConnect
  isRequest := HttpError.isRequest
  isBody := HttpError.isBody
  responseStatus := RawResponse.status
  retryAfter := RawResponse.retryAfter
  sleep delay w := { w with rest := t.sleep delay w.rest }
  acquireCredentialRefreshLock home w :=
    let (result, rest) := t.acquireCredentialRefreshLock home w.rest
    (result.mapError fun reason => .other (.credentialRefreshLock reason), { w with rest })

/-- A request that is sent until there is a response to stream. -/
def execute (fuel : ℕ)
    (send : World V U → Except (SendError HttpError Error) RawResponse × World V U)
    (w : World V U) : Option (Except Error RawResponse × World V U) :=
  let managed := t.apiKeyOverride.isNone
  let recovery := if managed then some (t.unauthorizedRecovery w.rest) else none
  let home := if managed then some t.home else none
  (executeWith401Recovery (t.prestream send) home fuel recovery w).map fun (_, result, s) =>
    (result.mapError SendError.toError, s.world)

/-- The name of the run of a request, which is generated for a request without an id. -/
def requestNamespace (extraHeaders : HeaderMap) (w : World V U) : String × World V U :=
  match responsesLiteRequestNamespace extraHeaders with
  | some requestNamespace => (requestNamespace, w)
  | none => ("process:" ++ decimal t.processId ++ ":" ++ decimal w.liteSequence,
      { w with liteSequence := w.liteSequence + 1 })

/-- The document of a turn, and what it is sent with. -/
def prepareTurn (body : Value) (extraHeaders : HeaderMap) (apiKeyAuth : Bool) (w : World V U) :
    Except Error (Value × JsonRequestOptions) × World V U :=
  match validateModelRequest t.modelCapabilities body apiKeyAuth with
  | .error reason => (.error (.invalidRequest reason), w)
  | .ok capabilities =>
    match validateFastModeAvailability t.fastMode t.apiKeyBaseUrl.isSome capabilities with
    | .error error => (.error error, w)
    | .ok () =>
      let useResponsesLite := capabilities.any (·.useResponsesLite)
      let (liteRequestNamespace, w) : Option String × World V U :=
        if useResponsesLite then
          let (requestNamespace, w) := t.requestNamespace extraHeaders w
          (some requestNamespace, w)
        else (none, w)
      let prepared := do
        let body ← applyFastServiceTier body t.fastMode
        let body ← (normalizeResponsesRequest t.serde t.sha256 t.items body apiKeyAuth
          useResponsesLite liteRequestNamespace).mapError .invalidRequest
        let routingHint ← routingHintFor apiKeyAuth body
        return (body, ⟨"text/event-stream", useResponsesLite, routingHint⟩)
      (prepared, w)

/-- A turn. -/
def streamResponses (fuel : ℕ) (body : Value) (extraHeaders : HeaderMap) (w : World V U) :
    Option (Except Error RawResponse × World V U) :=
  match t.resolveAuth w with
  | (.error error, w) => some (.error error, w)
  | (.ok auth, w) => match t.prepareTurn body extraHeaders auth.isApiKeyAuth w with
    | (.error error, w) => some (.error error, w)
    | (.ok (body, options), w) =>
      t.execute fuel (t.sendJsonOnce "responses" body extraHeaders options) w

/-- What documents other than turns are sent with. -/
def plainOptions : JsonRequestOptions := ⟨"application/json", false, none⟩

/-- Sends a search. -/
def search (fuel : ℕ) (request : SearchRequest) (extraHeaders : HeaderMap) (w : World V U) :
    Option (Except Error RawResponse × World V U) :=
  match request.toUpstream with
  | .error error => some (.error error, w)
  | .ok body => t.execute fuel (t.sendJsonOnce "alpha/search" body extraHeaders plainOptions) w

/-- Sends the search of a client. -/
def searchMuseRequest (fuel : ℕ) (request : Value) (extraHeaders : HeaderMap) (w : World V U) :
    Option (Except Error RawResponse × World V U) :=
  match SearchRequest.fromValue request with
  | none =>
    some (.error (.invalidRequest ("invalid Muse search request: " ++ t.readError request)), w)
  | some request => t.search fuel request extraHeaders w

/-- The id of a request to open a page: its own, that of the headers, or a generated one. -/
def openRequestId (object : Map Value) (extraHeaders : HeaderMap) (w : World V U) :
    String × World V U :=
  match ((object.get "request_id").bind Value.asStr).or (headerStr extraHeaders "x-request-id") with
  | some requestId => (requestId, w)
  | none => ("muse-browser-open-" ++ decimal t.processId ++ "-" ++ decimal w.openSequence,
      { w with openSequence := w.openSequence + 1 })

/-- Sends the request of a client to open a page. -/
def browserOpenMuseRequest (fuel : ℕ) (request : Value) (extraHeaders : HeaderMap)
    (w : World V U) : Option (Except Error RawResponse × World V U) :=
  match request.asObject with
  | none => some (.error (.invalidRequest "Muse browser_open request must be an object"), w)
  | some object =>
    match ((object.get "url").bind Value.asStr).filter fun url => trim url ≠ "" with
    | none => some (.error (.invalidRequest
        "Muse browser_open request must contain a non-empty url"), w)
    | some url => match t.urls.parse url with
      | .error reason => some (.error (.invalidRequest ("invalid browser_open URL: " ++ reason)), w)
      | .ok parsed =>
        if t.urls.scheme parsed ≠ "http" ∧ t.urls.scheme parsed ≠ "https" then
          some (.error (.invalidRequest "browser_open URL must use http or https"), w)
        else
          let (requestId, w) := t.openRequestId object extraHeaders w
          let body := .obj [("id", .string requestId), ("commands", .obj [("open",
            .array [.obj [("ref_id", .string (t.urls.asStr parsed))]])])]
          t.execute fuel (t.sendJsonOnce "alpha/search" body extraHeaders plainOptions) w

end CodexTransport

end MuseCodex.Transport
