import MuseCodex.Gateway.Fixpoint
import MuseCodex.Transport.Response

/-!
# The routes of the gateway

The handlers of `crates/muse-codex-gateway/src/server.rs`. What a handler does is either to answer
at once or to ask the transport once and to answer what comes back (`Handled`), so a request that
is answered at once has no effect beyond its answer. The body of a request arrives as the JSON
library of the web framework leaves it: a document, or the status of a rejection.

A failed answer of the upstream is reported in a frame that is built here. Its body is read up to a
limit and only for an error code and the name of a parameter (`sanitizeUpstreamFailure`), and only
some headers are passed on (`isForwardedResponseHeader`).
-/

namespace MuseCodex.Gateway

open Text Json Transport

/-! ## Answers -/

/-- An answer of the gateway. -/
structure Response where
  status : ℕ
  headers : HeaderMap
  body : List Poll

/-- Usage headers of an account. -/
def isCodexUsageHeader (name : String) : Bool :=
  name = "x-codex-active-limit" ||
    name = "x-codex-primary-over-secondary-limit-percent" ||
    name = "x-codex-promo-message" ||
    (toUtf8 "x-codex-credits-").isPrefixOf (toUtf8 name) ||
    ["-limit-name", "-primary-used-percent", "-primary-window-minutes", "-primary-reset-at",
      "-secondary-used-percent", "-secondary-window-minutes", "-secondary-reset-at"].any fun tail =>
        (toUtf8 "x-codex-").isPrefixOf (toUtf8 name) && (toUtf8 tail).isSuffixOf (toUtf8 name)

/-- The headers of an upstream answer that are passed on. -/
def isForwardedResponseHeader (name : String) : Bool :=
  name = "content-type" ||
    name ∈ ["retry-after", "retry-after-ms", "x-request-id", "x-oai-request-id", "openai-model",
      "x-openai-model", "x-reasoning-included", "x-models-etag"] ||
    (toUtf8 "x-ratelimit-").isPrefixOf (toUtf8 name) ||
    isCodexUsageHeader name

/-- The headers that every answer of the gateway starts with. -/
def guardHeaders : HeaderMap :=
  [("cache-control", toUtf8 "no-store"), ("x-content-type-options", toUtf8 "nosniff")]

/-- An answer with the headers of upstream that may be passed on. -/
def proxyResponse (status : ℕ) (headers : HeaderMap) (body : List Poll) : Response where
  status := status
  headers := guardHeaders.extend isForwardedResponseHeader headers
  body := body

/-- The type of a stream of events. -/
def eventStream : Bytes := toUtf8 "text/event-stream"

/-- An event stream as the answer to a turn. -/
def terminalSseStream (headers : HeaderMap) (body : List Poll) : Response :=
  proxyResponse 200 (headers.insert "content-type" eventStream) body

/-- An event stream of one frame. -/
def terminalSseResponse (headers : HeaderMap) (frame : Bytes) : Response :=
  terminalSseStream headers [.chunk frame]

section

variable (serde : Serde)

/-- An error in the shape of the provider. -/
def gatewayError (status : ℕ) (message kind : String) : Response where
  status := status
  headers := Headers.insert (Headers.insert [("content-type", toUtf8 "application/json")]
    "cache-control" (toUtf8 "no-store")) "x-content-type-options" (toUtf8 "nosniff")
  body := [.chunk (serde.toVec
    (.obj [("error", .obj [("message", .string message), ("type", .string kind)])]))]

/-! ## Failed answers -/

/-- The longest body of a failed answer that is read. -/
def MAX_UPSTREAM_ERROR_BYTES : ℕ := 64 * 1024

/-- What is repeated of a failed answer. -/
structure SanitizedUpstreamFailure where
  code : String
  message : String
  parameter : Option String
deriving DecidableEq

/-- The code of a failed answer: one of a few that are known, or one by the status. -/
def upstreamFailureCode (status : ℕ) (upstreamCode : Option String) : String :=
  match upstreamCode with
  | some "context_length_exceeded" => "context_length_exceeded"
  | some "rate_limit_exceeded" => "rate_limit_exceeded"
  | some "usage_limit_reached" => "rate_limit_exceeded"
  | some "invalid_api_key" => "invalid_api_key"
  | some "model_not_found" => "model_not_found"
  | some "insufficient_quota" => "insufficient_quota"
  | some "invalid_request" => "invalid_request"
  | _ =>
    if status = 429 then "rate_limit_exceeded"
    else if status = 401 ∨ status = 403 then "invalid_api_key"
    else "invalid_request"

/-- The message about a failed answer. -/
def upstreamFailureMessage (status : ℕ) (code : String) (parameter : Option String) : String :=
  let http := "(HTTP " ++ String.ofList (Nat.toDigits 10 status) ++ ")"
  let resumable := "; the request was not replayed and the session is resumable."
  match code with
  | "context_length_exceeded" =>
    "The request exceeded the model context window " ++ http ++
      "; it was not replayed and the session is resumable."
  | "rate_limit_exceeded" => "The Codex endpoint reported a rate limit " ++ http ++ resumable
  | "invalid_api_key" =>
    "The Codex endpoint rejected authentication " ++ http ++
      "; the request was not replayed and login is required."
  | "model_not_found" => "The requested Codex model was unavailable " ++ http ++ resumable
  | "insufficient_quota" => "The Codex endpoint reported insufficient quota " ++ http ++ resumable
  | _ =>
    match parameter with
    | some parameter =>
      "The Codex endpoint rejected request parameter '" ++ parameter ++ "' " ++ http ++ resumable
    | none =>
      if isClientError status then "The Codex endpoint rejected the request " ++ http ++ resumable
      else "The Codex endpoint failed " ++ http ++ resumable

/-- What is told of a rejection: a code, a message of the gateway's own and a safe parameter. -/
def sanitizeUpstreamFailure (status : ℕ) (body : Option Value) : SanitizedUpstreamFailure :=
  let error := (body.bind (·.get "error")).getD .null
  let parameter := ((error.get "param").bind Value.asStr).filter safeErrorParameter
  let code := upstreamFailureCode status ((error.get "code").bind Value.asStr)
  ⟨code, upstreamFailureMessage status code parameter, parameter⟩

/-- The document of a failed answer, if it arrives in time and within the limit. -/
def readDetails : Bytes → List Poll → Option Value
  | bytes, [] => serde.fromSlice bytes
  | bytes, .chunk chunk :: body =>
    if MAX_UPSTREAM_ERROR_BYTES < bytes.length + chunk.length then none
    else readDetails (bytes ++ chunk) body
  | _, .error :: _ => none
  | _, .elapsed :: _ => none

/-- What is told of the body of a rejection. -/
def inspectUpstreamFailure (status : ℕ) (body : List Poll) : SanitizedUpstreamFailure :=
  sanitizeUpstreamFailure status (readDetails serde [] body)

/-- The failure frame of a request for which there is no stream. -/
def gatewayFailureFrame (now : UInt64) (model : Option String) (code message : String)
    (parameter : Option String) : Bytes :=
  failureFrame ⟨serde, MAX_EVENT_BYTES, none, now⟩ none model 0 code message parameter

/-- The media type of an answer, for the message about a stream that breaks the protocol. -/
def responseMediaType (headers : HeaderMap) : Option String :=
  safeUpstreamMediaType (headerStr headers "content-type")

/-- The answer to a turn from what upstream answers. -/
def proxySseResponse (now : UInt64) (upstream : RawResponse) (requestModel : Option String) :
    Response :=
  if isSuccess upstream.status then
    proxyResponse 200 (upstream.headers.insert "content-type" eventStream)
      ((validatedFrames ⟨serde, MAX_EVENT_BYTES, responseMediaType upstream.headers, now⟩
        upstream.body).map .chunk)
  else
    let failure := inspectUpstreamFailure serde upstream.status upstream.body
    terminalSseStream upstream.headers [.chunk
      (gatewayFailureFrame serde now requestModel failure.code failure.message failure.parameter)]

/-- The answer on an auxiliary route from what upstream answers. -/
def proxyAuxiliaryResponse (upstream : RawResponse) (failureMessage failureKind : String) :
    Response :=
  if isSuccess upstream.status then
    proxyResponse upstream.status upstream.headers upstream.body
  else
    let response := gatewayError serde upstream.status failureMessage failureKind
    { response with
      headers := response.headers.extend
        (fun name => name ≠ "content-type" && isForwardedResponseHeader name) upstream.headers }

/-! ## Requests -/

/-- The routes. -/
inductive Route where
  | health
  | models
  | responses
  | search
  | browserOpen
  | feedback
deriving DecidableEq

/-- What a handler asks of the transport. -/
inductive Call where
  | streamResponses (body : Value)
  | searchMuseRequest (request : Value)
  | browserOpenMuseRequest (request : Value)

/-- What a handler does: it answers, or it asks the transport and answers what comes back. -/
inductive Handled where
  | answer (response : Response)
  | ask (call : Call) (headers : HeaderMap) (respond : Except Error RawResponse → Response)

/-- The version of the readiness file. -/
def READY_SCHEMA_VERSION : ℕ := 4

/-- The answer to a check of the gateway. -/
def health : Response where
  status := 200
  headers := [("content-type", toUtf8 "application/json")]
  body := [.chunk (serde.toVec
    (.obj [("status", .string "ok"), ("schema_version", .ofNat READY_SCHEMA_VERSION)]))]

/-- An answer that the document of a request was rejected. -/
def rejectedJson (status : ℕ) : Response :=
  gatewayError serde status
    (if status = 413 then "The gateway request body exceeded the size limit."
    else if status = 415 then "The gateway request must use application/json."
    else "The gateway request body was not valid JSON.") "invalid_request"

/-- Makes a request one for a stream that is not stored. -/
def prepareResponsesRequest (request : Value) : Except String Value :=
  match request.asObject with
  | none => .error "The Responses request must be a JSON object."
  | some object =>
    if object.get "stream" = some (.bool false) then
      .error "muse-codex requires streaming Responses requests."
    else if object.get "background" = some (.bool true) then
      .error "muse-codex does not support background Responses requests."
    else .ok (.object ((object.insert "store" (.bool false)).insert "stream" (.bool true)))

/-- The headers of a request that are passed on. -/
def upstreamRequestHeaders (source : HeaderMap) : HeaderMap :=
  (Headers.insertFirst [] source "accept-language").insertFirst source "x-request-id"

/-- The answer to a turn whose transport failed before there was a stream. -/
def turnFailure (now : UInt64) (model : Option String) : Error → Response
  | .fastModeUnavailable => terminalSseResponse [] (gatewayFailureFrame serde now model
      "invalid_request" ("Fast mode is unavailable for the selected model. Choose a Fast-capable " ++
        "model or restart without --fast; the session is resumable.") none)
  | _ => terminalSseResponse [] (gatewayFailureFrame serde now model "invalid_request"
      ("The Codex transport failed before streaming began; the request was not replayed and the " ++
        "session is resumable.") none)

/-- The route for turns. -/
def responses (now : UInt64) (headers : HeaderMap) (payload : Except ℕ Value) : Handled :=
  match payload with
  | .error status => .answer (rejectedJson serde status)
  | .ok request => match prepareResponsesRequest request with
    | .error message => .answer (gatewayError serde 400 message "invalid_request")
    | .ok request =>
      let requestModel := (request.get "model").bind Value.asStr
      .ask (.streamResponses request) (upstreamRequestHeaders headers) fun
        | .ok upstream => proxySseResponse serde now upstream requestModel
        | .error error => turnFailure serde now requestModel error

/-- The texts of an auxiliary route. -/
structure Auxiliary where
  rejected : String
  invalid : String
  unsupported : String
  failed : String
  kind : String

/-- A route that is not a turn. -/
def auxiliary (texts : Auxiliary) (call : Value → Call) (headers : HeaderMap)
    (payload : Except ℕ Value) : Handled :=
  match payload with
  | .error status => .answer (rejectedJson serde status)
  | .ok request => .ask (call request) (upstreamRequestHeaders headers) fun
      | .ok upstream => proxyAuxiliaryResponse serde upstream texts.rejected texts.kind
      | .error (.invalidRequest _) => gatewayError serde 400 texts.invalid "invalid_request"
      | .error (.providerUnsupported _) =>
        gatewayError serde 501 texts.unsupported "provider_unsupported"
      | .error _ => gatewayError serde 502 texts.failed texts.kind

/-- The texts of the route for searches. -/
def searchTexts : Auxiliary where
  rejected := "Codex search was rejected by the upstream endpoint."
  invalid := "The search request was invalid."
  unsupported := "Web search is not available with the selected provider."
  failed := "Codex search failed. The session is resumable."
  kind := "codex_search_error"

/-- The route for searches. -/
def search : HeaderMap → Except ℕ Value → Handled :=
  auxiliary serde searchTexts .searchMuseRequest

/-- The texts of the route that opens a page. -/
def browserOpenTexts : Auxiliary where
  rejected := "Codex browser-open was rejected by the upstream endpoint."
  invalid := "The browser-open request was invalid."
  unsupported := "Browser open is not available with the selected provider."
  failed := "Codex browser-open failed. The session is resumable."
  kind := "codex_browser_open_error"

/-- The route that opens a page. -/
def browserOpen : HeaderMap → Except ℕ Value → Handled :=
  auxiliary serde browserOpenTexts .browserOpenMuseRequest

/-- Whether a request bears the token. -/
def bearerMatches (expected : Bytes) (headers : HeaderMap) : Bool :=
  match (headerStr headers "authorization").bind (stripText "Bearer ") with
  | some candidate => expected = toUtf8 candidate
  | none => false

/-- The answer to a client without the token. -/
def unauthorized : Response :=
  let response := gatewayError serde 401 "Missing or invalid private gateway bearer token."
    "unauthorized"
  { response with
    headers := response.headers.insert "www-authenticate"
      (toUtf8 "Bearer realm=\"muse-codex-gateway\"") }

/-- A request to a route. -/
def handle (token : Bytes) (now : UInt64) (route : Route) (headers : HeaderMap)
    (payload : Except ℕ Value) : Handled :=
  if !bearerMatches token headers then .answer (unauthorized serde)
  else match route with
    | .health => .answer (health serde)
    | .models => .answer ⟨304, [], []⟩
    | .responses => responses serde now headers payload
    | .search => search serde headers payload
    | .browserOpen => browserOpen serde headers payload
    | .feedback => .answer ⟨204, [], []⟩

end

end MuseCodex.Gateway
