import Mathlib.Data.List.Infix
import MuseCodex.Transport.Upstream
import MuseCodex.Zai.Request

/-!
# Requests to the Z.ai endpoint

`ZaiTransport` (`crates/codex-transport/src/zai/mod.rs`) with the catalog that is pinned in
`catalog.rs`. A turn is one request: there is no loop around it, and no credentials are refreshed. A
rejection is replaced by a document with a code of the gateway's own vocabulary.
-/

namespace MuseCodex.Zai

open Text Json Transport

/-! ## The catalog -/

/-- The longest output of a model. -/
def MAX_OUTPUT_TOKENS : ℕ := 131072

/-- The efforts that a model can be asked for. -/
def REASONING_EFFORTS : List String := ["minimal", "low", "medium", "high", "xhigh", "ultra"]

/-- What is pinned of a model. -/
structure PinnedModel where
  id : String
  displayName : String
  description : String
  contextWindow : Option UInt64
  acceptsImages : Bool

/-- The models that the transport knows. -/
def PINNED_MODELS : List PinnedModel := [
  { id := "glm-5.3"
    displayName := "GLM-5.3"
    description := "Z.ai GLM Coding Plan default coding model"
    contextWindow := some 1048576
    acceptsImages := false },
  { id := "glm-5.3-flash"
    displayName := "GLM-5.3 Flash"
    description := "Faster multimodal GLM Coding Plan model"
    contextWindow := none
    acceptsImages := true },
  { id := "glm-4.7"
    displayName := "GLM-4.7"
    description := "Previous-generation GLM coding model"
    contextWindow := none
    acceptsImages := false },
  { id := "glm-4.6"
    displayName := "GLM-4.6"
    description := "Previous-generation GLM coding model"
    contextWindow := none
    acceptsImages := false }]

/-- A row of the catalog. The first model is the default. -/
def PinnedModel.info (model : PinnedModel) (index : ℕ) : ModelInfo where
  id := model.id
  displayName := some model.displayName
  description := some model.description
  contextWindow := model.contextWindow
  maxOutputTokens := some (UInt64.ofNat MAX_OUTPUT_TOKENS)
  supportedReasoningEfforts := REASONING_EFFORTS
  defaultReasoningEffort := some "medium"
  isVisible := true
  isDefault := index = 0
  useResponsesLite := false
  toolMode := some "direct"
  inputModalities := if model.acceptsImages then ["text", "image"] else ["text"]
  supportedInApi := true
  supportsFastMode := false

/-- The models of the catalog, in order. -/
def pinnedModels : List ModelInfo := PINNED_MODELS.mapIdx fun index model => model.info index

/-- What a catalog asks of a pinned model. -/
def PinnedModel.isSound (model : PinnedModel) : Bool :=
  validateModelId model.id = .ok () && model.displayName ≠ "" &&
    model.displayName.utf8ByteSize ≤ 512 && model.description.utf8ByteSize ≤ 16 * 1024 &&
    (model.displayName ++ model.description).toList.all (!isControl ·) &&
    model.contextWindow.all fun limit => 0 < limit.toNat && limit.toNat < 2 ^ 63

/-- A sound model is a valid row of the catalog. -/
theorem PinnedModel.info_valid {model : PinnedModel} (h : model.isSound = true) (index : ℕ) :
    (model.info index).Valid := by
  simp only [isSound, Bool.and_eq_true, decide_eq_true_eq, String.toList_append, List.all_append]
    at h
  obtain ⟨⟨⟨⟨⟨hid, hne⟩, hname⟩, hdescription⟩, hplain, hplain'⟩, hlimit⟩ := h
  have hcontrol {text : String} (htext : text.toList.all (!isControl ·) = true) :
      ∀ c ∈ text.toList, isControl c = false := fun c hc => by
    simpa using List.all_eq_true.mp htext c hc
  have hefforts : REASONING_EFFORTS.Nodup ∧
      (∀ effort ∈ REASONING_EFFORTS, isReasoningEffort effort = true) ∧
      ∀ effort ∈ some "medium", effort ∈ REASONING_EFFORTS := by
    decide
  refine ⟨hid, fun text htext => ?_, fun text htext => ?_, fun limit hmem => ?_, fun limit hmem => ?_,
    hefforts.1, hefforts.2.1, hefforts.2.2⟩
  · cases htext
    exact ⟨hne, hname, hcontrol hplain⟩
  · cases htext
    refine ⟨hdescription, fun c hc hbad => ?_⟩
    rw [hcontrol hplain' c hc] at hbad
    cases hbad
  · have hwindow : model.contextWindow = some limit := hmem
    rw [hwindow] at hlimit
    simpa using hlimit
  · cases hmem
    decide

/-- The pinned models are a catalog. -/
theorem catalog_pinnedModels : Catalog pinnedModels where
  count := by decide
  valid model hmodel := by
    obtain ⟨index, hindex, rfl⟩ := List.mem_mapIdx.mp hmodel
    have hsound : PINNED_MODELS.all PinnedModel.isSound = true := by decide
    exact PinnedModel.info_valid (List.all_eq_true.mp hsound _ (List.getElem_mem hindex)) index
  ids := by decide
  default := by
    refine ⟨[], _, _, rfl, rfl, rfl, by simp, ?_⟩
    decide

/-- The row of a model, if it is in the catalog. -/
def find (id : String) : Option ModelInfo := pinnedModels.find? (·.id = id)

/-! ## Rejections -/

/-- The longest body of a rejection that is read. -/
def MAX_ERROR_RESPONSE_BYTES : ℕ := 64 * 1024

/-- Whether a text has another one in it. -/
def hasPart (part text : String) : Bool := part.toList <:+: text.toList

/-- The code in an error of the endpoint. -/
def errorCode (serde : Serde) (error : Option Value) : String :=
  match error.bind (·.get "code") with
  | some (.string code) => code
  | some other => serde.toString other
  | none => ""

/-- The message in an error of the endpoint, in lower case. -/
def errorMessage (error : Option Value) : String :=
  String.ofList ((((error.bind (·.get "message")).bind Value.asStr).getD "").toList.map toAsciiLower)

/-- The code that is reported for a code, a message, and a status of the endpoint. -/
def classify (status : ℕ) (code message : String) : String :=
  if hasPart "context length" message || hasPart "context window" message then
    "context_length_exceeded"
  else if code ∈ ["1000", "1001", "1002", "1003", "1004"] then "invalid_api_key"
  else if code ∈ ["1110", "1112", "1113"] then "insufficient_quota"
  else if code ∈ ["1211", "1212"] then "model_not_found"
  else if code = "1261" then "context_length_exceeded"
  else if code ∈ ["1302", "1303", "1304", "1305"] then "rate_limit_exceeded"
  else if status = 429 then "rate_limit_exceeded"
  else if status = 401 ∨ status = 403 then "invalid_api_key"
  else if status = 404 then "model_not_found"
  else "invalid_request"

/-- The code that is reported for a rejection. -/
def classifyFailure (serde : Serde) (status : ℕ) (details : Option Value) : String :=
  let error := details.bind (·.get "error")
  classify status (errorCode serde error) (errorMessage error)

/-- The bytes of a body that does not break off. -/
def wholeBody : List Poll → Option Bytes
  | [] => some []
  | .chunk bytes :: polls => (wholeBody polls).map (bytes ++ ·)
  | .error _ :: _ => none

/-- The document of a rejection. -/
def failureDetails (serde : Serde) (polls : List Poll) : Option Value :=
  let body := (wholeBody polls).getD []
  if body.length ≤ MAX_ERROR_RESPONSE_BYTES then serde.fromSlice body else none

/-- The document that replaces that of a rejection. -/
def failureDocument (code : String) : Value :=
  .obj [("error", .obj [("code", .string code), ("param", .null)])]

/-- The answer that replaces a rejection. -/
def canonicalFailure (serde : Serde) (status : ℕ) (polls : List Poll) : RawResponse where
  status := status
  headers := [("content-type", toUtf8 "application/json")]
  body := [.chunk (serde.toVec
    (failureDocument (classifyFailure serde status (failureDetails serde polls))))]

/-! ## The transport -/

/-- What the HTTP client returns for a request. -/
structure ZaiAnswer where
  status : ℕ
  body : List Poll

/-- What a transport is built with. -/
structure ZaiTransport (V U : Type) where
  apiKey : String
  baseUrl : U
  urls : UrlLibrary U
  serde : Serde
  processId : ℕ
  http : HttpRequest U → V → Except String ZaiAnswer × V

/-- What the transport reads and changes: what the HTTP client does (`rest`), the counter for
generated names, and the log of the requests that were sent. -/
structure ZaiWorld (V U : Type) where
  rest : V
  requestSequence : ℕ
  sent : List (HttpRequest U)

namespace ZaiTransport

variable {V U : Type} (t : ZaiTransport V U)

/-- The address of turns, under the endpoint without its last slashes. -/
def chatCompletionsUrl : Except Error U :=
  (t.urls.parse (String.ofList ((t.urls.asStr t.baseUrl).toList.reverse.dropWhile (· = '/')).reverse
    ++ "/chat/completions")).mapError .provider

/-- The limits of a model of the catalog. -/
def limitsOf (pinned : ModelInfo) : ModelLimits :=
  ⟨pinned.inputModalities.any (· = "image"), MAX_OUTPUT_TOKENS, by decide⟩

/-- The request of a turn, with what the stream of its answer needs. -/
def prepareChat (request : Value) : Except Error (HttpRequest U × String × ToolNames) :=
  match (request.get "model").bind Value.asStr with
  | none => .error (.invalidRequest "the Responses request needs a model")
  | some model => match find model with
    | none => .error (.invalidRequest "the requested model is not in the pinned Z.ai catalog")
    | some pinned => do
      let translated ← (translate t.serde request (limitsOf pinned)).mapError .invalidRequest
      match headerValue ("Bearer " ++ t.apiKey) with
      | none => .error (.invalidHeader "the stored Z.ai key is not a valid header")
      | some authorization =>
        let url ← t.chatCompletionsUrl
        return (⟨url, [("authorization", authorization),
          ("content-type", toUtf8 "application/json"), ("accept", toUtf8 "text/event-stream")],
          translated.body⟩, model, translated.tools)

/-- The stream of a turn, or what replaces a rejection of it. -/
def receiveChat (answer : ZaiAnswer) (model : String) (tools : ToolNames) (w : ZaiWorld V U) :
    RawResponse × ZaiWorld V U :=
  if isSuccess answer.status then
    let requestKey := "process:" ++ decimal t.processId ++ ":" ++ decimal w.requestSequence
    (⟨200, [("content-type", toUtf8 "text/event-stream")],
      (responsesStream t.serde answer.body model requestKey tools).map .chunk⟩,
      { w with requestSequence := w.requestSequence + 1 })
  else (canonicalFailure t.serde answer.status answer.body, w)

/-- A turn. Nothing of the headers of the client is used. -/
def streamResponses (request : Value) (_headers : HeaderMap) (w : ZaiWorld V U) :
    Except Error RawResponse × ZaiWorld V U :=
  match t.prepareChat request with
  | .error error => (.error error, w)
  | .ok (chat, model, tools) => match t.http chat w.rest with
    | (.error reason, rest) => (.error (.http reason), { w with rest, sent := w.sent ++ [chat] })
    | (.ok answer, rest) =>
      let (response, w) := t.receiveChat answer model tools { w with rest, sent := w.sent ++ [chat] }
      (.ok response, w)

end ZaiTransport

end MuseCodex.Zai
