import MuseCodex.Gateway.Turn
import MuseCodex.Zai.Minimization
import MuseCodex.Zai.Transport

/-!
# A client of a gateway in front of Z.ai

The gateway over the Z.ai transport, from the request of a client to the answer. What the
translation leaves out has no part in the exchange, and neither have the headers of the client: two
requests that agree in the rest are sent alike and answered alike (`exchange_agree`).

A rejection is sanitized twice, by the transport, which replaces it, and by the gateway. The class
that the transport gave it comes through, and nothing else does (`rejection_classified`).
-/

namespace MuseCodex.Gateway

open Text Json Transport Fallible
open Zai (ZaiTransport ZaiWorld ZaiAnswer)

variable {V U : Type} (t : ZaiTransport V U)

/-- What the transport does for a call. There is no search service behind it. -/
def runZaiCall (call : Call) (headers : HeaderMap) (w : ZaiWorld V U) :
    Except Error RawResponse × ZaiWorld V U :=
  match call with
  | .streamResponses body => t.streamResponses body headers w
  | .searchMuseRequest _ => (.error (.providerUnsupported "web search"), w)
  | .browserOpenMuseRequest _ => (.error (.providerUnsupported "browser open"), w)

/-! ## What is prepared -/

/-- Members that are not translated can be set. -/
theorem only_insert {keys : List String} {k : String} (hk : k ∉ keys) (v : Value) (m : Map Value) :
    Map.only keys (m.insert k v) = Map.only keys m := by
  unfold Map.only
  induction m with
  | nil => simp [Map.insert, hk]
  | cons e m ih =>
    simp only [Map.insert]
    split_ifs with heq hlt
    · subst heq
      simp [hk]
    · simp [hk]
    · rw [List.filter_cons, List.filter_cons, ih]

/-- The gateway prepares a request by members that are not translated. -/
theorem erase_prepareResponsesRequest {request prepared : Value}
    (h : prepareResponsesRequest request = .ok prepared) :
    Zai.erase prepared = Zai.erase request := by
  unfold prepareResponsesRequest at h
  cases request with
  | object object =>
    simp only [Value.asObject_object] at h
    split_ifs at h
    cases h
    simp only [Zai.erase]
    rw [only_insert (by decide), only_insert (by decide)]
  | null | bool | number | string | array => cases h

/-- The model of a request is left. -/
theorem get_model_erase (request : Value) :
    (Zai.erase request).get "model" = request.get "model" := by
  cases request with
  | object m =>
    rw [Zai.erase, Value.get_object, Value.get_object,
      Zai.get_erase_of_ne (by decide) (by decide) (by decide) (by decide)]
  | null | bool | number | string | array => rfl

/-- What is prepared for the endpoint depends on what is translated only. -/
theorem prepareChat_erase (request : Value) :
    t.prepareChat (Zai.erase request) = t.prepareChat request := by
  unfold ZaiTransport.prepareChat
  simp only [get_model_erase, Zai.translate_erase]

/-- What the endpoint is sent for the request that is prepared is what it is sent for the request of
the client. -/
theorem prepareChat_prepareResponsesRequest {request prepared : Value}
    (h : prepareResponsesRequest request = .ok prepared) :
    t.prepareChat prepared = t.prepareChat request := by
  rw [← prepareChat_erase, erase_prepareResponsesRequest h, prepareChat_erase]

variable {t}

/-- A request that is prepared names its model. -/
theorem model_of_prepareChat {request : Value} {chat : HttpRequest U} {model : String}
    {tools : Zai.ToolNames} (h : t.prepareChat request = .ok (chat, model, tools)) :
    (request.get "model").bind Value.asStr = some model := by
  unfold ZaiTransport.prepareChat at h
  split at h
  · cases h
  rename_i model' hmodel
  split at h
  · cases h
  obtain ⟨translated, -, h⟩ := bind_eq_ok.mp h
  split at h
  · cases h
  obtain ⟨url, -, h⟩ := bind_eq_ok.mp h
  cases h
  exact hmodel

/-- The route for turns asks for the request that it prepares, and answers what comes back as the
answer to the model that the client named. -/
theorem ask_of_handle {serde : Serde} {token : Bytes} {now : UInt64} {headers : HeaderMap}
    {payload : Except ℕ Value} {call : Call} {passed : HeaderMap}
    {respond : Except Error RawResponse → Response}
    (h : handle serde token now .responses headers payload = .ask call passed respond) :
    ∃ request prepared, payload = .ok request ∧ prepareResponsesRequest request = .ok prepared ∧
      call = .streamResponses prepared ∧
      (∀ upstream, respond (.ok upstream) =
        proxySseResponse serde now upstream ((request.get "model").bind Value.asStr)) ∧
      ∀ error, respond (.error error) =
        turnFailure serde now ((request.get "model").bind Value.asStr) error := by
  obtain ⟨-, ⟨-, h⟩ | ⟨hroute, -⟩⟩ := handle_ask h
  case inr => exact absurd rfl hroute
  unfold responses at h
  cases payload with
  | error status => cases h
  | ok request =>
    cases hprepare : prepareResponsesRequest request with
    | error message => simp [hprepare] at h
    | ok prepared =>
      have hmodel : prepared.get "model" = request.get "model" := by
        rw [get_prepareResponsesRequest hprepare, if_neg (by decide), if_neg (by decide)]
      simp only [hprepare, hmodel, Handled.ask.injEq] at h
      obtain ⟨rfl, -, rfl⟩ := h
      exact ⟨request, prepared, rfl, hprepare, rfl, fun _ => rfl, fun _ => rfl⟩

variable (t)

/-- A transport whose account has run out, as the endpoint says in two chunks. -/
def exhausted : ZaiTransport Unit String where
  apiKey := "k"
  baseUrl := "https://z/"
  urls := ⟨.ok, fun _ => "https", id⟩
  serde := Compact.serde
  processId := 1
  http _ _ := (.ok ⟨429, [.chunk (toUtf8 "\x7b\"error\":\x7b\"code\":\"11"),
    .chunk (toUtf8 "13\",\"message\":\"m\"\x7d\x7d")]⟩, ())

/-- A request for a turn, and a note that is not for the endpoint. -/
def notedTurn (note : String) : Value :=
  .obj [("input", .array [.obj [("content", .string "go"), ("role", .string "user"),
    ("type", .string "message")]]), ("model", .string "glm-4.6"), ("note", .string note)]

/-! ## Two clients -/

/-- Two turns that agree in what is translated are one exchange with the endpoint, and are answered
alike, whatever else is in the requests and their headers. -/
theorem exchange_agree {token : Bytes} {now : UInt64} {headers headers' : HeaderMap}
    {request request' : Value} {call call' : Call} {passed passed' : HeaderMap}
    {respond respond' : Except Error RawResponse → Response}
    (h : handle t.serde token now .responses headers (.ok request) = .ask call passed respond)
    (h' : handle t.serde token now .responses headers' (.ok request') = .ask call' passed' respond')
    (hagree : Zai.erase request = Zai.erase request') (w : ZaiWorld V U) :
    (runZaiCall t call passed w).2 = (runZaiCall t call' passed' w).2 ∧
      respond (runZaiCall t call passed w).1 = respond' (runZaiCall t call' passed' w).1 := by
  obtain ⟨_, prepared, hrequest, hprepare, rfl, hok, herror⟩ := ask_of_handle h
  obtain ⟨_, prepared', hrequest', hprepare', rfl, hok', herror'⟩ := ask_of_handle h'
  cases hrequest
  cases hrequest'
  have hmodel : request.get "model" = request'.get "model" := by
    rw [← get_model_erase, hagree, get_model_erase]
  have hsame : runZaiCall t (.streamResponses prepared) passed w =
      runZaiCall t (.streamResponses prepared') passed' w := by
    have hchat : t.prepareChat prepared = t.prepareChat prepared' := by
      rw [← prepareChat_erase, erase_prepareResponsesRequest hprepare, hagree,
        ← erase_prepareResponsesRequest hprepare', prepareChat_erase]
    simp only [runZaiCall, ZaiTransport.streamResponses, hchat]
  rw [hsame]
  refine ⟨rfl, ?_⟩
  cases (runZaiCall t (.streamResponses prepared') passed' w).1 with
  | ok upstream => rw [hok, hok', hmodel]
  | error error => rw [herror, herror', hmodel]

/-- Two notes make no difference. -/
theorem exchange_agree_note : ∃ call passed respond call' passed' respond',
    handle Compact.serde (toUtf8 "t") 0 .responses [("authorization", toUtf8 "Bearer t")]
        (.ok (notedTurn "n")) = .ask call passed respond ∧
    handle Compact.serde (toUtf8 "t") 0 .responses
        [("authorization", toUtf8 "Bearer t"), ("cookie", toUtf8 "a=b")] (.ok (notedTurn "m")) =
      .ask call' passed' respond' ∧
    (runZaiCall exhausted call passed ⟨(), 0, []⟩).2 =
      (runZaiCall exhausted call' passed' ⟨(), 0, []⟩).2 ∧
    respond (runZaiCall exhausted call passed ⟨(), 0, []⟩).1 =
      respond' (runZaiCall exhausted call' passed' ⟨(), 0, []⟩).1 := by
  have hask : handle Compact.serde (toUtf8 "t") 0 .responses [("authorization", toUtf8 "Bearer t")]
      (.ok (notedTurn "n")) = .ask _ _ _ := rfl
  have hask' : handle Compact.serde (toUtf8 "t") 0 .responses
      [("authorization", toUtf8 "Bearer t"), ("cookie", toUtf8 "a=b")] (.ok (notedTurn "m")) =
        .ask _ _ _ := rfl
  have hagree : Zai.erase (notedTurn "n") = Zai.erase (notedTurn "m") := by
    decide
  exact ⟨_, _, _, _, _, _, hask, hask', exchange_agree exhausted hask hask' hagree _⟩

/-! ## Rejections -/

/-- The codes that a rejection can have. -/
def failureCodes : List String :=
  ["context_length_exceeded", "invalid_api_key", "insufficient_quota", "model_not_found",
    "rate_limit_exceeded", "invalid_request"]

/-- The class of a rejection is one of the codes. -/
theorem classifyFailure_mem (serde : Serde) (status : ℕ) (details : Option Value) :
    Zai.classifyFailure serde status details ∈ failureCodes := by
  unfold Zai.classifyFailure Zai.classify
  dsimp only
  split_ifs <;> simp [failureCodes]

/-- The gateway keeps a code that the transport gave. -/
theorem upstreamFailureCode_of_mem {code : String} (h : code ∈ failureCodes) (status : ℕ) :
    upstreamFailureCode status (some code) = code := by
  simp only [failureCodes, List.mem_cons, List.not_mem_nil, or_false] at h
  obtain rfl | rfl | rfl | rfl | rfl | rfl := h <;> rfl

/-- The document that replaces that of a rejection is small. -/
theorem failureDocument_size {code : String} (h : code ∈ failureCodes) :
    (Zai.failureDocument code).textSize ≤ MAX_UPSTREAM_ERROR_BYTES := by
  simp only [failureCodes, List.mem_cons, List.not_mem_nil, or_false] at h
  obtain rfl | rfl | rfl | rfl | rfl | rfl := h <;> decide

/-- The document that replaces that of a rejection is plain. -/
theorem failureDocument_plain (code : String) : Plain 127 (Zai.failureDocument code) := by
  have herror : Plain 1 (.obj [("code", .string code), ("param", .null)]) :=
    Plain.obj (List.forall_mem_cons.mpr ⟨.string _ _, List.forall_mem_singleton.mpr (.null _)⟩)
  exact Plain.mono (d := 2) (Plain.obj (List.forall_mem_singleton.mpr herror)) (by decide)

/-- The gateway reads the document that replaces that of a rejection. -/
theorem readDetails_failureDocument {serde : Serde} (hserde : serde.Lawful) (hsized : serde.Sized)
    {code : String} (hcode : code ∈ failureCodes) :
    readDetails serde [] [.chunk (serde.toVec (Zai.failureDocument code))] =
      some (Zai.failureDocument code) := by
  have hplain := failureDocument_plain code
  have hsize : (serde.toVec (Zai.failureDocument code)).length ≤ MAX_UPSTREAM_ERROR_BYTES := by
    rw [Serde.toVec, toUtf8_length]
    exact (hsized _ hplain).trans (failureDocument_size hcode)
  rw [readDetails, List.length_nil, Nat.zero_add, if_neg (Nat.not_lt.mpr hsize), readDetails,
    List.nil_append, hserde.fromSlice_toVec hplain]

/-- The code of the document is kept, if it is one that the transport gives. -/
theorem sanitizeUpstreamFailure_failureDocument {code : String} (hcode : code ∈ failureCodes)
    (status : ℕ) : sanitizeUpstreamFailure status (some (Zai.failureDocument code)) =
      ⟨code, upstreamFailureMessage status code none, none⟩ := by
  have herror : (Zai.failureDocument code).get "error" =
      some (.obj [("code", .string code), ("param", .null)]) := rfl
  have hget : ((Value.obj [("code", .string code), ("param", .null)]).get "code").bind
      Value.asStr = some code := by
    simp [Value.obj, Map.ofEntries]
  have hparam : ((Value.obj [("code", .string code), ("param", .null)]).get "param").bind
      Value.asStr = none := by
    simp [Value.obj, Map.ofEntries, Value.asStr]
  rw [sanitizeUpstreamFailure, Option.bind_some, herror, Option.getD_some, hget, hparam,
    upstreamFailureCode_of_mem hcode]
  rfl

/-- What the gateway makes of a rejection that the transport has replaced: the code is kept, and the
message is about the status and the code. -/
theorem inspect_canonicalFailure {serde : Serde} (hserde : serde.Lawful) (hsized : serde.Sized)
    (status : ℕ) (polls : List Zai.Poll) :
    inspectUpstreamFailure serde status (Zai.canonicalFailure serde status polls).body =
      ⟨Zai.classifyFailure serde status (Zai.failureDetails serde polls), upstreamFailureMessage
        status (Zai.classifyFailure serde status (Zai.failureDetails serde polls)) none, none⟩ := by
  have hcode := classifyFailure_mem serde status (Zai.failureDetails serde polls)
  rw [inspectUpstreamFailure, Zai.canonicalFailure]
  dsimp only
  rw [readDetails_failureDocument hserde hsized hcode,
    sanitizeUpstreamFailure_failureDocument hcode]

/-- Which headers of upstream are passed on depends on their values under other names only. -/
theorem isEventStream_of_values {upstream upstream' : HeaderMap} {response : Response}
    (h : IsEventStream upstream response)
    (hsame : ∀ name, name ∉ streamHeaders → upstream.values name = upstream'.values name) :
    IsEventStream upstream' response :=
  { h with passes := fun name hname => by rw [h.passes name hname, hsame name hname] }

/-- The body of an event stream is sent as it is. -/
theorem body_terminalSseStream (headers : HeaderMap) (body : List Poll) :
    (terminalSseStream headers body).body = body :=
  rfl

/-- A rejected turn is answered by one failure frame. Its code is the class of the rejection, its
message says no more than the status and the code, and no header of the rejection is passed on. -/
theorem rejection_classified (hserde : t.serde.Lawful) (hsized : t.serde.Sized) {token : Bytes}
    {now : UInt64} {headers : HeaderMap} {request : Value} {call : Call} {passed : HeaderMap}
    {respond : Except Error RawResponse → Response}
    (h : handle t.serde token now .responses headers (.ok request) = .ask call passed respond)
    {w : ZaiWorld V U} {chat : HttpRequest U} {model : String} {tools : Zai.ToolNames}
    {answer : ZaiAnswer} (hchat : t.prepareChat request = .ok (chat, model, tools))
    (hanswer : (t.http chat w.rest).1 = .ok answer) (hrejected : isSuccess answer.status = false) :
    let code := Zai.classifyFailure t.serde answer.status (Zai.failureDetails t.serde answer.body)
    code ∈ failureCodes ∧ IsEventStream [] (respond (runZaiCall t call passed w).1) ∧
      (respond (runZaiCall t call passed w).1).body = [.chunk (gatewayFailureFrame t.serde now
        (some model) code (upstreamFailureMessage answer.status code none) none)] := by
  dsimp only
  obtain ⟨_, prepared, hrequest, hprepare, rfl, hok, -⟩ := ask_of_handle h
  cases hrequest
  have hcall : (runZaiCall t (.streamResponses prepared) passed w).1 =
      .ok (Zai.canonicalFailure t.serde answer.status answer.body) := by
    rw [runZaiCall, ZaiTransport.streamResponses, prepareChat_prepareResponsesRequest t hprepare,
      hchat]
    dsimp only
    rcases hsent : t.http chat w.rest with ⟨result, rest⟩
    rw [hsent] at hanswer
    dsimp only at hanswer
    subst hanswer
    dsimp only
    rw [ZaiTransport.receiveChat, hrejected, if_neg Bool.false_ne_true]
  have hstatus : isSuccess (Zai.canonicalFailure t.serde answer.status answer.body).status = false :=
    hrejected
  have hmodel := model_of_prepareChat hchat
  rw [hcall, hok, proxySseResponse, hstatus, if_neg Bool.false_ne_true]
  dsimp only
  refine ⟨classifyFailure_mem _ _ _, ?_, ?_⟩
  · refine isEventStream_of_values (isEventStream_proxyResponse _ _) fun name hname => ?_
    have hne : "content-type" ≠ name := by
      rintro rfl
      exact hname (by simp [streamHeaders])
    simp [Zai.canonicalFailure, Headers.values, hne]
  · have hkept : (Zai.canonicalFailure t.serde answer.status answer.body).status = answer.status :=
      rfl
    rw [hkept, inspect_canonicalFailure hserde hsized, hmodel, body_terminalSseStream]

/-- The client learns that the quota is spent. -/
theorem rejection_classified_quota : ∃ call passed respond,
    handle Compact.serde (toUtf8 "t") 0 .responses [("authorization", toUtf8 "Bearer t")]
        (.ok (notedTurn "n")) = .ask call passed respond ∧
    (respond (runZaiCall exhausted call passed ⟨(), 0, []⟩).1).body =
      [.chunk (gatewayFailureFrame Compact.serde 0 (some "glm-4.6") "insufficient_quota"
        (upstreamFailureMessage 429 "insufficient_quota" none) none)] := by
  have hask : handle Compact.serde (toUtf8 "t") 0 .responses [("authorization", toUtf8 "Bearer t")]
      (.ok (notedTurn "n")) = .ask _ _ _ := rfl
  have hmodel : (exhausted.prepareChat (notedTurn "n")).toOption.map (·.2.1) = some "glm-4.6" := by
    decide +kernel
  obtain ⟨⟨chat, model, tools⟩, hchat, rfl⟩ := Option.map_eq_some_iff.mp hmodel
  have hcode : Zai.classifyFailure exhausted.serde 429 (Zai.failureDetails exhausted.serde
      [.chunk (toUtf8 "\x7b\"error\":\x7b\"code\":\"11"),
        .chunk (toUtf8 "13\",\"message\":\"m\"\x7d\x7d")]) = "insufficient_quota" := by
    decide +kernel
  obtain ⟨-, -, hbody⟩ := rejection_classified exhausted Compact.lawful Compact.sized hask
    (w := ⟨(), 0, []⟩) (toOption_eq_some.mp hchat) rfl rfl
  rw [hcode] at hbody
  exact ⟨_, _, _, hask, hbody⟩

end MuseCodex.Gateway
