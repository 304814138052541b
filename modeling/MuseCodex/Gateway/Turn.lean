import MuseCodex.Gateway.Server

/-!
# What a client of the gateway gets

A turn that is asked of the transport is answered with a stream of events, whatever the transport
returns for it: an answer of success, a rejection, or an error (`responses_answered`). The stream is
of whole frames, of which the last and no other ends the response. This is the shape of the
validated stream, and a rejection or an error is one frame of the gateway's own.

What a client learns of a rejection is the class of its code and a safe name of a parameter
(`rejected_agree`). Two rejections that agree in these are answered alike, with whatever bodies,
cut into whatever chunks, and with whatever headers that are not passed on.
-/

namespace MuseCodex.Gateway

open Text Json Transport

/-! ## Headers of an answer -/

/-- The values of a header of an answer: those of the gateway, and those of upstream that may be
passed on. -/
theorem values_proxyResponse (status : ℕ) (headers : HeaderMap) (body : List Poll) (name : String) :
    (proxyResponse status headers body).headers.values name =
      guardHeaders.values name ++
        if isForwardedResponseHeader name then headers.values name else [] := by
  rw [proxyResponse, Headers.values_extend]
  split_ifs
  · rfl
  · rw [List.append_nil]

/-- The names to which the gateway gives values of its own in a stream. -/
def streamHeaders : List String := ["content-type", "cache-control", "x-content-type-options"]

/-- An answer that is a stream of events. Of the headers of `upstream`, those that are passed on are
in it, and no others. -/
structure IsEventStream (upstream : HeaderMap) (response : Response) : Prop where
  status : response.status = 200
  contentType : response.headers.values "content-type" = [eventStream]
  cacheControl : response.headers.values "cache-control" = [toUtf8 "no-store"]
  contentTypeOptions : response.headers.values "x-content-type-options" = [toUtf8 "nosniff"]
  passes : ∀ name, name ∉ streamHeaders → response.headers.values name =
    if isForwardedResponseHeader name then upstream.values name else []

/-- An answer whose headers are the guard headers and those of upstream under the type of a stream
is a stream of events. -/
theorem isEventStream_proxyResponse (upstream : HeaderMap) (body : List Poll) :
    IsEventStream upstream
      (proxyResponse 200 (upstream.insert "content-type" eventStream) body) where
  status := rfl
  contentType := by
    rw [values_proxyResponse, Headers.values_insert]
    rfl
  cacheControl := by
    rw [values_proxyResponse]
    rfl
  contentTypeOptions := by
    rw [values_proxyResponse]
    rfl
  passes name hname := by
    simp only [streamHeaders, List.mem_cons, List.not_mem_nil, or_false, not_or] at hname
    obtain ⟨htype, hcache, hoptions⟩ := hname
    have hguard : guardHeaders.values name = [] := by
      simp [guardHeaders, Headers.values, Ne.symm hcache, Ne.symm hoptions]
    rw [values_proxyResponse, Headers.values_insert, if_neg htype, hguard, List.nil_append]

/-! ## One turn -/

/-- Frames of one turn: the last is an event that ends the response and no other is, and the frames
can be told apart in the bytes that they make up. The exception is a last frame that upstream ends
with a CR, behind which an LF could still come. -/
structure IsTurn (serde : Serde) (frames : List Bytes) : Prop where
  ends : ∃ before terminal event, frames = before ++ [terminal] ∧
    (∀ frame ∈ before, Copied ⟨serde, MAX_EVENT_BYTES, none, 0⟩ frame) ∧
    inspectFrame serde terminal = .ok (.keep event) ∧
    (event.kind = "response.completed" ∨ event.kind = "response.incomplete" ∨
      event.kind = "response.failed")
  cut : frames.flatten.getLast? ≠ some CR →
    scanner.frames frames.flatten = frames ∧ scanner.rest frames.flatten = []

/-- A frame of the gateway's own can be told from what follows it. -/
theorem framed_failureFrame {o : Options} (hserde : o.serde.Lawful)
    (responseId model : Option String) (sequenceNumber : ℕ) (code message : String)
    (parameter : Option String) :
    Framed (failureFrame o responseId model sequenceNumber code message parameter) := by
  have hline := hserde.toString_line
    (failureEvent o responseId model sequenceNumber code message parameter)
  refine ⟨⟨[], ?_⟩, ?_⟩
  · rw [failureFrame_eq_eventFrame]
    exact eventFrame_scan (by decide) hline []
  · rw [failureFrame, toUtf8_append, toUtf8_append]
    exact ⟨_, _, rfl, by decide⟩

/-- A frame of the gateway's own is a turn by itself. -/
theorem isTurn_failureFrame {o : Options} (hserde : o.serde.Lawful)
    (responseId model : Option String) {sequenceNumber : ℕ} (hnumber : sequenceNumber < 2 ^ 64)
    (code message : String) (parameter : Option String) :
    IsTurn o.serde [failureFrame o responseId model sequenceNumber code message parameter] where
  ends := by
    have hevent := inspectFrame_failureFrame hserde responseId model hnumber code message parameter
    exact ⟨[], _, _, rfl, nofun, hevent, .inr (.inr rfl)⟩
  cut hlast := by
    refine cut_of_framed (fun frame hframe => ?_) hlast
    rw [List.mem_singleton.mp hframe]
    exact framed_failureFrame hserde _ _ _ _ _ _

/-- The validated stream is one turn. -/
theorem isTurn_validatedFrames {o : Options} (hserde : o.serde.Lawful)
    (hmax : o.maxEventBytes = MAX_EVENT_BYTES) (body : List Poll) :
    IsTurn o.serde (validatedFrames o body) := by
  have hscan {frame : Bytes} (hframe : frame ∈ scanner.frames (upstreamBytes body)) :=
    Framing.Scanner.exists_scan_of_mem_frames hframe
  -- The frames before the last are copied, and the last is of upstream or of the gateway.
  have hturn : ∃ copies terminal event, validatedFrames o body = copies ++ [terminal] ∧
      (∀ frame ∈ copies, frame ∈ scanner.frames (upstreamBytes body) ∧ Copied o frame) ∧
      Framed terminal ∧ inspectFrame o.serde terminal = .ok (.keep event) ∧
      (event.kind = "response.completed" ∨ event.kind = "response.incomplete" ∨
        event.kind = "response.failed") := by
    rw [validatedFrames_eq, verdictOf]
    cases hpoint : streamFailure o body with
    | none =>
      obtain ⟨copies, terminal, event, hverdict, hcopies, hterminal, -, hevent, hkind⟩ :=
        verdict_copied (ending body) {} hpoint
      exact ⟨copies, terminal, event, hverdict, hcopies, framed_of_keep (hscan hterminal) hevent,
        hevent, hkind.imp_right .inl⟩
    | some point =>
      obtain ⟨before, cause⟩ := point
      have hnumber := (failurePoint_number hserde hpoint).1
      obtain ⟨-, -, value, hinspect, -⟩ := Cause.recovered hserde hnumber
      refine ⟨_, _, _, verdict_of_failurePoint o (ending body) {} hpoint, fun frame hframe => ?_,
        ?_, hinspect, .inr (.inr rfl)⟩
      · exact ⟨failurePoint_mem o hpoint (List.mem_of_mem_filter hframe),
          failurePoint_copied hpoint frame hframe⟩
      · rw [Cause.frame_parts]
        exact framed_failureFrame hserde _ _ _ _ _ _
  obtain ⟨copies, terminal, event, hframes, hcopies, hterminal, hkeep, hkind⟩ := hturn
  rw [hframes]
  refine ⟨⟨copies, terminal, event, rfl, fun frame hframe => ?_, hkeep, hkind⟩, ?_⟩
  · obtain ⟨hlen, hcopied⟩ := (hcopies frame hframe).2
    exact ⟨by rw [hmax] at hlen; exact hlen, hcopied⟩
  · refine cut_of_framed fun frame hframe => ?_
    rcases List.mem_append.mp hframe with hframe | hframe
    · obtain ⟨hmem, -, event, hkeep, -⟩ := hcopies frame hframe
      exact framed_of_keep (hscan hmem) hkeep
    · rw [List.mem_singleton.mp hframe]
      exact hterminal

/-! ## The answer to a turn -/

/-- The headers of what the transport returns. -/
def upstreamHeaders : Except Error RawResponse → HeaderMap
  | .ok upstream => upstream.headers
  | .error _ => []

/-- A prepared request is the one that came, but for the two members that make it a stream that is
not stored. -/
theorem get_prepareResponsesRequest {request prepared : Value}
    (h : prepareResponsesRequest request = .ok prepared) (key : String) :
    prepared.get key =
      if key = "stream" then some (.bool true)
      else if key = "store" then some (.bool false) else request.get key := by
  unfold prepareResponsesRequest at h
  cases request with
  | object object =>
    simp only [Value.asObject_object] at h
    split_ifs at h
    cases h
    rw [Value.get_object, Map.get_insert, Map.get_insert, Value.get_object]
  | null | bool | number | string | array => cases h

/-- What a request to the route for turns is, if the transport is asked. -/
structure Asks (request : Value) (headers : HeaderMap) (call : Call) (passed : HeaderMap) :
    Prop where
  call : ∃ prepared, call = .streamResponses prepared ∧ ∀ key, prepared.get key =
    if key = "stream" then some (.bool true)
    else if key = "store" then some (.bool false) else request.get key
  passed : ∀ name, passed.values name =
    if name = "accept-language" ∨ name = "x-request-id" then (headers.get name).toList else []

/-- Of the headers of a request, the first value of each of two names is passed on. -/
theorem values_upstreamRequestHeaders (source : HeaderMap) (name : String) :
    (upstreamRequestHeaders source).values name =
      if name = "accept-language" ∨ name = "x-request-id" then (source.get name).toList else [] := by
  rw [upstreamRequestHeaders, Headers.values_insertFirst, Headers.values_insertFirst]
  by_cases hlanguage : name = "accept-language"
  · subst hlanguage
    cases source.get "accept-language" <;> simp
  · by_cases hid : name = "x-request-id"
    · subst hid
      cases source.get "x-request-id" <;> simp
    · simp [hlanguage, hid]

/-- The transport is asked on behalf of a client that has the token, by the route for turns or by an
auxiliary one. -/
theorem handle_ask {serde : Serde} {token : Bytes} {now : UInt64} {route : Route} {headers : HeaderMap}
    {payload : Except ℕ Value} {call : Call} {passed : HeaderMap}
    {respond : Except Error RawResponse → Response}
    (h : handle serde token now route headers payload = .ask call passed respond) :
    bearerMatches token headers = true ∧
      (route = .responses ∧ responses serde now headers payload = .ask call passed respond ∨
        route ≠ .responses ∧ ∃ texts toCall,
          auxiliary serde texts toCall headers payload = .ask call passed respond) := by
  unfold handle at h
  split_ifs at h with hbearer
  rw [Bool.not_eq_true', Bool.not_eq_false] at hbearer
  refine ⟨hbearer, ?_⟩
  cases route with
  | responses => exact .inl ⟨rfl, h⟩
  | search => exact .inr ⟨nofun, _, _, h⟩
  | browserOpen => exact .inr ⟨nofun, _, _, h⟩
  | health | models | feedback => cases h

/-- The transport is asked for a turn only on behalf of a client that has the token, and for the
request that the client made. The answer is a stream of events that is one turn, whatever the
transport returns. -/
theorem responses_answered {serde : Serde} (hserde : serde.Lawful) (token : Bytes) (now : UInt64)
    (headers : HeaderMap) (payload : Except ℕ Value) {call : Call} {passed : HeaderMap}
    {respond : Except Error RawResponse → Response}
    (h : handle serde token now .responses headers payload = .ask call passed respond) :
    bearerMatches token headers = true ∧
      (∃ request, payload = .ok request ∧ Asks request headers call passed) ∧
      ∀ result, IsEventStream (upstreamHeaders result) (respond result) ∧
        ∃ frames, (respond result).body = frames.map .chunk ∧ IsTurn serde frames := by
  obtain ⟨hbearer, ⟨-, h⟩ | ⟨hroute, -⟩⟩ := handle_ask h
  case inr => exact absurd rfl hroute
  unfold responses at h
  cases payload with
  | error status => cases h
  | ok request =>
    cases hprepare : prepareResponsesRequest request with
    | error message => simp [hprepare] at h
    | ok prepared =>
      simp only [hprepare, Handled.ask.injEq] at h
      obtain ⟨hcall, hpassed, hrespond⟩ := h
      refine ⟨hbearer, ⟨request, rfl, ⟨prepared, hcall.symm, ?_⟩, ?_⟩, fun result => ?_⟩
      · exact get_prepareResponsesRequest hprepare
      · rw [← hpassed]
        exact values_upstreamRequestHeaders headers
      · have hframe (code message : String) (parameter : Option String) :
            IsTurn serde [gatewayFailureFrame serde now ((prepared.get "model").bind Value.asStr)
              code message parameter] :=
          isTurn_failureFrame (o := ⟨serde, MAX_EVENT_BYTES, none, now⟩) hserde _ _ (by decide) _ _ _
        rw [← hrespond]
        cases result with
        | error error =>
          -- Either message is in one frame of the gateway's own.
          cases error <;>
            exact ⟨isEventStream_proxyResponse _ _, _, (List.map_singleton ..).symm, hframe _ _ _⟩
        | ok upstream =>
          dsimp only
          unfold proxySseResponse
          split_ifs
          · have hturn := isTurn_validatedFrames (o := ⟨serde, MAX_EVENT_BYTES,
              responseMediaType upstream.headers, now⟩) hserde rfl upstream.body
            exact ⟨isEventStream_proxyResponse _ _, _, rfl, hturn⟩
          · exact ⟨isEventStream_proxyResponse _ _, _, (List.map_singleton ..).symm, hframe _ _ _⟩

/-- A client with the token gets one turn for a request that names a model. -/
theorem responses_answered_model : ∃ call passed respond,
    handle Compact.serde (toUtf8 "t") 0 .responses [("authorization", toUtf8 "Bearer t")]
        (.ok (.obj [("model", .string "gpt")])) = .ask call passed respond ∧
      ∀ result, IsEventStream (upstreamHeaders result) (respond result) ∧
        ∃ frames, (respond result).body = frames.map .chunk ∧ IsTurn Compact.serde frames := by
  have hask : handle Compact.serde (toUtf8 "t") 0 .responses
      [("authorization", toUtf8 "Bearer t")] (.ok (.obj [("model", .string "gpt")])) =
        .ask _ _ _ := rfl
  exact ⟨_, _, _, hask, (responses_answered Compact.lawful _ _ _ _ hask).2.2⟩

/-! ## Rejections -/

/-- The document of a body that ends within the limit. -/
def bodyDocument (serde : Serde) (body : List Poll) : Option Value :=
  if ending body = .eof ∧ (upstreamBytes body).length ≤ MAX_UPSTREAM_ERROR_BYTES then
    serde.fromSlice (upstreamBytes body)
  else none

/-- What is read of a body does not depend on the chunks that it arrives in. -/
theorem readDetails_eq (serde : Serde) (body : List Poll) {bytes : Bytes}
    (hbytes : bytes.length ≤ MAX_UPSTREAM_ERROR_BYTES) : readDetails serde bytes body =
      if ending body = .eof ∧
          (bytes ++ upstreamBytes body).length ≤ MAX_UPSTREAM_ERROR_BYTES then
        serde.fromSlice (bytes ++ upstreamBytes body)
      else none := by
  fun_induction readDetails serde bytes body with
  | case1 bytes =>
    have hnil : upstreamBytes [] = [] := rfl
    rw [hnil, List.append_nil, if_pos ⟨rfl, hbytes⟩]
  | case2 bytes chunk body hlong =>
    have hlonger : ¬ (bytes ++ upstreamBytes (.chunk chunk :: body)).length ≤
        MAX_UPSTREAM_ERROR_BYTES := by
      rw [upstreamBytes, List.length_append, List.length_append]
      omega
    rw [if_neg fun h => hlonger h.2]
  | case3 bytes chunk body hlong ih =>
    rw [ih (by rw [List.length_append]; omega), List.append_assoc]
    rfl
  | case4 | case5 => rw [if_neg (by simp [ending])]

/-- The class of a code that is known. -/
def knownClass (code : Option String) : Option CodeClass :=
  match code with
  | some "context_length_exceeded" => some .contextLength
  | some "rate_limit_exceeded" | some "usage_limit_reached" => some .rateLimit
  | some "invalid_api_key" => some .apiKey
  | some "model_not_found" => some .model
  | some "insufficient_quota" => some .quota
  | some "invalid_request" => some .request
  | _ => none

/-- The class of a rejection without a code that is known. -/
def statusClass (status : ℕ) : CodeClass :=
  if status = 429 then .rateLimit else if status = 401 ∨ status = 403 then .apiKey else .request

/-- The code of a rejection is that of its class. -/
theorem upstreamFailureCode_eq (status : ℕ) (code : Option String) :
    upstreamFailureCode status code = ((knownClass code).getD (statusClass status)).code := by
  unfold upstreamFailureCode
  split
  · rfl
  · rfl
  · rfl
  · rfl
  · rfl
  · rfl
  · rfl
  · have hunknown : knownClass code = none := by
      unfold knownClass
      split <;> first | rfl | contradiction
    rw [hunknown, Option.getD_none, statusClass]
    split_ifs <;> rfl

/-- What a client learns of the document of a rejection: the class of its code, if it is known, and
the name of a parameter, if it is safe. -/
def learned (document : Option Value) : Option CodeClass × Option String :=
  let error := (document.bind (·.get "error")).getD .null
  (knownClass ((error.get "code").bind Value.asStr),
    ((error.get "param").bind Value.asStr).filter safeErrorParameter)

/-- What is told of a rejection depends on what is learned of it only. -/
theorem sanitizeUpstreamFailure_eq (status : ℕ) (document : Option Value) :
    sanitizeUpstreamFailure status document =
      let code := ((learned document).1.getD (statusClass status)).code
      ⟨code, upstreamFailureMessage status code (learned document).2, (learned document).2⟩ := by
  rw [sanitizeUpstreamFailure, upstreamFailureCode_eq]
  rfl

/-- Two answers between which a client cannot tell. -/
structure SameAnswer (response response' : Response) : Prop where
  status : response.status = response'.status
  values : ∀ name, response.headers.values name = response'.headers.values name
  body : response.body = response'.body

/-- Two rejections with the same status are answered alike if they agree in the headers that are
passed on, but for the type of the body, and in what is learned of their bodies by a client of the
route for turns. No client of an auxiliary route learns anything of a body. -/
theorem rejected_agree (serde : Serde) (token : Bytes) (now : UInt64) (route : Route)
    (headers : HeaderMap) (payload : Except ℕ Value) {call : Call} {passed : HeaderMap}
    {respond : Except Error RawResponse → Response}
    (h : handle serde token now route headers payload = .ask call passed respond)
    {upstream upstream' : RawResponse} (hrejected : isSuccess upstream.status = false)
    (hstatus : upstream'.status = upstream.status)
    (hheaders : ∀ name, name ≠ "content-type" → isForwardedResponseHeader name = true →
      upstream'.headers.values name = upstream.headers.values name)
    (hbody : route = .responses →
      learned (bodyDocument serde upstream'.body) = learned (bodyDocument serde upstream.body)) :
    SameAnswer (respond (.ok upstream')) (respond (.ok upstream)) := by
  have hrejected' : isSuccess upstream'.status = false := by rw [hstatus, hrejected]
  obtain ⟨-, ⟨hroute, h⟩ | ⟨-, texts, toCall, h⟩⟩ := handle_ask h
  · unfold responses at h
    cases payload with
    | error status => cases h
    | ok request =>
      cases hprepare : prepareResponsesRequest request with
      | error message => simp [hprepare] at h
      | ok prepared =>
        simp only [hprepare, Handled.ask.injEq] at h
        obtain ⟨-, -, rfl⟩ := h
        -- Of the body only the document that it holds is read.
        have hdetails (body : List Poll) :
            readDetails serde [] body = bodyDocument serde body :=
          readDetails_eq serde body (Nat.zero_le _)
        dsimp only [proxySseResponse]
        rw [hrejected, hrejected', inspectUpstreamFailure, inspectUpstreamFailure, hdetails,
          hdetails, sanitizeUpstreamFailure_eq, sanitizeUpstreamFailure_eq, hbody hroute, hstatus]
        refine ⟨rfl, fun name => ?_, rfl⟩
        -- The media type is the gateway's own, and what is not forwarded does not matter.
        have hvalues : (upstream'.headers.insert "content-type" eventStream).values name =
            (upstream.headers.insert "content-type" eventStream).values name ∨
              isForwardedResponseHeader name = false := by
          rw [Headers.values_insert, Headers.values_insert]
          by_cases hname : name = "content-type"
          · exact .inl (by rw [if_pos hname, if_pos hname])
          · rw [if_neg hname, if_neg hname]
            cases hforwarded : isForwardedResponseHeader name with
            | true => exact .inl (hheaders name hname hforwarded)
            | false => exact .inr rfl
        rw [if_neg nofun, if_neg nofun, terminalSseStream, terminalSseStream,
          values_proxyResponse, values_proxyResponse]
        rcases hvalues with hvalues | hforwarded
        · rw [hvalues]
        · rw [hforwarded, if_neg nofun, if_neg nofun]
  · unfold auxiliary at h
    cases payload with
    | error status => cases h
    | ok request =>
      simp only [Handled.ask.injEq] at h
      obtain ⟨-, -, rfl⟩ := h
      dsimp only [proxyAuxiliaryResponse]
      rw [hrejected, hrejected', if_neg nofun, if_neg nofun, hstatus]
      refine ⟨rfl, fun name => ?_, rfl⟩
      -- An auxiliary route answers with a body of its own, so only the headers are compared.
      rw [Headers.values_extend, Headers.values_extend]
      by_cases hname : name = "content-type"
      · simp [hname]
      · cases hforwarded : isForwardedResponseHeader name with
        | true => rw [hheaders name hname hforwarded]
        | false => simp

/-- A rejection that says why, in two chunks and with a cookie. -/
def talkative : RawResponse where
  status := 400
  headers := [("set-cookie", toUtf8 "a=b"), ("retry-after", toUtf8 "2")]
  body := [.chunk (toUtf8 "\x7b\"error\":\x7b\"code\":\"model_not"),
    .chunk (toUtf8 "_found\",\"message\":\"m\"\x7d\x7d")]

/-- The same rejection with nothing else in it. -/
def reticent : RawResponse where
  status := 400
  headers := [("retry-after", toUtf8 "2")]
  body := [.chunk (toUtf8 "\x7b\"error\":\x7b\"code\":\"model_not_found\"\x7d\x7d")]

/-- A rejection that says much is answered like one that says nothing. -/
theorem rejected_agree_reticent : ∃ call passed respond,
    handle Compact.serde (toUtf8 "t") 0 .responses [("authorization", toUtf8 "Bearer t")]
        (.ok (.obj [("model", .string "gpt")])) = .ask call passed respond ∧
      SameAnswer (respond (.ok talkative)) (respond (.ok reticent)) := by
  have hask : handle Compact.serde (toUtf8 "t") 0 .responses
      [("authorization", toUtf8 "Bearer t")] (.ok (.obj [("model", .string "gpt")])) =
        .ask _ _ _ := rfl
  refine ⟨_, _, _, hask, rejected_agree _ _ _ _ _ _ hask rfl rfl (fun name _ hname => ?_)
    fun _ => by decide +kernel⟩
  have hcookie : name ≠ "set-cookie" := by
    rintro rfl
    exact absurd hname (by decide)
  simp [talkative, reticent, Headers.values, hcookie.symm]

end MuseCodex.Gateway
