import MuseCodex.Gateway.Turn
import MuseCodex.Transport.Sent

/-!
# What a client of the gateway causes to be sent

The gateway over the Codex transport, from the request of a client to the requests that are sent
upstream. Whatever a client asks for, the transport sends one document at most four times, and of
the headers of the client two can be on it (`asked_sent`). The credentials are those of the
transport, and an account's are shown to the endpoint of the subscription only. What the HTTP client
adds to every request by default, such as `originator` and the residency, is not part of a request
here.
-/

namespace MuseCodex.Gateway

open Text Json Transport

variable {V U H L : Type} (t : CodexTransport V U H L)

/-- What the transport does for a call. -/
def runCall (fuel : ℕ) (call : Call) (headers : HeaderMap) (w : World V U) :
    Option (Except Error RawResponse × World V U) :=
  match call with
  | .streamResponses body => t.streamResponses fuel body headers w
  | .searchMuseRequest request => t.searchMuseRequest fuel request headers w
  | .browserOpenMuseRequest request => t.browserOpenMuseRequest fuel request headers w

/-- The path that a call is sent to. -/
def Call.path : Call → String
  | .streamResponses _ => "responses"
  | .searchMuseRequest _ | .browserOpenMuseRequest _ => "alpha/search"

/-- What a call is sent with: a document of a turn for the route for turns, and no header of the
protocol for the others. -/
def Call.Documents (call : Call) (body : Value) (options : CodexTransport.JsonRequestOptions) :
    Prop :=
  match call with
  | .streamResponses request => ∃ apiKeyAuth model, request.get "model" = some (.string model) ∧
      CodexTransport.IsTurnBody t.fastMode apiKeyAuth model body ∧
      t.IsTurnOptions apiKeyAuth model options
  | .searchMuseRequest _ | .browserOpenMuseRequest _ => options = CodexTransport.plainOptions

/-- What a run of a call sends. -/
structure Sends (call : Call) (headers : HeaderMap) (w w' : World V U)
    (requests : List (HttpRequest U)) : Prop where
  log : w'.sent = w.sent ++ requests
  count : requests.length ≤ 4
  conforms : requests ≠ [] → ∃ body options, call.Documents t body options ∧
    ∀ request ∈ requests, t.Conforms call.path body headers options request

variable {t}

/-- A run that sends nothing sends what it may. -/
theorem sends_nil {call : Call} {headers : HeaderMap} {w w' : World V U} (h : w'.sent = w.sent) :
    Sends t call headers w w' [] :=
  ⟨by rw [h, List.append_nil], by simp, fun hne => absurd rfl hne⟩

variable (t)

/-- A document that is not a turn is sent with plain options. -/
theorem execute_sends (call : Call) (hpath : call.path = "alpha/search")
    (hplain : ∀ body, call.Documents t body CodexTransport.plainOptions) (body : Value)
    (headers : HeaderMap) (w : World V U) : ∃ result w' requests,
      (∀ fuel, 4 ≤ fuel → t.execute fuel (t.sendJsonOnce "alpha/search" body headers
        CodexTransport.plainOptions) w = some (result, w')) ∧ Sends t call headers w w' requests := by
  obtain ⟨result, w', requests, hrun, hlog, hcount, hall⟩ :=
    t.execute_sent
      (t.sendJsonOnce_sent "alpha/search" body headers CodexTransport.plainOptions) w
  exact ⟨result, w', requests, hrun, hlog, hcount, fun _ => ⟨body, _, hplain body, hpath ▸ hall⟩⟩

/-- Every call ends, and sends what it may. -/
theorem runCall_sends (call : Call) (headers : HeaderMap) (w : World V U) :
    ∃ result w' requests, (∀ fuel, 4 ≤ fuel → runCall t fuel call headers w = some (result, w')) ∧
      Sends t call headers w w' requests := by
  cases call with
  | streamResponses body =>
    obtain ⟨result, w', requests, hrun, hlog, hcount, hturn⟩ := t.streamResponses_sent body headers w
    refine ⟨result, w', requests, hrun, hlog, hcount, fun hne => ?_⟩
    obtain ⟨apiKeyAuth, model, turn, options, hmodel, hbody, hoptions, hall⟩ := hturn hne
    exact ⟨turn, options, ⟨apiKeyAuth, model, hmodel, hbody, hoptions⟩, hall⟩
  | searchMuseRequest request =>
    simp only [runCall, CodexTransport.searchMuseRequest]
    cases hread : SearchRequest.fromValue request with
    | none => exact ⟨_, w, [], fun _ _ => rfl, sends_nil rfl⟩
    | some search =>
      simp only [CodexTransport.search]
      cases hupstream : search.toUpstream with
      | error error => exact ⟨_, w, [], fun _ _ => rfl, sends_nil rfl⟩
      | ok body =>
        exact execute_sends t (.searchMuseRequest request) rfl (fun _ => rfl) body headers w
  | browserOpenMuseRequest request =>
    simp only [runCall, CodexTransport.browserOpenMuseRequest]
    split
    · exact ⟨_, w, [], fun _ _ => rfl, sends_nil rfl⟩
    rename_i object _
    split
    · exact ⟨_, w, [], fun _ _ => rfl, sends_nil rfl⟩
    split
    · exact ⟨_, w, [], fun _ _ => rfl, sends_nil rfl⟩
    rename_i parsed _
    split_ifs
    · exact ⟨_, w, [], fun _ _ => rfl, sends_nil rfl⟩
    · have hlog : (t.openRequestId object headers w).2.sent = w.sent := by
        unfold CodexTransport.openRequestId
        split <;> rfl
      obtain ⟨result, w', requests, hrun, hsends⟩ := execute_sends t
        (.browserOpenMuseRequest request) rfl (fun _ => rfl) (.obj [("id",
          .string (t.openRequestId object headers w).1), ("commands", .obj [("open",
            .array [.obj [("ref_id", .string (t.urls.asStr parsed))]])])]) headers
        (t.openRequestId object headers w).2
      exact ⟨result, w', requests, hrun, by rw [hsends.log, hlog], hsends.count, hsends.conforms⟩

/-- A request to upstream on behalf of a client: it shows credentials of the transport where they
may be shown, and of the headers of the client it has at most the first of two. Nothing is said of
`openai-organization` and `openai-project`, which carry the provider's own values. -/
structure Confined (path : String) (client : HeaderMap) (request : HttpRequest U) : Prop where
  auth : ∃ auth, t.Admits auth ∧ Shows auth request.headers ∧
    t.urls.parse (ApiProvider.urlForPath ⟨t.endpoint auth, []⟩ path) = .ok request.url
  client : ∀ name, name ∉ CodexTransport.ownHeaders → name ∉ providerHeaders →
    request.headers.values name =
      if name = "accept-language" ∨ name = "x-request-id" then (client.get name).toList else []

variable {t}

/-- The headers that a handler passes on are those of the client that may be passed on. -/
theorem passed_of_ask {serde : Serde} {token : Bytes} {now : UInt64} {route : Route}
    {headers : HeaderMap} {payload : Except ℕ Value} {call : Call} {passed : HeaderMap}
    {respond : Except Error RawResponse → Response}
    (h : handle serde token now route headers payload = .ask call passed respond) :
    passed = upstreamRequestHeaders headers := by
  obtain ⟨-, ⟨-, h⟩ | ⟨-, texts, toCall, h⟩⟩ := handle_ask h
  · unfold responses at h
    split at h
    · cases h
    · split at h
      · cases h
      · cases h
        rfl
  · unfold auxiliary at h
    split at h
    · cases h
    · cases h
      rfl

/-- A request with the document and headers of a call is confined. -/
theorem Conforms.confined {path : String} {body : Value} {client : HeaderMap}
    {options : CodexTransport.JsonRequestOptions} {request : HttpRequest U}
    (h : t.Conforms path body (upstreamRequestHeaders client) options request) :
    Confined t path client request where
  auth := h.auth
  client name hown hprovider := by
    have hallowed : name = "accept-language" ∨ name = "x-request-id" →
        isForbiddenForwardedHeader name = false := by
      rintro (rfl | rfl) <;> decide
    cases hforbidden : isForbiddenForwardedHeader name with
    | true =>
      rw [h.withholds name hown hprovider hforbidden, if_neg fun hname => ?_]
      rw [hallowed hname] at hforbidden
      cases hforbidden
    | false =>
      rw [h.passes name hown hforbidden, values_upstreamRequestHeaders]
      split_ifs
      · cases client.get name <;> rfl
      · rfl

variable (t)

/-- What is sent upstream for a client that has the token: one document, at most four times, on
requests that are confined. For a turn the document is a turn for the model that the client named,
and on every route the call ends. -/
theorem asked_sent {serde : Serde} {token : Bytes} {now : UInt64} {route : Route} {headers : HeaderMap}
    {payload : Except ℕ Value} {call : Call} {passed : HeaderMap}
    {respond : Except Error RawResponse → Response}
    (h : handle serde token now route headers payload = .ask call passed respond)
    (w : World V U) : bearerMatches token headers = true ∧
      ∃ result w' requests,
        (∀ fuel, 4 ≤ fuel → runCall t fuel call passed w = some (result, w')) ∧
        Sends t call passed w w' requests ∧
        (∀ request ∈ requests, Confined t call.path headers request) ∧
        (route = .responses → ∃ request prepared, payload = .ok request ∧
          call = .streamResponses prepared ∧ prepared.get "model" = request.get "model") := by
  obtain ⟨result, w', requests, hrun, hsends⟩ := runCall_sends t call passed w
  obtain ⟨hbearer, hroute⟩ := handle_ask h
  refine ⟨hbearer, result, w', requests, hrun, hsends, fun request hrequest => ?_, fun hturn => ?_⟩
  · obtain ⟨body, options, -, hall⟩ := hsends.conforms (List.ne_nil_of_mem hrequest)
    have hconforms := hall request hrequest
    rw [passed_of_ask h] at hconforms
    exact Conforms.confined hconforms
  · obtain ⟨-, hresponses⟩ | ⟨hne, -⟩ := hroute
    · unfold responses at hresponses
      split at hresponses
      · cases hresponses
      rename_i request
      split at hresponses
      · cases hresponses
      rename_i prepared hprepare
      cases hresponses
      exact ⟨request, prepared, rfl, rfl, by rw [get_prepareResponsesRequest hprepare]; rfl⟩
    · exact absurd hturn hne

/-- A transport with a key in fast mode, whose endpoint is out of service. -/
def unavailable : CodexTransport Unit String Unit Unit where
  apiKeyOverride := some "k"
  apiKeyBaseUrl := none
  fastMode := true
  modelCapabilities := []
  urls := ⟨.ok, fun _ => "https", id⟩
  environment _ := none
  packageVersion := "0.0.0"
  codexUserAgent := "codex"
  processId := 1
  serde := Compact.serde
  sha256 := goDigest
  items := plainItems
  readError _ := ""
  auth _ := (none, ())
  unauthorizedRecovery _ := ⟨.reload, none, .managed⟩
  manager := ⟨fun _ => false, fun _ => false, fun _ => true, fun _ w => (.reloadedNoChange, w),
    fun w => (true, w)⟩
  http _ _ := (.ok ⟨503, [], []⟩, ())
  sleep _ w := w
  home := ()
  acquireCredentialRefreshLock _ w := (.ok (), w)

/-- A client that sets a cookie and asks for a turn, which is sent twice. -/
theorem asked_sent_twice : ∃ call passed respond result w',
    handle Compact.serde (toUtf8 "t") 0 .responses
        [("authorization", toUtf8 "Bearer t"), ("cookie", toUtf8 "a=b")]
        (.ok (.obj [("model", .string "gpt"), ("input", .string "go")])) =
      .ask call passed respond ∧
    runCall unavailable 4 call passed ⟨(), 0, 0, []⟩ = some (result, w') ∧ w'.sent.length = 2 ∧
    ∀ request ∈ w'.sent, Confined unavailable "responses"
      [("authorization", toUtf8 "Bearer t"), ("cookie", toUtf8 "a=b")] request := by
  have hask : handle Compact.serde (toUtf8 "t") 0 .responses
      [("authorization", toUtf8 "Bearer t"), ("cookie", toUtf8 "a=b")]
      (.ok (.obj [("model", .string "gpt"), ("input", .string "go")])) =
        .ask (.streamResponses (.obj [("input", .string "go"), ("model", .string "gpt"),
          ("store", .bool false), ("stream", .bool true)])) [] _ := rfl
  obtain ⟨-, result, w', requests, hrun, hsends, hconfined, -⟩ :=
    asked_sent unavailable hask ⟨(), 0, 0, []⟩
  have hlog : w'.sent = requests := hsends.log
  obtain ⟨final, hfinal, hlength⟩ : ∃ final, runCall unavailable 4 (.streamResponses
      (.obj [("input", .string "go"), ("model", .string "gpt"), ("store", .bool false),
        ("stream", .bool true)])) [] ⟨(), 0, 0, []⟩ = some final ∧ final.2.sent.length = 2 :=
    ⟨_, rfl, rfl⟩
  have hsame := hfinal.symm.trans (hrun 4 (Nat.le_refl 4))
  cases hsame
  exact ⟨_, _, _, result, w', hask, hrun 4 (Nat.le_refl 4), hlength, hlog ▸ hconfined⟩

end MuseCodex.Gateway
