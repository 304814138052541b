import MuseCodex.Transport.Upstream

/-!
# What is sent to the Codex endpoint

Every request that a call sends has the document of the call and headers that are known name by
name (`Conforms`). A client brings in no header with a name that is forbidden, the credentials are
those that were resolved for the request, and those of an account are shown to the endpoint of the
subscription only. The headers that the HTTP client adds to every request by default, such as
`originator` and the residency, are not part of an `HttpRequest`: they are set when the client is
built and nothing of a call is in them.

A call sends the document at most four times. The loop that sends it touches the log of requests by
its sends only (`prestreamTurn_view`), so what holds of one send holds of all of a run.
-/

namespace MuseCodex.Transport

open Text Json Looping Fallible

/-! ## What the loop leaves alone -/

section Loop

variable {W R H L T η ε α : Type} {env : Prestream W R H L T η ε} {refreshLockHome : Option H}

/-- The world in which a turn ends. -/
def worldAfter :
    Next (Attempt W R L) (Except (SendError η ε) T × Attempt W R L) → W
  | .again s => s.world
  | .done (_, s) => s.world

/-- A view of the world that only the sends change. -/
structure Prestream.OnlySends (env : Prestream W R H L T η ε) (view : W → α) : Prop where
  next : ∀ r w, view (env.next r w).2.2 = view w
  sleep : ∀ delay w, view (env.sleep delay w) = view w
  acquire : ∀ home w, view (env.acquireCredentialRefreshLock home w).2 = view w

variable {view : W → α}

/-- Taking the lock sends nothing. -/
theorem takeLock_view (refreshLockHome : Option H) (h : env.OnlySends view) (s : Attempt W R L) :
    view (takeLock env refreshLockHome s).2.2.world = view s.world := by
  unfold takeLock
  split
  · rename_i home _
    have hlock := h.acquire home s.world
    split
    · rename_i hacquired
      rw [hacquired] at hlock
      exact hlock
    · rename_i hacquired
      rw [hacquired] at hlock
      exact hlock
  · rfl

/-- A recovery sends nothing. -/
theorem recover_view (refreshLockHome : Option H) (h : env.OnlySends view) (s : Attempt W R L)
    (r : R) : view (worldAfter (recover env refreshLockHome s r).2) = view s.world := by
  have hlock := takeLock_view refreshLockHome h s
  unfold recover
  split
  · rename_i htaken
    rw [htaken] at hlock
    exact hlock
  · rename_i s' htaken
    rw [htaken] at hlock
    have hnext := h.next r s'.world
    split
    · rename_i hstep
      rw [hstep] at hnext
      exact hnext.trans hlock
    · rename_i hstep
      rw [hstep] at hnext
      exact hnext.trans hlock

/-- Waiting sends nothing. -/
theorem waitToRetry_view (h : env.OnlySends view) (response : T) (w : W) :
    view (waitToRetry (L := L) (ε := ε) (η := η) env response w).2 = view w := by
  unfold waitToRetry
  split
  · split_ifs
    · exact h.sleep _ w
    · rfl
  · rfl

/-- What is done about a response sends nothing. -/
theorem settleResponse_view (refreshLockHome : Option H) (h : env.OnlySends view)
    (s : Attempt W R L) (response : T) :
    view (worldAfter (settleResponse env refreshLockHome s response).2) = view s.world := by
  unfold settleResponse
  split_ifs
  · exact waitToRetry_view h response s.world
  · rfl
  · split
    · rfl
    · split_ifs
      · rfl
      · exact recover_view refreshLockHome h s _

/-- A turn changes the view as its send does. -/
theorem prestreamTurn_view (refreshLockHome : Option H) (h : env.OnlySends view) (s : Attempt W R L) :
    view (worldAfter (prestreamTurn env refreshLockHome s).2) = view (env.send s.world).2 := by
  unfold prestreamTurn
  split
  · rename_i response w hsend
    rw [hsend]
    exact settleResponse_view refreshLockHome h { s with world := w } response
  · rename_i error w hsend
    rw [hsend]
    unfold settleError
    split
    · split_ifs <;> rfl
    · rfl

end Loop

/-! ## Headers of a request -/

/-- The value of a header is the bytes of its text. -/
theorem headerValue_eq {text : String} {value : Bytes} (h : headerValue text = some value) :
    value = toUtf8 text := by
  unfold headerValue at h
  split_ifs at h
  exact (Option.some.inj h).symm

/-- The headers that a provider sets by itself. -/
def providerHeaders : List String := ["version", "openai-organization", "openai-project"]

/-- A header from the environment has its own name only. -/
theorem values_envHeader (environment : String → Option String) {name name' : String}
    (envVar : String) (hname : name' ≠ name) :
    (envHeader environment name envVar).values name' = [] := by
  unfold envHeader
  split
  · rename_i value _
    cases headerValue value with
    | none => rfl
    | some bytes => simp [Headers.values, hname.symm]
  · rfl

/-- A provider sets headers of its own names only. -/
theorem values_toApiProvider (environment : String → Option String) (packageVersion : String)
    (baseUrl : Option String) (mode : AuthMode) {name : String} (hname : name ∉ providerHeaders) :
    (toApiProvider environment packageVersion baseUrl mode).headers.values name = [] := by
  simp only [providerHeaders, List.mem_cons, List.not_mem_nil, or_false, not_or] at hname
  obtain ⟨hversion, horganization, hproject⟩ := hname
  unfold toApiProvider
  rw [Headers.values_append_list, Headers.values_append_list,
    values_envHeader _ _ horganization, values_envHeader _ _ hproject]
  cases headerValue packageVersion with
  | none => rfl
  | some bytes => simp [Headers.values, Ne.symm hversion]

/-- A header that may not be brought in is that of the provider, and any other is the last one that
is brought in. -/
theorem values_mergeSafeRequestHeaders (destination source : HeaderMap) (name : String) :
    (mergeSafeRequestHeaders destination source).values name =
      if isForbiddenForwardedHeader name then destination.values name
      else (source.values name).getLast?.elim (destination.values name) ([·]) := by
  rw [mergeSafeRequestHeaders, Headers.values_copy]
  cases isForbiddenForwardedHeader name <;> rfl

/-- Headers that show credentials, and nothing of an account that the credentials do not have. -/
structure Shows (auth : CodexAuth) (headers : HeaderMap) : Prop where
  authorization : ∃ token, auth.token = some token ∧
    headers.values "authorization" = [toUtf8 ("Bearer " ++ token)]
  account : headers.values "chatgpt-account-id" = auth.accountId.toList.map toUtf8
  fedramp : headers.values "x-openai-fedramp" =
    if auth.isFedrampAccount then [toUtf8 "true"] else []

/-- The headers that show credentials. -/
def authHeaders : List String := ["authorization", "chatgpt-account-id", "x-openai-fedramp"]

/-- The credentials are shown, and no other header changes. -/
theorem attachAuthHeaders_spec {headers headers' : HeaderMap} {auth : CodexAuth}
    (h : attachAuthHeaders headers auth = .ok headers')
    (haccount : headers.values "chatgpt-account-id" = [])
    (hfedramp : headers.values "x-openai-fedramp" = []) :
    Shows auth headers' ∧ ∀ name, name ∉ authHeaders → headers'.values name = headers.values name := by
  unfold attachAuthHeaders at h
  split at h
  · cases h
  rename_i token htoken
  split at h
  · cases h
  rename_i authorization hauthorization
  rw [headerValue_eq hauthorization] at h
  -- The header of a FedRAMP account is the last that is added.
  have hlast (name : String) (added : HeaderMap) :
      (if auth.isFedrampAccount then added.insert "x-openai-fedramp" (toUtf8 "true")
        else added).values name =
      if name = "x-openai-fedramp" ∧ auth.isFedrampAccount = true then [toUtf8 "true"]
      else added.values name := by
    cases auth.isFedrampAccount with
    | true => simp [Headers.values_insert]
    | false => simp
  dsimp only at h
  split at h
  · rename_i hnone
    cases h
    refine ⟨⟨⟨token, htoken, ?_⟩, ?_, ?_⟩, fun name hname => ?_⟩
    · rw [hlast, Headers.values_insert]
      simp
    · rw [hlast, Headers.values_insert, hnone]
      simp [haccount]
    · rw [hlast, Headers.values_insert]
      simp [hfedramp]
    · simp only [authHeaders, List.mem_cons, List.not_mem_nil, or_false, not_or] at hname
      rw [hlast, Headers.values_insert]
      simp [hname]
  · rename_i accountId hsome
    split at h
    · cases h
    rename_i account haccountValue
    rw [headerValue_eq haccountValue] at h
    cases h
    refine ⟨⟨⟨token, htoken, ?_⟩, ?_, ?_⟩, fun name hname => ?_⟩
    · rw [hlast, Headers.values_insert, Headers.values_insert]
      simp
    · rw [hlast, Headers.values_insert, hsome]
      simp
    · rw [hlast, Headers.values_insert, Headers.values_insert]
      simp [hfedramp]
    · simp only [authHeaders, List.mem_cons, List.not_mem_nil, or_false, not_or] at hname
      rw [hlast, Headers.values_insert, Headers.values_insert]
      simp [hname]

/-! ## One send -/

namespace CodexTransport

variable {V U H L : Type} (t : CodexTransport V U H L)

/-- Where credentials are shown. -/
def endpoint (auth : CodexAuth) : String :=
  if auth.isApiKeyAuth then t.apiKeyBaseUrl.getD OPENAI_BASE_URL else CHATGPT_CODEX_BASE_URL

/-- Credentials that a request may be sent with: the key that the transport was given, if any, and
those of an account only if there is no custom endpoint. -/
structure Admits (auth : CodexAuth) : Prop where
  kind : auth.isApiKeyAuth = true ∨ auth.isChatgptAuth = true
  apiKey : ∀ apiKey ∈ t.apiKeyOverride, auth = CodexAuth.fromApiKey apiKey
  custom : auth.isApiKeyAuth = false → t.apiKeyBaseUrl = none

/-- The headers that the transport sets on a request, whatever else is on it. -/
def ownHeaders : List String :=
  authHeaders ++ ["version", "content-type", "accept", "user-agent", RESPONSES_LITE_HEADER,
    CODEX_ROUTING_HINT_HEADER]

/-- A request with the document and the headers of a call. The headers `openai-organization` and
`openai-project` carry the provider's own values, which come from the environment; a call passes on
none of these names. -/
structure Conforms (path : String) (body : Value) (extraHeaders : HeaderMap)
    (options : JsonRequestOptions) (request : HttpRequest U) : Prop where
  body : request.body = body
  auth : ∃ auth, t.Admits auth ∧ Shows auth request.headers ∧
    t.urls.parse (ApiProvider.urlForPath ⟨t.endpoint auth, []⟩ path) = .ok request.url
  version : request.headers.values "version" = [toUtf8 CODEX_WIRE_COMPATIBILITY_VERSION]
  contentType : request.headers.values "content-type" = [toUtf8 "application/json"]
  accept : request.headers.values "accept" = [toUtf8 options.accept]
  userAgent : request.headers.values "user-agent" = [toUtf8 t.userAgent]
  lite : request.headers.values RESPONSES_LITE_HEADER =
    if options.useResponsesLite then [toUtf8 "true"] else []
  routingHint : request.headers.values CODEX_ROUTING_HINT_HEADER = options.routingHint.toList
  passes : ∀ name, name ∉ ownHeaders → isForbiddenForwardedHeader name = false →
    request.headers.values name = (extraHeaders.values name).getLast?.toList
  withholds : ∀ name, name ∉ ownHeaders → name ∉ providerHeaders →
    isForbiddenForwardedHeader name = true → request.headers.values name = []

/-- The credentials at hand are the key that was given, if one was, and nothing is sent for them. -/
theorem currentAuth_spec {w w' : World V U} {auth : Option CodexAuth}
    (h : t.currentAuth w = (auth, w')) : w'.sent = w.sent ∧
      ∀ found ∈ auth, ∀ apiKey ∈ t.apiKeyOverride, found = CodexAuth.fromApiKey apiKey := by
  unfold currentAuth at h
  cases hkey : t.apiKeyOverride with
  | none =>
    rw [hkey] at h
    cases h
    exact ⟨rfl, nofun⟩
  | some apiKey =>
    rw [hkey] at h
    cases h
    refine ⟨rfl, fun found hfound apiKey' hkey' => ?_⟩
    cases hfound
    cases hkey'
    rfl

/-- The credentials that are resolved are admitted, and nothing is sent for them. -/
theorem resolveAuth_spec {w w' : World V U} {result : Except Error CodexAuth}
    (h : t.resolveAuth w = (result, w')) :
    w'.sent = w.sent ∧ ∀ auth, result = .ok auth → t.Admits auth := by
  unfold resolveAuth at h
  split at h
  · rename_i hcurrent
    cases h
    exact ⟨(t.currentAuth_spec hcurrent).1, nofun⟩
  · rename_i auth w₁ hcurrent
    obtain ⟨hsent, hkey⟩ := t.currentAuth_spec hcurrent
    split_ifs at h with hkind hcustom
    · cases h
      exact ⟨hsent, nofun⟩
    · cases h
      exact ⟨hsent, nofun⟩
    · cases h
      refine ⟨hsent, fun auth' hauth => ?_⟩
      cases hauth
      refine ⟨?_, hkey auth rfl, fun hnot => ?_⟩
      · simp only [Bool.and_eq_true, Bool.not_eq_true', not_and, Bool.not_eq_false] at hkind
        by_cases hapi : auth.isApiKeyAuth = true
        · exact .inl hapi
        · exact .inr (hkind (by simpa using hapi))
      · simp only [hnot, Bool.not_false, Bool.and_true, Bool.not_eq_true] at hcustom
        simpa using hcustom

/-- Where a provider is asked with credentials that a request may be sent with. -/
theorem baseUrl_provider {auth : CodexAuth} (h : t.Admits auth) :
    (t.provider auth).baseUrl = t.endpoint auth := by
  unfold endpoint provider toApiProvider
  by_cases hkey : auth.isApiKeyAuth = true
  · have hmode : auth.authMode = .apiKey := by simpa [CodexAuth.isApiKeyAuth] using hkey
    simp only [hkey, if_true, hmode]
  · have hchatgpt : auth.isChatgptAuth = true := h.kind.resolve_left hkey
    have hmode : auth.authMode = .chatgpt ∨ auth.authMode = .personalAccessToken := by
      unfold CodexAuth.isChatgptAuth at hchatgpt
      unfold CodexAuth.authMode
      cases hkind : auth.apiAuthMode <;> simp_all [AuthMode.hasChatgptAccount]
    rw [if_neg hkey, if_neg hkey, Option.getD_none]
    rcases hmode with hmode | hmode <;> rw [hmode]

/-- What a request is put together of. -/
theorem prepareRequest_eq_ok {path accept : String} {extraHeaders : HeaderMap} {auth : CodexAuth}
    {url : U} {headers : HeaderMap}
    (h : t.prepareRequest path extraHeaders accept auth = .ok (url, headers)) :
    t.urls.parse ((t.provider auth).urlForPath path) = .ok url ∧ ∃ shown,
      attachAuthHeaders ((mergeSafeRequestHeaders (t.provider auth).headers extraHeaders).insert
        "version" (toUtf8 CODEX_WIRE_COMPATIBILITY_VERSION)) auth = .ok shown ∧
      headers = ((shown.insert "content-type" (toUtf8 "application/json")).insert "accept"
        (toUtf8 accept)).insert "user-agent" (toUtf8 t.userAgent) := by
  unfold prepareRequest at h
  obtain ⟨url', hurl, h⟩ := bind_eq_ok.mp h
  obtain ⟨shown, hshown, h⟩ := bind_eq_ok.mp h
  dsimp only at h
  split at h
  · cases h
  · rename_i userAgent huserAgent
    cases h
    rw [headerValue_eq huserAgent]
    exact ⟨mapError_eq_ok.mp hurl, shown, hshown, rfl⟩

/-- The header for Responses Lite is set or removed, and no other changes. -/
theorem values_setInternalResponsesLiteHeader (headers : HeaderMap) (enabled : Bool)
    (name : String) : (setInternalResponsesLiteHeader headers enabled).values name =
      if name = RESPONSES_LITE_HEADER then if enabled then [toUtf8 "true"] else []
      else headers.values name := by
  unfold setInternalResponsesLiteHeader
  cases enabled
  · exact Headers.values_remove ..
  · exact Headers.values_insert ..

/-- The routing hint is set or removed, and no other header changes. -/
theorem values_setInternalRoutingHintHeader (headers : HeaderMap) (value : Option Bytes)
    (name : String) : (setInternalRoutingHintHeader headers value).values name =
      if name = CODEX_ROUTING_HINT_HEADER then value.toList else headers.values name := by
  unfold setInternalRoutingHintHeader
  cases value
  · exact Headers.values_remove ..
  · exact Headers.values_insert ..

/-- A request that is put together conforms, once the headers of the protocol are set. -/
theorem conforms_of_prepareRequest {path : String} (body : Value) {extraHeaders : HeaderMap}
    {options : JsonRequestOptions} {auth : CodexAuth} (hauth : t.Admits auth) {url : U}
    {headers : HeaderMap}
    (h : t.prepareRequest path extraHeaders options.accept auth = .ok (url, headers)) :
    t.Conforms path body extraHeaders options ⟨url, setInternalRoutingHintHeader
      (setInternalResponsesLiteHeader headers options.useResponsesLite) options.routingHint,
      body⟩ := by
  obtain ⟨hurl, shown, hshown, rfl⟩ := t.prepareRequest_eq_ok h
  -- What stands under a name before the credentials are added.
  have hmerged (name : String) :
      ((mergeSafeRequestHeaders (t.provider auth).headers extraHeaders).insert "version"
        (toUtf8 CODEX_WIRE_COMPATIBILITY_VERSION)).values name =
      if name = "version" then [toUtf8 CODEX_WIRE_COMPATIBILITY_VERSION]
      else if isForbiddenForwardedHeader name then (t.provider auth).headers.values name
      else (extraHeaders.values name).getLast?.elim ((t.provider auth).headers.values name)
        ([·]) := by
    rw [Headers.values_insert, values_mergeSafeRequestHeaders]
  have hprovider {name : String} (hname : name ∉ providerHeaders) :
      (t.provider auth).headers.values name = [] := values_toApiProvider _ _ _ _ hname
  obtain ⟨hshows, hkept⟩ := attachAuthHeaders_spec hshown
    (by rw [hmerged, if_neg (by decide), if_pos (by decide), hprovider (by decide)])
    (by rw [hmerged, if_neg (by decide), if_pos (by decide), hprovider (by decide)])
  have hvalues (name : String) : (setInternalRoutingHintHeader (setInternalResponsesLiteHeader
      (((shown.insert "content-type" (toUtf8 "application/json")).insert "accept"
        (toUtf8 options.accept)).insert "user-agent" (toUtf8 t.userAgent))
      options.useResponsesLite) options.routingHint).values name =
      if name = CODEX_ROUTING_HINT_HEADER then options.routingHint.toList
      else if name = RESPONSES_LITE_HEADER then if options.useResponsesLite then [toUtf8 "true"]
        else []
      else if name = "user-agent" then [toUtf8 t.userAgent]
      else if name = "accept" then [toUtf8 options.accept]
      else if name = "content-type" then [toUtf8 "application/json"]
      else shown.values name := by
    rw [values_setInternalRoutingHintHeader, values_setInternalResponsesLiteHeader,
      Headers.values_insert, Headers.values_insert, Headers.values_insert]
  -- No name of a header that shows credentials is set after that.
  have hauthHeader {name : String} (hname : name ∈ authHeaders) :
      (setInternalRoutingHintHeader (setInternalResponsesLiteHeader
        (((shown.insert "content-type" (toUtf8 "application/json")).insert "accept"
          (toUtf8 options.accept)).insert "user-agent" (toUtf8 t.userAgent))
        options.useResponsesLite) options.routingHint).values name = shown.values name := by
    have hnot : ∀ name ∈ authHeaders, name ≠ CODEX_ROUTING_HINT_HEADER ∧
        name ≠ RESPONSES_LITE_HEADER ∧ name ≠ "user-agent" ∧ name ≠ "accept" ∧
        name ≠ "content-type" := by decide
    obtain ⟨h₁, h₂, h₃, h₄, h₅⟩ := hnot name hname
    rw [hvalues, if_neg h₁, if_neg h₂, if_neg h₃, if_neg h₄, if_neg h₅]
  have hrest {name : String} (hname : name ∉ ownHeaders) :
      (setInternalRoutingHintHeader (setInternalResponsesLiteHeader
        (((shown.insert "content-type" (toUtf8 "application/json")).insert "accept"
          (toUtf8 options.accept)).insert "user-agent" (toUtf8 t.userAgent))
        options.useResponsesLite) options.routingHint).values name =
      if isForbiddenForwardedHeader name then (t.provider auth).headers.values name
      else (extraHeaders.values name).getLast?.elim ((t.provider auth).headers.values name)
        ([·]) := by
    simp only [ownHeaders, List.mem_append, not_or, List.mem_cons, List.not_mem_nil,
      or_false] at hname
    obtain ⟨hnotAuth, hversion, htype, haccept, hagent, hlite, hhint⟩ := hname
    rw [hvalues, if_neg hhint, if_neg hlite, if_neg hagent, if_neg haccept, if_neg htype,
      hkept name hnotAuth, hmerged, if_neg hversion]
  exact {
    body := rfl
    auth := by
      refine ⟨auth, hauth, ⟨?_, ?_, ?_⟩, ?_⟩
      · rw [hauthHeader (by decide)]
        exact hshows.authorization
      · rw [hauthHeader (by decide)]
        exact hshows.account
      · rw [hauthHeader (by decide)]
        exact hshows.fedramp
      · rw [← t.baseUrl_provider hauth]
        exact hurl
    version := by
      rw [hvalues, if_neg (by decide), if_neg (by decide), if_neg (by decide), if_neg (by decide),
        if_neg (by decide), hkept _ (by decide), hmerged, if_pos rfl]
    contentType := by
      rw [hvalues, if_neg (by decide), if_neg (by decide), if_neg (by decide), if_neg (by decide),
        if_pos rfl]
    accept := by
      rw [hvalues, if_neg (by decide), if_neg (by decide), if_neg (by decide), if_pos rfl]
    userAgent := by
      rw [hvalues, if_neg (by decide), if_neg (by decide), if_pos rfl]
    lite := by
      rw [hvalues, if_neg (by decide), if_pos rfl]
    routingHint := by
      rw [hvalues, if_pos rfl]
    passes := fun name hname hallowed => by
      have hnot : name ∉ providerHeaders := fun hmem => by
        have hforbidden : ∀ name ∈ providerHeaders, isForbiddenForwardedHeader name = true := by
          decide
        rw [hforbidden name hmem] at hallowed
        cases hallowed
      rw [hrest hname, hallowed, if_neg nofun, hprovider hnot]
      cases (extraHeaders.values name).getLast? <;> rfl
    withholds := fun name hname hnot hforbidden => by
      rw [hrest hname, hforbidden, if_pos rfl, hprovider hnot] }

/-- What a send adds to the log: at most one request, which conforms. -/
theorem sendJsonOnce_sent (path : String) (body : Value) (extraHeaders : HeaderMap)
    (options : JsonRequestOptions) (w : World V U) : ∃ requests,
      (t.sendJsonOnce path body extraHeaders options w).2.sent = w.sent ++ requests ∧
      requests.length ≤ 1 ∧
      ∀ request ∈ requests, t.Conforms path body extraHeaders options request := by
  have hnone : ∃ requests : List (HttpRequest U), w.sent = w.sent ++ requests ∧
      requests.length ≤ 1 ∧
      ∀ request ∈ requests, t.Conforms path body extraHeaders options request :=
    ⟨[], by simp⟩
  unfold sendJsonOnce
  split
  · rename_i hresolve
    rw [(t.resolveAuth_spec hresolve).1]
    exact hnone
  · rename_i auth w₁ hresolve
    obtain ⟨hsent, hadmits⟩ := t.resolveAuth_spec hresolve
    split
    · rw [hsent]
      exact hnone
    · rename_i url headers hprepare
      have hconforms := t.conforms_of_prepareRequest body (hadmits auth rfl) hprepare
      dsimp only
      split <;> exact ⟨[_], by rw [hsent], Nat.le_refl 1, List.forall_mem_singleton.mpr hconforms⟩

/-! ## Whole runs -/

/-- Only the sends of the loop change the log. -/
theorem prestream_onlySends
    (send : World V U → Except (SendError HttpError Error) RawResponse × World V U) :
    (t.prestream send).OnlySends World.sent where
  next _ _ := rfl
  sleep _ _ := rfl
  acquire _ _ := rfl

/-- The recovery offers at most the steps that it has left. -/
theorem prestream_offersAtMost
    (send : World V U → Except (SendError HttpError Error) RawResponse × World V U) {n : ℕ}
    {r : UnauthorizedRecovery} (hn : r.step.left = n) : (t.prestream send).OffersAtMost n r := by
  induction n generalizing r with
  | zero =>
    intro w
    apply UnauthorizedRecovery.hasNext_of_done
    cases hstep : r.step <;> simp_all [UnauthorizedRecoveryStep.left]
  | succ n ih =>
    intro w w' _ hok
    rcases hnext : r.next t.manager w'.rest with ⟨_ | _, r', rest⟩
    · simp [prestream, hnext] at hok
    · have hleft := UnauthorizedRecovery.next_left hnext
      have hr : ((t.prestream send).next r w').2.1 = r' := by simp [prestream, hnext]
      rw [hr]
      exact ih (by omega)

/-- What a run of the loop adds to the log is what its turns add, each by one send. -/
theorem sent_of_runs {send : World V U → Except (SendError HttpError Error) RawResponse × World V U}
    {P : HttpRequest U → Prop}
    (hsend : ∀ w, ∃ requests, (send w).2.sent = w.sent ++ requests ∧ requests.length ≤ 1 ∧
      ∀ request ∈ requests, P request)
    (home : Option H) {s final : Attempt (World V U) UnauthorizedRecovery L}
    {records : List (List (Act L RawResponse HttpError Error))}
    {result : Except (SendError HttpError Error) RawResponse}
    (h : Runs (prestreamTurn (t.prestream send) home) s records (result, final)) :
    ∃ requests, final.world.sent = s.world.sent ++ requests ∧
      requests.length ≤ records.length ∧ ∀ request ∈ requests, P request := by
  generalize hend : (result, final) = returned at h
  induction h with
  | @done s record returned hturn =>
    subst hend
    have hview := prestreamTurn_view home (t.prestream_onlySends send) s
    rw [hturn] at hview
    obtain ⟨requests, hrequests, hlength, hall⟩ := hsend s.world
    exact ⟨requests, hview.trans hrequests, hlength, hall⟩
  | @again s s' record records returned hturn _ ih =>
    have hview := prestreamTurn_view home (t.prestream_onlySends send) s
    rw [hturn] at hview
    obtain ⟨first, hfirst, hone, hall⟩ := hsend s.world
    obtain ⟨rest, hrest, hlength, hall'⟩ := ih hend
    have hsent : s'.world.sent = s.world.sent ++ first := hview.trans hfirst
    refine ⟨first ++ rest, by rw [hrest, hsent, List.append_assoc], ?_, ?_⟩
    · rw [List.length_append, List.length_cons]
      omega
    · exact List.forall_mem_append.mpr ⟨hall, hall'⟩

/-- A request is sent at most four times, within as many turns, and each request that is added to
the log has the property that those of a send have. -/
theorem execute_sent {send : World V U → Except (SendError HttpError Error) RawResponse × World V U}
    {P : HttpRequest U → Prop}
    (hsend : ∀ w, ∃ requests, (send w).2.sent = w.sent ++ requests ∧ requests.length ≤ 1 ∧
      ∀ request ∈ requests, P request) (w : World V U) :
    ∃ result w' requests, (∀ fuel, 4 ≤ fuel → t.execute fuel send w = some (result, w')) ∧
      w'.sent = w.sent ++ requests ∧ requests.length ≤ 4 ∧ ∀ request ∈ requests, P request := by
  have hmax : maxPrestreamAttempts = 2 := rfl
  let recovery := if t.apiKeyOverride.isNone then some (t.unauthorizedRecovery w.rest) else none
  let home := if t.apiKeyOverride.isNone then some t.home else none
  let start : Attempt (World V U) UnauthorizedRecovery L := ⟨0, none, recovery, w⟩
  obtain ⟨k, hk, hoffers⟩ : ∃ k, k ≤ 2 ∧
      ∀ r ∈ recovery, (t.prestream send).OffersAtMost k r := by
    cases recovery with
    | none => exact ⟨0, Nat.zero_le 2, nofun⟩
    | some r =>
      refine ⟨r.step.left, by cases r.step <;> decide, fun r' hr' => ?_⟩
      rw [← Option.some.inj hr']
      exact t.prestream_offersAtMost send rfl
  have hleft : TurnsLeft (t.prestream send) (k + 1) start :=
    ⟨k, hoffers, by simp only [start]; omega, by simp only [start]; omega⟩
  obtain ⟨records, ⟨result, final⟩, hruns, hlength⟩ := exists_runs TurnsLeft.again hleft
  obtain ⟨requests, hsent, hcount, hall⟩ := t.sent_of_runs hsend home hruns
  refine ⟨result.mapError SendError.toError, final.world, requests, fun fuel hfuel => ?_, hsent,
    by omega, hall⟩
  have hrun : executeWith401Recovery (t.prestream send) home fuel recovery w =
      some (records, result, final) := hruns.run_eq (by omega)
  exact congrArg (Option.map _) hrun

/-! ## The document of a turn -/

/-- The document of a turn that a request with some credentials becomes. -/
structure IsTurnBody (fastMode apiKeyAuth : Bool) (model : String) (body : Value) : Prop where
  validModel : validateModelId model = .ok ()
  sameModel : body.get "model" = some (.string model)
  stream : body.get "stream" = some (.bool true)
  store : body.get "store" = some (.bool false)
  tier : body.get "service_tier" = if fastMode then some (.string "priority") else none
  stateless : ∀ key ∈ ["previous_response_id", "conversation"], body.get key = none
  account : apiKeyAuth = false →
    ∀ key ∈ ["max_output_tokens", "client_metadata", "metadata"], body.get key = none

/-- A reference to stored state is gone. -/
theorem rejectStatefulReference_get {field : String} {object object' : Map Value}
    (h : rejectStatefulReference field object = .ok object') : object'.get field = none := by
  unfold rejectStatefulReference at h
  split at h
  · cases h
    rw [Map.get_erase, if_pos rfl]
  · cases h
    rw [Map.get_erase, if_pos rfl]
  · cases h

/-- The members of a request that the normalization removes, keeps, or checks, in both dialects. -/
theorem normalizeMembers_turn {items : ItemLibrary} {body : Value} {apiKeyAuth : Bool}
    {object : Map Value} (h : normalizeMembers items body apiKeyAuth = .ok object) :
    (∃ model, validateModelId model = .ok () ∧ body.get "model" = some (.string model) ∧
      object.get "model" = some (.string model)) ∧
    object.get "service_tier" = body.get "service_tier" ∧
    (∀ key ∈ ["previous_response_id", "conversation"], object.get key = none) ∧
    (apiKeyAuth = false →
      ∀ key ∈ ["max_output_tokens", "client_metadata", "metadata"], object.get key = none) := by
  obtain ⟨request, model, o₁, o₂, o₃, o₄, calls, o₅, o₆, o₇, o₈, o₉, rfl, hmodel, hid, h₁, h₂, h₃,
    h₄, -, h₅, h₆, h₇, h₈, h₉, h⟩ := normalizeMembers_eq_ok.mp h
  have t₁ := (normalizeInstructions_spec h₁).1
  have t₂ := rejectStatefulReference_touches h₂
  have t₃ := rejectStatefulReference_touches h₃
  have t₄ := (normalizeTools_spec h₄).1
  have t₅ := (normalizeInput_spec h₅).1
  have t₆ := normalizeToolChoice_touches h₆
  have t₇ := normalizeParallelToolCalls_touches h₇
  have t₈ := (normalizeReasoning_spec h₈).1
  have t₉ := normalizeInclude_touches h₉
  have t₁₀ := normalizeAccount_touches h
  -- What a step does not touch is read from the document before it.
  have after : Touches _ o₃ object := t₄.trans (t₅.trans (t₆.trans (t₇.trans (t₈.trans
    (t₉.trans t₁₀)))))
  have all : Touches _ request object := t₁.trans (t₂.trans (t₃.trans after))
  obtain ⟨v, hv, hstr⟩ := Option.bind_eq_some_iff.mp hmodel
  rw [Value.asStr_eq_some hstr] at hv
  refine ⟨⟨model, hid, hv, ?_⟩, ?_, ?_, fun hsubscription => ?_⟩
  · rw [all _ (by decide), hv]
  · rw [all _ (by decide), Value.get_object]
  · have hprevious : object.get "previous_response_id" = none := by
      rw [after _ (by decide), t₃ _ (by decide), rejectStatefulReference_get h₂]
    have hconversation : object.get "conversation" = none := by
      rw [after _ (by decide), rejectStatefulReference_get h₃]
    simp [hprevious, hconversation]
  · subst hsubscription
    simp only [normalizeAccount, Bool.false_eq_true, if_false, Except.ok.injEq] at h
    subst h
    simp [Map.get_erase]

/-- A request that is normalized, in either dialect, is a document of a turn. -/
theorem normalizeResponsesRequest_turn {serde : Serde} {sha256 : Bytes → Bytes}
    {items : ItemLibrary} {body turn : Value} {apiKeyAuth useResponsesLite : Bool}
    {requestNamespace : Option String} (fastMode : Bool)
    (htier : body.get "service_tier" = if fastMode then some (.string "priority") else none)
    (h : normalizeResponsesRequest serde sha256 items body apiKeyAuth useResponsesLite
      requestNamespace = .ok turn) :
    ∃ model, body.get "model" = some (.string model) ∧ IsTurnBody fastMode apiKeyAuth model turn := by
  obtain ⟨object, object', hmembers, hsame, rfl⟩ : ∃ object object',
      normalizeMembers items body apiKeyAuth = .ok object ∧
      (∀ key ∉ ["instructions", "tools", "input", "parallel_tool_calls", "reasoning"],
        Map.get object' key = object.get key) ∧ turn = stored object' := by
    cases useResponsesLite with
    | false =>
      obtain ⟨object, hmembers, rfl⟩ :=
        (normalizeResponsesRequest_standard serde sha256 items).mp h
      exact ⟨object, object, hmembers, fun _ _ => rfl, rfl⟩
    | true =>
      obtain ⟨object, requestNamespace', object', hmembers, -, hlite, rfl⟩ :=
        (normalizeResponsesRequest_true serde sha256 items).mp h
      obtain ⟨instructions, tools, grouped, inputItems, reasoning, -, -, -, -, -, rfl⟩ :=
        normalizeResponsesLiteRequest_eq_ok.mp hlite
      exact ⟨object, _, hmembers, fun key hkey => get_liteObject _ _ _ _ _ _ _ _ hkey, rfl⟩
  obtain ⟨⟨model, hvalid, hmodel, hkept⟩, htier', hstateless, haccount⟩ :=
    normalizeMembers_turn hmembers
  have hread {key : String} (hstream : key ≠ "stream") (hstore : key ≠ "store")
      (hkey : key ∉ ["instructions", "tools", "input", "parallel_tool_calls", "reasoning"]) :
      (stored object').get key = object.get key := by
    rw [get_stored, if_neg hstream, if_neg hstore, hsame key hkey]
  refine ⟨model, hmodel, hvalid, ?_, ?_, ?_, ?_, ?_, fun hsubscription => ?_⟩
  · rw [hread (by decide) (by decide) (by decide), hkept]
  · rw [get_stored, if_pos rfl]
  · rw [get_stored, if_neg (by decide), if_pos rfl]
  · rw [hread (by decide) (by decide) (by decide), htier', htier]
  · intro key hkey
    have hnot : ∀ key ∈ ["previous_response_id", "conversation"], key ≠ "stream" ∧ key ≠ "store" ∧
        key ∉ ["instructions", "tools", "input", "parallel_tool_calls", "reasoning"] := by decide
    obtain ⟨hstream, hstore, hother⟩ := hnot key hkey
    rw [hread hstream hstore hother, hstateless key hkey]
  · intro key hkey
    have hnot : ∀ key ∈ ["max_output_tokens", "client_metadata", "metadata"],
        key ≠ "stream" ∧ key ≠ "store" ∧
        key ∉ ["instructions", "tools", "input", "parallel_tool_calls", "reasoning"] := by decide
    obtain ⟨hstream, hstore, hother⟩ := hnot key hkey
    rw [hread hstream hstore hother, haccount hsubscription key hkey]

/-- What the tier of a request is set to, whatever it was. -/
theorem applyFastServiceTier_spec {body body' : Value} {enabled : Bool}
    (h : applyFastServiceTier body enabled = .ok body') (key : String) : body'.get key =
      if key = "service_tier" then if enabled then some (.string "priority") else none
      else body.get key := by
  unfold applyFastServiceTier at h
  cases body with
  | object object =>
    simp only [Value.asObject_object, Except.ok.injEq] at h
    subst h
    rw [Value.get_object, Value.get_object]
    cases enabled with
    | false => rw [if_neg nofun, Map.get_erase]; rfl
    | true =>
      rw [if_pos rfl, Map.get_insert, Map.get_erase]
      by_cases hkey : key = "service_tier" <;> simp [hkey]
  | null | bool | number | string | array => cases h

/-- The hint that goes with a document of a turn. -/
def turnHint (fastMode : Bool) (model : String) : String :=
  "model=" ++ model ++ if fastMode then ";tier=priority" else ""

/-- What a turn is sent with. -/
structure IsTurnOptions (apiKeyAuth : Bool) (model : String) (options : JsonRequestOptions) :
    Prop where
  accept : options.accept = "text/event-stream"
  lite : options.useResponsesLite = (t.modelCapabilities.get model).any (·.useResponsesLite)
  routingHint : options.routingHint =
    if apiKeyAuth then none else some (toUtf8 (turnHint t.fastMode model))

/-- A request that is accepted names its model. -/
theorem validateModelRequest_row {modelCapabilities : Map ModelCapabilities} {body : Value}
    {apiKeyAuth : Bool} {capabilities : Option ModelCapabilities}
    (h : validateModelRequest modelCapabilities body apiKeyAuth = .ok capabilities) :
    ∃ model, (body.get "model").bind Value.asStr = some model ∧
      capabilities = modelCapabilities.get model := by
  unfold validateModelRequest at h
  split at h
  · cases h
  · rename_i model hmodel
    refine ⟨model, hmodel, ?_⟩
    split at h
    · rename_i hrow
      split_ifs at h
      cases h
      exact hrow.symm
    · rename_i row hrow
      split_ifs at h
      cases h
      exact hrow.symm

/-- The routing hint of a turn is that of its mode and its model. -/
theorem subscriptionRoutingHint_spec {fastMode apiKeyAuth : Bool} {model : String} {turn : Value}
    (hturn : IsTurnBody fastMode apiKeyAuth model turn) {hint : Bytes}
    (h : subscriptionRoutingHint turn = .ok hint) : hint = toUtf8 (turnHint fastMode model) := by
  unfold subscriptionRoutingHint at h
  rw [hturn.sameModel, hturn.tier, Option.bind_some, Value.asStr_string] at h
  dsimp only at h
  split at h
  · cases h
  · rename_i value hvalue
    cases h
    rw [headerValue_eq hvalue, turnHint]
    cases fastMode with
    | true => simp [String.append_assoc]
    | false => simp

/-- Preparing a turn sends nothing, and what it prepares is a turn. -/
theorem prepareTurn_spec {body : Value} {extraHeaders : HeaderMap} {apiKeyAuth : Bool}
    {w w' : World V U} {result : Except Error (Value × JsonRequestOptions)}
    (h : t.prepareTurn body extraHeaders apiKeyAuth w = (result, w')) :
    w'.sent = w.sent ∧ ∀ turn options, result = .ok (turn, options) →
      ∃ model, body.get "model" = some (.string model) ∧
        IsTurnBody t.fastMode apiKeyAuth model turn ∧ t.IsTurnOptions apiKeyAuth model options := by
  unfold prepareTurn at h
  split at h
  · cases h
    exact ⟨rfl, nofun⟩
  rename_i capabilities hvalidate
  split at h
  · cases h
    exact ⟨rfl, nofun⟩
  obtain ⟨model, hmodel, hrow⟩ := validateModelRequest_row hvalidate
  dsimp only at h
  obtain ⟨hresult, hworld⟩ := Prod.mk.inj h
  refine ⟨?_, fun turn options hok => ?_⟩
  · rw [← hworld]
    split_ifs
    · unfold requestNamespace
      split <;> rfl
    · rfl
  · rw [hok] at hresult
    obtain ⟨tiered, htiered, hresult⟩ := bind_eq_ok.mp hresult
    obtain ⟨turn', hnormalized, hresult⟩ := bind_eq_ok.mp hresult
    obtain ⟨routingHint, hhint, hresult⟩ := bind_eq_ok.mp hresult
    cases hresult
    -- The tier is set beside the model.
    have htier := applyFastServiceTier_spec htiered
    obtain ⟨model', hmodel', hturn⟩ := normalizeResponsesRequest_turn t.fastMode
      (by rw [htier, if_pos rfl]) (mapError_eq_ok.mp hnormalized)
    rw [htier, if_neg (by decide)] at hmodel'
    obtain rfl : model' = model := by
      rw [hmodel'] at hmodel
      exact Option.some.inj hmodel
    refine ⟨model', hmodel', hturn, rfl, by rw [hrow], ?_⟩
    cases apiKeyAuth with
    | true =>
      cases hhint
      rfl
    | false =>
      rw [routingHintFor, if_neg nofun] at hhint
      cases hmade : subscriptionRoutingHint turn with
      | error error =>
        rw [hmade] at hhint
        cases hhint
      | ok hint =>
        rw [hmade] at hhint
        cases hhint
        rw [subscriptionRoutingHint_spec hturn hmade]
        rfl

/-- A turn is sent at most four times, within as many turns of the loop, and every time with the
same document and with headers that conform. -/
theorem streamResponses_sent (body : Value) (extraHeaders : HeaderMap) (w : World V U) :
    ∃ result w' requests,
      (∀ fuel, 4 ≤ fuel → t.streamResponses fuel body extraHeaders w = some (result, w')) ∧
      w'.sent = w.sent ++ requests ∧ requests.length ≤ 4 ∧
      (requests ≠ [] → ∃ apiKeyAuth model turn options,
        body.get "model" = some (.string model) ∧ IsTurnBody t.fastMode apiKeyAuth model turn ∧
        t.IsTurnOptions apiKeyAuth model options ∧
        ∀ request ∈ requests, t.Conforms "responses" turn extraHeaders options request) := by
  cases hresolve : t.resolveAuth w with
  | mk resolved w₁ =>
    have hsent := (t.resolveAuth_spec hresolve).1
    cases resolved with
    | error error =>
      refine ⟨.error error, w₁, [], fun fuel _ => ?_, by rw [hsent, List.append_nil], by simp,
        by simp⟩
      rw [streamResponses, hresolve]
    | ok auth =>
      cases hprepare : t.prepareTurn body extraHeaders auth.isApiKeyAuth w₁ with
      | mk prepared w₂ =>
        obtain ⟨hsent', hturn⟩ := t.prepareTurn_spec hprepare
        cases prepared with
        | error error =>
          refine ⟨.error error, w₂, [], fun fuel _ => ?_, by rw [hsent', hsent, List.append_nil],
            by simp, by simp⟩
          rw [streamResponses, hresolve]
          dsimp only
          rw [hprepare]
        | ok prepared =>
          obtain ⟨turn, options⟩ := prepared
          obtain ⟨model, hmodel, hbody, hoptions⟩ := hturn turn options rfl
          -- Only here is anything sent.
          obtain ⟨result, w', requests, hrun, hrequests, hlength, hall⟩ :=
            t.execute_sent (t.sendJsonOnce_sent "responses" turn extraHeaders options) w₂
          refine ⟨result, w', requests, fun fuel hfuel => ?_, by rw [hrequests, hsent', hsent],
            hlength, fun _ => ⟨_, model, turn, options, hmodel, hbody, hoptions, hall⟩⟩
          rw [streamResponses, hresolve]
          dsimp only
          rw [hprepare]
          exact hrun fuel hfuel

end CodexTransport

end MuseCodex.Transport
