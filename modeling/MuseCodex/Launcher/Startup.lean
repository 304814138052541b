import Mathlib.Logic.Relation
import MuseCodex.Base64
import MuseCodex.Launcher.Arguments
import MuseCodex.Launcher.Limits
import MuseCodex.Transport.Response
import MuseCodex.Zai.Transport

/-!
# The start of the gateway

The launcher starts a gateway and waits until it is ready (`wait_for_gateway_ready` in `lib.rs`).
The two processes share two files: the readiness file, which the gateway publishes when it serves,
and a file with the code of an error, which it publishes when it fails (`run` and
`serve_with_error_reporting` of the gateway). A file appears as a whole, by a rename.

The launcher looks at the process, at the second file, and at the first one, again and again until a
deadline, and the gateway can take any step between two looks. Whatever the launcher concludes is so
(`concluded`): it takes a gateway to be ready only with the address, the token, and the catalog that
the gateway serves, and reports an error only as the gateway classified it. That the gateway ended
without saying why is concluded only if it did: the gateway writes before it ends, and the launcher
reads after it has seen the end. Each look may also fail, for a call of the operating system that
does; the launcher says so, or remembers it until the deadline.
-/

namespace MuseCodex.Launcher

open Text Json Fallible Transport

/-! ## What the launcher checks -/

/-- An unsigned number of 16 bits, with an optional sign. -/
def parseU16 (text : String) : Option ℕ := (parseU64 text).filter (· < 2 ^ 16)

/-- Refuses an address that is not one of the own machine. -/
def validateLoopbackBaseUrl (value : String) : Except String Unit :=
  match stripText "http://127.0.0.1:" value with
  | none => .error "gateway returned a non-loopback base_url"
  | some port =>
    if port = "" || port.toList.any (· ∈ ['/', '?', '#', '@']) then
      .error "gateway returned an invalid loopback base_url"
    else match parseU16 port with
      | none => .error "gateway returned an invalid loopback port"
      | some port => if port = 0 then .error "gateway returned loopback port zero" else .ok ()

/-- Refuses a token that is not one of the gateway's. -/
def validateGatewayToken (token : String) : Except String Unit :=
  match (Base64.decodeNoPad token).or (Base64.decodePadded token) with
  | none => .error "gateway returned a malformed bearer token"
  | some decoded =>
    if decoded.length ≠ 32 then .error "gateway bearer token is not 256 bits" else .ok ()

/-- `GatewayReady::validate`. -/
def GatewayReady.validate (provider : PublicProvider) (ready : GatewayReady) :
    Except String GatewayReady :=
  if ready.schemaVersion ≠ READY_SCHEMA_VERSION then
    .error ("unsupported gateway readiness schema " ++ decimal ready.schemaVersion ++
      "; expected " ++ decimal READY_SCHEMA_VERSION)
  else if ready.provider ≠ provider.asStr then
    .error ("gateway served provider '" ++ ready.provider ++ "' but '" ++ provider.asStr ++
      "' was selected")
  else do
    validateLoopbackBaseUrl ready.baseUrl
    validateGatewayToken ready.token
    validateGatewayModel ready.defaultModel
    validateGatewayModels ready.models ready.defaultModel
    return ready

/-- `read_gateway_ready`. -/
def readReady (serde : Serde) (file : Option Bytes) : Except String (Option GatewayReady) :=
  match file with
  | none => .ok none
  | some file => match readReadyBytes file with
    | .error error => .error error
    | .ok none => .ok none
    | .ok (some bytes) => match readGatewayReady serde bytes with
      | none => .error "invalid gateway readiness JSON"
      | some ready => .ok (some ready)

/-! ## Errors of the start -/

/-- `StartupErrorCode`. -/
inductive StartupErrorCode where
  | authenticationRequired
  | authenticationFailed
  | customBaseUrlRequiresApiKey
  | invalidBaseUrl
  | credentialStoreUnavailable
  | catalogRateLimited
  | catalogRejected
  | catalogInvalid
  | catalogTimeout
  | networkUnavailable
  | providerOptionUnsupported
  | gatewayStartFailed
deriving DecidableEq

/-- The code in the file. -/
def StartupErrorCode.name : StartupErrorCode → String
  | authenticationRequired => "authentication_required"
  | authenticationFailed => "authentication_failed"
  | customBaseUrlRequiresApiKey => "custom_base_url_requires_api_key"
  | invalidBaseUrl => "invalid_base_url"
  | credentialStoreUnavailable => "credential_store_unavailable"
  | catalogRateLimited => "catalog_rate_limited"
  | catalogRejected => "catalog_rejected"
  | catalogInvalid => "catalog_invalid"
  | catalogTimeout => "catalog_timeout"
  | networkUnavailable => "network_unavailable"
  | providerOptionUnsupported => "provider_option_unsupported"
  | gatewayStartFailed => "gateway_start_failed"

/-- A cause in the chain of an error. -/
inductive Cause where
  | elapsed
  | transport (error : Error)
  | other
deriving DecidableEq

/-- The error of the transport that a failure comes from. -/
def Cause.transportError : Cause → Option Error
  | transport error => some error
  | elapsed | other => none

/-- The code of an error of a transport. -/
def transportErrorCode : Error → StartupErrorCode
  | .notAuthenticated | .zaiNotAuthenticated => .authenticationRequired
  | .authentication _ | .unsupportedAuthMode | .emptyApiKey | .apiKeyTooLong _ | .apiKeyNotUtf8
  | .apiKeyContainsWhitespace | .apiKeyContainsControlCharacters => .authenticationFailed
  | .customBaseUrlRequiresApiKey => .customBaseUrlRequiresApiKey
  | .invalidBaseUrl => .invalidBaseUrl
  | .dataDirectoryUnavailable | .invalidAuthHome _ | .credentialRefreshLock _ | .io _
  | .keyring _ => .credentialStoreUnavailable
  | .upstream status _ =>
    if status = 401 ∨ status = 403 then .authenticationFailed
    else if status = 429 then .catalogRateLimited
    else if isClientError status then .catalogRejected
    else .networkUnavailable
  | .http _ => .networkUnavailable
  | .invalidUpstreamResponse _ => .catalogInvalid
  | .providerUnsupported _ => .providerOptionUnsupported
  | .invalidRequest _ | .fastModeUnavailable | .invalidHeader _ | .provider _ | .httpClient _ =>
    .gatewayStartFailed

/-- `classify_startup_error`, on the chain of causes. -/
def classifyStartupError (chain : List Cause) : StartupErrorCode :=
  if Cause.elapsed ∈ chain then .catalogTimeout
  else ((chain.findSome? Cause.transportError).map transportErrorCode).getD .gatewayStartFailed

/-- The document that reports a failure to start. -/
def startupErrorFile (code : StartupErrorCode) : Value :=
  .obj [("schema_version", .ofNat 1), ("error", .obj [("code", .string code.name)])]

/-- What the launcher says about a code. -/
def startupMessage (provider : PublicProvider) (code : String) : String :=
  match code with
  | "authentication_required" => match provider with
    | .zai => "No Z.ai credentials are saved. Run `muse-codex auth set --provider zai " ++
        "--api-key-stdin`."
    | .codex => "No Codex credentials are saved. Run `muse-codex login` or `muse-codex auth set " ++
        "--provider codex --api-key-stdin`."
  | "authentication_failed" => match provider with
    | .zai => "Z.ai rejected the stored key. Store a current key with `muse-codex auth set " ++
        "--provider zai --api-key-stdin`."
    | .codex => "Codex authentication was rejected. Run `muse-codex login` to sign in again."
  | "provider_option_unsupported" =>
    "An option was selected that the chosen provider does not support. Restart without it."
  | "custom_base_url_requires_api_key" =>
    "A custom base URL is allowed only with API-key authentication. Remove " ++
      "--base-url/OPENAI_BASE_URL to use your ChatGPT subscription."
  | "invalid_base_url" =>
    "The custom API base URL must use HTTPS and contain no credentials, query, or fragment."
  | "credential_store_unavailable" =>
    "The isolated credential store could not be opened. Check macOS Keychain access and run " ++
      "`muse-codex auth status`."
  | "catalog_rate_limited" =>
    "Codex model discovery is rate limited. Wait for the account limit to reset and retry."
  | "catalog_rejected" =>
    "The provider rejected model discovery. Check account access with `muse-codex auth status`."
  | "catalog_invalid" =>
    "The provider returned an incompatible model catalog. Update muse-codex before retrying."
  | "catalog_timeout" =>
    "Codex model discovery timed out. Check your connection and any pending macOS Keychain " ++
      "prompt, then retry."
  | "network_unavailable" =>
    "Could not reach the Codex provider. Check your connection and retry."
  | _ => "The private gateway could not start. Check the installed launcher/gateway pair and retry."

/-- The code in the body of the file, which has no other member. -/
def readErrorBody : Value → Option String
  | .object body => if body.all (·.1 = "code") then (Map.get body "code").bind Value.asStr else none
  | .array [code] => code.asStr
  | _ => none

/-- An unsigned number of 32 bits. -/
def asU32 (v : Value) : Option ℕ := v.asU64.filter (· < 2 ^ 32)

/-- The version and the code in the file. -/
def readErrorFile : Value → Option (ℕ × String)
  | .object file =>
    if file.all (·.1 ∈ ["schema_version", "error"]) then do
      let schemaVersion ← (Map.get file "schema_version").bind asU32
      let code ← (Map.get file "error").bind readErrorBody
      return (schemaVersion, code)
    else none
  | .array [schemaVersion, error] => do
    return (← asU32 schemaVersion, ← readErrorBody error)
  | _ => none

/-- The longest file with an error that is read. -/
def MAX_STARTUP_ERROR_BYTES : ℕ := 4096

/-- `read_gateway_startup_failure`. -/
def readGatewayStartupFailure (serde : Serde) (provider : PublicProvider) (file : Option Bytes) :
    Except String (Option String) :=
  match file with
  | none => .ok none
  | some bytes =>
    if MAX_STARTUP_ERROR_BYTES < bytes.length then
      .error "gateway readiness file exceeds the size limit"
    else match (serde.fromSlice bytes).bind readErrorFile with
      | none => .error "invalid private gateway startup error"
      | some (schemaVersion, code) =>
        if schemaVersion ≠ 1 then .error "unsupported gateway startup error schema"
        else .ok (some (startupMessage provider code))

/-! ## The two processes -/

/-- A gateway that could serve. -/
structure Gateway where
  backend : Backend
  port : ℕ
  token : Bytes
  models : List ModelInfo
  port_pos : 0 < port
  port_lt : port < 2 ^ 16
  token_length : token.length = 32
  catalog : Catalog models

/-- The address that a gateway serves. -/
def Gateway.baseUrl (g : Gateway) : String := "http://127.0.0.1:" ++ decimal g.port

/-- The readiness file of a gateway. -/
def Gateway.readyFile (g : Gateway) (defaultModel : String) : Value :=
  Launcher.readyFile g.backend.provider g.baseUrl (Base64.encode g.token) defaultModel g.models

/-- Where the gateway stands. -/
inductive GatewayPhase where
  | starting
  | serving
  | failing (chain : List Cause)
  | reported
  | exited

/-- The gateway, with what it has published. -/
structure GatewayState where
  phase : GatewayPhase
  published : Bool
  reported : Option (List Cause)

/-- The files that the processes share. -/
structure Files where
  ready : Option Bytes
  error : Option Bytes

/-- Why the readiness file was not read: a call failed, or the file is not valid. -/
inductive ParseError where
  | io (reason : String)
  | invalid (reason : String)

/-- What the launcher concludes if it does not find a gateway ready. -/
inductive StartError where
  | io (reason : String)
  | failure (message : String)
  | unreadableFailure (reason : String)
  | exited
  | refused (reason : String)
  | neverValid (error : ParseError)
  | timeout

/-- Where the launcher stands in `wait_for_gateway_ready`. -/
inductive LauncherPhase where
  | polling
  | exitSeen
  | beforeFailure
  | beforeReady
  | beforeDeadline
  | returned (result : Except StartError GatewayReady)

/-- The launcher. -/
structure LauncherState where
  phase : LauncherPhase
  lastParseError : Option ParseError

/-- The two processes and their files. -/
structure Startup where
  gateway : GatewayState
  files : Files
  launcher : LauncherState

section Steps

variable (serde : Serde) (provider : PublicProvider) (g : Gateway)

/-- The steps of the gateway. It may fail at the start and while it serves, fail to publish its
error, and be killed. The readiness file is removed, if it can be, when it stops serving. -/
inductive GatewayStep : GatewayState × Files → GatewayState × Files → Prop where
  | publish {files : Files} {defaultModel : String} (published : Bool)
      (reported : Option (List Cause)) (hdefault : defaultModelOf g.models = some defaultModel) :
      GatewayStep (⟨.starting, published, reported⟩, files) (⟨.serving, true, reported⟩,
        { files with ready := some (serde.toVec (g.readyFile defaultModel)) })
  | fail {files : Files} (published : Bool) (reported : Option (List Cause)) (chain : List Cause) :
      GatewayStep (⟨.starting, published, reported⟩, files)
        (⟨.failing chain, published, reported⟩, files)
  | stop {files : Files} (published : Bool) (reported : Option (List Cause)) (removed : Bool) :
      GatewayStep (⟨.serving, published, reported⟩, files) (⟨.exited, published, reported⟩,
        { files with ready := if removed then none else files.ready })
  | breaks {files : Files} (published : Bool) (reported : Option (List Cause)) (chain : List Cause)
      (removed : Bool) :
      GatewayStep (⟨.serving, published, reported⟩, files)
        (⟨.failing chain, published, reported⟩,
          { files with ready := if removed then none else files.ready })
  | report {files : Files} {chain : List Cause} (published : Bool)
      (reported : Option (List Cause)) :
      GatewayStep (⟨.failing chain, published, reported⟩, files)
        (⟨.reported, published, some chain⟩, { files with
          error := some (serde.toVec (startupErrorFile (classifyStartupError chain))) })
  | reportFails {files : Files} {chain : List Cause} (published : Bool)
      (reported : Option (List Cause)) :
      GatewayStep (⟨.failing chain, published, reported⟩, files)
        (⟨.reported, published, reported⟩, files)
  | exit {files : Files} (phase : GatewayPhase) (published : Bool)
      (reported : Option (List Cause)) :
      GatewayStep (⟨phase, published, reported⟩, files) (⟨.exited, published, reported⟩, files)

/-- What the launcher makes of the file with an error, or of a call that failed: it ends, or goes
on. -/
def afterFailure (failed : Option String) (read : Except String (Option String))
    (otherwise : LauncherPhase) : LauncherPhase :=
  match failed, read with
  | some reason, _ => .returned (.error (.io reason))
  | none, .error reason => .returned (.error (.unreadableFailure reason))
  | none, .ok (some message) => .returned (.error (.failure message))
  | none, .ok none => otherwise

/-- What the launcher makes of the readiness file, or of a call that failed. -/
def afterReady (failed : Option String) (read : Except String (Option GatewayReady))
    (lastParseError : Option ParseError) : LauncherState :=
  match failed, read with
  | some reason, _ => ⟨.beforeDeadline, some (.io reason)⟩
  | none, .ok (some ready) =>
    ⟨.returned ((ready.validate provider).mapError .refused), lastParseError⟩
  | none, .ok none => ⟨.beforeDeadline, lastParseError⟩
  | none, .error reason => ⟨.beforeDeadline, some (.invalid reason)⟩

/-- A step of `wait_for_gateway_ready`, in which a call of the operating system may fail. -/
def launcherStep (expired : Bool) (failed : Option String) (s : Startup) : LauncherState :=
  let l := s.launcher
  match l.phase with
  | .polling => match failed, s.gateway.phase with
    | some reason, _ => { l with phase := .returned (.error (.io reason)) }
    | none, .exited => { l with phase := .exitSeen }
    | none, .starting | none, .serving | none, .failing _ | none, .reported =>
      { l with phase := .beforeFailure }
  | .exitSeen => { l with
      phase := afterFailure failed (readGatewayStartupFailure serde provider s.files.error)
        (.returned (.error .exited)) }
  | .beforeFailure => { l with
      phase := afterFailure failed (readGatewayStartupFailure serde provider s.files.error)
        .beforeReady }
  | .beforeReady => afterReady provider failed (readReady serde s.files.ready) l.lastParseError
  | .beforeDeadline => { l with
      phase := if expired then
          .returned (.error ((l.lastParseError.map .neverValid).getD .timeout))
        else .polling }
  | .returned _ => l

/-- The steps of the two processes, in any order. -/
inductive StartupStep : Startup → Startup → Prop where
  | gateway {s : Startup} {gateway : GatewayState} {files : Files}
      (hstep : GatewayStep serde g (s.gateway, s.files) (gateway, files)) :
      StartupStep s ⟨gateway, files, s.launcher⟩
  | launcher {s : Startup} (expired : Bool) (failed : Option String) :
      StartupStep s { s with launcher := launcherStep serde provider expired failed s }

/-- Before the launcher has looked and the gateway has done anything. -/
def Startup.start : Startup := ⟨⟨.starting, false, none⟩, ⟨none, none⟩, ⟨.polling, none⟩⟩

/-! ## What is concluded -/

/-- What a conclusion of the launcher says of the gateway. -/
def Concludes (gateway : GatewayState) : Except StartError GatewayReady → Prop
  | .ok ready => gateway.published = true ∧ g.backend.provider = provider.asStr ∧
      ready.baseUrl = g.baseUrl ∧ ready.token = Base64.encode g.token ∧
      defaultModelOf g.models = some ready.defaultModel ∧ ready.models = g.models.map gatewayModel
  | .error (.failure message) => ∃ chain, gateway.reported = some chain ∧
      message = startupMessage provider (classifyStartupError chain).name
  | .error .exited => gateway.phase = .exited ∧ gateway.reported = none
  | .error (.refused _) => gateway.published = true ∧ g.backend.provider ≠ provider.asStr
  | .error (.neverValid (.invalid _)) => gateway.published = true ∧ ∃ defaultModel,
      MAX_GATEWAY_READY_BYTES < (serde.toVec (g.readyFile defaultModel)).length
  | .error (.unreadableFailure _) => False
  | .error (.io _) | .error (.neverValid (.io _)) | .error .timeout => True

end Steps

/-! ## The files are read as they are written -/

/-- The decimal digits of a number denote it. -/
theorem parseU64_decimal {n : ℕ} (h : n < 2 ^ 64) : parseU64 (decimal n) = some n := by
  have hdigits : (decimal n).toList = Nat.toDigits 10 n := by rw [decimal, String.toList_ofList]
  have hdigit : ∀ c ∈ Nat.toDigits 10 n, c.isDigit = true :=
    fun _ hc => Nat.isDigit_of_mem_toDigits (by decide) (by decide) hc
  have hsign : (stripPrefix '+' (decimal n)).getD (decimal n) = decimal n := by
    apply stripPrefix_of_head
    rw [hdigits]
    intro hhead
    exact absurd (hdigit '+' (List.mem_of_mem_head? hhead)) (by decide)
  have hvalue : (Nat.toDigits 10 n).foldl (fun n c => n * 10 + (c.toNat - '0'.toNat)) 0 = n := by
    simp only [Nat.mul_comm _ 10]
    exact Nat.ofDigitChars_ten_toDigits
  unfold parseU64
  rw [hsign, hdigits, if_neg, hvalue, if_pos h]
  simpa [Nat.toDigits_ne_nil] using hdigit

/-- The decimal digits of a port denote it. -/
theorem parseU16_decimal {n : ℕ} (h : n < 2 ^ 16) : parseU16 (decimal n) = some n := by
  rw [parseU16, parseU64_decimal (h.trans (by decide)), Option.filter_some,
    if_pos (decide_eq_true h)]

section Read

variable {serde : Serde} {provider : PublicProvider} {g : Gateway}

/-- The address of a gateway is accepted. -/
theorem Gateway.validateLoopbackBaseUrl (g : Gateway) :
    Launcher.validateLoopbackBaseUrl g.baseUrl = .ok () := by
  have hstrip : stripText "http://127.0.0.1:" g.baseUrl = some (decimal g.port) :=
    stripText_eq_some.mpr rfl
  have hdigits : (decimal g.port).toList = Nat.toDigits 10 g.port := by
    rw [decimal, String.toList_ofList]
  have hplain : ∀ c ∈ Nat.toDigits 10 g.port, c ∉ ['/', '?', '#', '@'] := by
    intro c hc hbad
    have hdigit : c.isDigit = true := Nat.isDigit_of_mem_toDigits (by decide) (by decide) hc
    simp only [List.mem_cons, List.not_mem_nil, or_false] at hbad
    obtain rfl | rfl | rfl | rfl := hbad <;> exact absurd hdigit (by decide)
  have hne : decimal g.port ≠ "" := by
    intro hempty
    rw [hempty] at hdigits
    exact Nat.toDigits_ne_nil hdigits.symm
  unfold Launcher.validateLoopbackBaseUrl
  rw [hstrip]
  dsimp only
  rw [if_neg, parseU16_decimal g.port_lt]
  · exact if_neg g.port_pos.ne'
  · rw [hdigits]
    simpa [hne] using hplain

/-- The token of a gateway is accepted. -/
theorem Gateway.validateGatewayToken (g : Gateway) :
    Launcher.validateGatewayToken (Base64.encode g.token) = .ok () := by
  unfold Launcher.validateGatewayToken
  rw [Base64.decodeNoPad_encode, Option.some_or]
  exact if_neg (not_not.mpr g.token_length)

/-- What a gateway writes passes every check, but for the one that it serves what was asked for. -/
theorem Gateway.validate (provider : PublicProvider) {defaultModel : String}
    (hdefault : defaultModelOf g.models = some defaultModel) (ready : GatewayReady)
    (hready : ready = ⟨READY_SCHEMA_VERSION, g.backend.provider, g.baseUrl,
      Base64.encode g.token, defaultModel, g.models.map gatewayModel⟩) :
    g.backend.provider = provider.asStr ∧ ready.validate provider = .ok ready ∨
      g.backend.provider ≠ provider.asStr ∧ ∃ reason, ready.validate provider = .error reason := by
  obtain ⟨defaultModel', hdefault', hlisted⟩ := listed_of_catalog g.catalog
  obtain rfl : defaultModel = defaultModel' := Option.some.inj (hdefault.symm.trans hdefault')
  obtain ⟨hid, hrows⟩ := hlisted.validate
  subst hready
  unfold GatewayReady.validate
  rw [if_neg (not_not.mpr rfl)]
  by_cases hprovider : g.backend.provider = provider.asStr
  · refine .inl ⟨hprovider, ?_⟩
    rw [if_neg (not_not.mpr hprovider)]
    dsimp only
    rw [g.validateLoopbackBaseUrl, g.validateGatewayToken, hid, hrows]
    rfl
  · rw [if_pos hprovider]
    exact .inr ⟨hprovider, _, rfl⟩

/-- The text of an object is not empty. -/
theorem toVec_obj_ne_nil (hserde : serde.Lawful) (entries : List (String × Value)) :
    serde.toVec (.obj entries) ≠ [] := by
  intro hnil
  have hlength : (serde.toString (.obj entries)).utf8ByteSize = 0 := by
    rw [← toUtf8_length, ← Serde.toVec, hnil, List.length_nil]
  have hhead := hserde.toString_object (Map.ofEntries entries)
  rw [← Value.obj, String.utf8ByteSize_eq_zero_iff.mp hlength] at hhead
  cases hhead

/-- The readiness file of a gateway is read as it was written, or it is too long. -/
theorem readReady_readyFile (hserde : serde.Lawful) (defaultModel : String) :
    readReady serde (some (serde.toVec (g.readyFile defaultModel))) =
        .ok (some ⟨READY_SCHEMA_VERSION, g.backend.provider, g.baseUrl, Base64.encode g.token,
          defaultModel, g.models.map gatewayModel⟩) ∨
      MAX_GATEWAY_READY_BYTES < (serde.toVec (g.readyFile defaultModel)).length ∧
        ∃ reason, readReady serde (some (serde.toVec (g.readyFile defaultModel))) =
          .error reason := by
  by_cases hlong : MAX_GATEWAY_READY_BYTES < (serde.toVec (g.readyFile defaultModel)).length
  · refine .inr ⟨hlong, "gateway readiness file exceeds the size limit", ?_⟩
    rw [readReady, readReadyBytes, if_pos hlong]
  · left
    have hne : (serde.toVec (g.readyFile defaultModel)).isEmpty = false := by
      rw [List.isEmpty_eq_false_iff]
      exact toVec_obj_ne_nil hserde _
    have hbytes : readReadyBytes (serde.toVec (g.readyFile defaultModel)) =
        .ok (some (serde.toVec (g.readyFile defaultModel))) := by
      rw [readReadyBytes, if_neg hlong]
      dsimp only
      rw [List.take_of_length_le (by omega), if_neg hlong, hne, if_neg Bool.false_ne_true]
    rw [readReady, hbytes, Gateway.readyFile]
    dsimp only
    rw [readGatewayReady_readyFile hserde]

/-- The report is a plain document. -/
theorem startupErrorFile_plain (code : StartupErrorCode) :
    Json.Plain 127 (startupErrorFile code) := by
  have hbody : Json.Plain 1 (.obj [("code", .string code.name)]) :=
    Json.Plain.obj (List.forall_mem_singleton.mpr (.string _ _))
  have hfile : Json.Plain 2 (startupErrorFile code) := Json.Plain.obj
    (List.forall_mem_cons.mpr ⟨.posInt _ (by decide), List.forall_mem_singleton.mpr hbody⟩)
  exact hfile.mono (by decide)

/-- An object is built of the entries that it is made of. -/
theorem all_ofEntries {entries : List (String × Value)} {keys : List String}
    (h : ∀ e ∈ entries, e.1 ∈ keys) : (Map.ofEntries entries).all (·.1 ∈ keys) = true :=
  List.all_eq_true.mpr fun e he => decide_eq_true (h e (Map.mem_of_mem_ofEntries he))

/-- The report is read back. -/
theorem readErrorFile_startupErrorFile (code : StartupErrorCode) :
    readErrorFile (startupErrorFile code) = some (1, code.name) := by
  have hbody : readErrorBody (.obj [("code", .string code.name)]) = some code.name := by
    simp [readErrorBody, Value.obj, Map.ofEntries, Map.insert, Map.get]
  have hkeys : (Map.ofEntries [("schema_version", Value.ofNat 1),
      ("error", Value.obj [("code", .string code.name)])]).all
        (·.1 ∈ ["schema_version", "error"]) = true :=
    all_ofEntries (by simp)
  rw [startupErrorFile, Value.obj, readErrorFile, if_pos hkeys]
  simp [Map.ofEntries, asU32, hbody]
  rfl

/-- A file with an error is read as the message about its code. -/
theorem readGatewayStartupFailure_startupErrorFile (hserde : serde.Lawful) (hsized : serde.Sized)
    (provider : PublicProvider) (code : StartupErrorCode) :
    readGatewayStartupFailure serde provider (some (serde.toVec (startupErrorFile code))) =
      .ok (some (startupMessage provider code.name)) := by
  have hplain := startupErrorFile_plain code
  have hsize : (serde.toVec (startupErrorFile code)).length ≤ MAX_STARTUP_ERROR_BYTES := by
    rw [Serde.toVec, toUtf8_length]
    refine (hsized _ hplain).trans ?_
    cases code <;> decide
  rw [readGatewayStartupFailure, if_neg hsize.not_gt, hserde.fromSlice_toVec hplain,
    Option.bind_some, readErrorFile_startupErrorFile]
  rfl

end Read

/-! ## The invariants -/

section Invariants

variable (serde : Serde) (provider : PublicProvider) (g : Gateway)

/-- What is true of the gateway and the files. -/
structure GatewayInv (gateway : GatewayState) (files : Files) : Prop where
  ready : ∀ bytes, files.ready = some bytes → gateway.published = true ∧ ∃ defaultModel,
    defaultModelOf g.models = some defaultModel ∧ bytes = serde.toVec (g.readyFile defaultModel)
  error : files.error = gateway.reported.map fun chain =>
    serde.toVec (startupErrorFile (classifyStartupError chain))
  reported : ∀ chain, gateway.reported = some chain →
    gateway.phase = .reported ∨ gateway.phase = .exited

/-- What stays true of the gateway as it goes on. -/
structure Later (gateway gateway' : GatewayState) : Prop where
  published : gateway.published = true → gateway'.published = true
  reported : ∀ chain, gateway.reported = some chain → gateway'.reported = some chain
  exited : gateway.phase = .exited → gateway' = gateway

/-- What is true of the launcher, besides. -/
structure Inv (s : Startup) : Prop where
  gateway : GatewayInv serde g s.gateway s.files
  exitSeen : s.launcher.phase = .exitSeen → s.gateway.phase = .exited
  parse : ∀ error, s.launcher.lastParseError = some error →
    Concludes serde provider g s.gateway (.error (.neverValid error))
  concluded : ∀ result, s.launcher.phase = .returned result →
    Concludes serde provider g s.gateway result

/-- The invariant holds before anything is done. -/
theorem inv_start : Inv serde provider g Startup.start where
  gateway := ⟨fun _ h => (by cases h), rfl, fun _ h => (by cases h)⟩
  exitSeen h := by cases h
  parse _ h := by cases h
  concluded _ h := by cases h

variable {serde provider g}

/-- A step of the gateway keeps what is true of it and the files. -/
theorem GatewayStep.inv {s s' : GatewayState × Files} (hstep : GatewayStep serde g s s')
    (h : GatewayInv serde g s.1 s.2) : GatewayInv serde g s'.1 s'.2 ∧ Later s.1 s'.1 := by
  -- Before the gateway has ended or reported, it has reported nothing.
  have hnone : s.1.phase ≠ .reported → s.1.phase ≠ .exited → s.1.reported = none := by
    intro hreported hexited
    cases hchain : s.1.reported with
    | none => rfl
    | some chain =>
      obtain hphase | hphase := h.reported chain hchain
      · exact absurd hphase hreported
      · exact absurd hphase hexited
  -- The readiness file that is left when the gateway stops serving is the one that was there.
  have hleft {removed : Bool} {bytes : Bytes} (hbytes : (if removed then none else s.2.ready) =
      some bytes) : s.2.ready = some bytes := by
    split_ifs at hbytes
    exact hbytes
  obtain ⟨hready, herror, hreported⟩ := h
  cases hstep with
  | publish published reported hdefault =>
    have hfirst : reported = none := hnone (by simp) (by simp)
    subst hfirst
    refine ⟨⟨fun bytes hbytes => ?_, herror, by simp⟩, ⟨fun _ => rfl, by simp, by simp⟩⟩
    cases hbytes
    exact ⟨rfl, _, hdefault, rfl⟩
  | fail published reported chain =>
    have hfirst : reported = none := hnone (by simp) (by simp)
    subst hfirst
    exact ⟨⟨hready, herror, by simp⟩, ⟨id, by simp, by simp⟩⟩
  | stop published reported removed =>
    exact ⟨⟨fun bytes hbytes => hready bytes (hleft hbytes), herror, fun _ _ => .inr rfl⟩,
      ⟨id, fun _ => id, by simp⟩⟩
  | breaks published reported chain removed =>
    have hfirst : reported = none := hnone (by simp) (by simp)
    subst hfirst
    exact ⟨⟨fun bytes hbytes => hready bytes (hleft hbytes), herror, by simp⟩,
      ⟨id, by simp, by simp⟩⟩
  | report published reported =>
    have hfirst : reported = none := hnone (by simp) (by simp)
    subst hfirst
    exact ⟨⟨hready, rfl, fun _ _ => .inl rfl⟩, ⟨id, by simp, by simp⟩⟩
  | reportFails published reported =>
    exact ⟨⟨hready, herror, fun _ _ => .inl rfl⟩, ⟨id, fun _ => id, by simp⟩⟩
  | exit phase published reported =>
    refine ⟨⟨hready, herror, fun _ _ => .inr rfl⟩, ⟨id, fun _ => id, fun hphase => ?_⟩⟩
    dsimp only at hphase
    rw [hphase]

/-- What the launcher has concluded stays so. -/
theorem Concludes.later {gateway gateway' : GatewayState} (hlater : Later gateway gateway')
    {result : Except StartError GatewayReady} (h : Concludes serde provider g gateway result) :
    Concludes serde provider g gateway' result := by
  rcases result with (_ | message | reason | _ | reason | (_ | reason) | _) | ready
  · trivial
  · obtain ⟨chain, hchain, hmessage⟩ := h
    exact ⟨chain, hlater.reported chain hchain, hmessage⟩
  · exact h
  · rw [hlater.exited h.1]
    exact h
  · exact h.imp_left hlater.published
  · trivial
  · exact h.imp_left hlater.published
  · trivial
  · exact h.imp_left hlater.published

/-- What the launcher reads of an error is the message about the one that the gateway reported. -/
theorem GatewayInv.read (hserde : serde.Lawful) (hsized : serde.Sized) {gateway : GatewayState}
    {files : Files} (h : GatewayInv serde g gateway files) :
    readGatewayStartupFailure serde provider files.error = .ok (gateway.reported.map fun chain =>
      startupMessage provider (classifyStartupError chain).name) := by
  rw [h.error]
  cases gateway.reported with
  | none => rfl
  | some chain => exact readGatewayStartupFailure_startupErrorFile hserde hsized provider _

/-- A look at the error ends with the message of the gateway, or for a call that failed, or there is
no error so far. -/
theorem GatewayInv.afterFailure (provider : PublicProvider) (hserde : serde.Lawful)
    (hsized : serde.Sized) {gateway : GatewayState} {files : Files}
    (h : GatewayInv serde g gateway files) (failed : Option String) (otherwise : LauncherPhase) :
    (∃ result, afterFailure failed (readGatewayStartupFailure serde provider files.error)
        otherwise = .returned result ∧ Concludes serde provider g gateway result) ∨
    afterFailure failed (readGatewayStartupFailure serde provider files.error) otherwise =
        otherwise ∧ gateway.reported = none := by
  cases failed with
  | some reason => exact .inl ⟨_, rfl, trivial⟩
  | none =>
    rw [h.read hserde hsized]
    cases hreported : gateway.reported with
    | none => exact .inr ⟨rfl, rfl⟩
    | some chain => exact .inl ⟨_, rfl, chain, hreported, rfl⟩

/-- A look at the readiness file ends with what the gateway serves, or the launcher goes on. -/
theorem GatewayInv.afterReady (provider : PublicProvider) (hserde : serde.Lawful)
    {gateway : GatewayState} {files : Files} (h : GatewayInv serde g gateway files)
    (failed : Option String) (lastParseError : Option ParseError) :
    (∃ result, afterReady provider failed (readReady serde files.ready) lastParseError =
        ⟨.returned result, lastParseError⟩ ∧ Concludes serde provider g gateway result) ∨
    ∃ parseError, afterReady provider failed (readReady serde files.ready) lastParseError =
        ⟨.beforeDeadline, parseError⟩ ∧ (parseError = lastParseError ∨ ∀ error,
          parseError = some error →
            Concludes serde provider g gateway (.error (.neverValid error))) := by
  cases failed with
  | some reason =>
    refine .inr ⟨some (.io reason), rfl, .inr fun error herror => ?_⟩
    cases herror
    trivial
  | none =>
    cases hfile : files.ready with
    | none => exact .inr ⟨lastParseError, rfl, .inl rfl⟩
    | some bytes =>
      obtain ⟨hpublished, defaultModel, hdefault, rfl⟩ := h.ready bytes hfile
      obtain hread | ⟨hlong, reason, hread⟩ := readReady_readyFile (g := g) hserde defaultModel
      · left
        rw [hread]
        obtain ⟨hprovider, hvalid⟩ | ⟨hprovider, reason, hrefused⟩ :=
          g.validate provider hdefault _ rfl
        · refine ⟨_, rfl, ?_⟩
          rw [hvalid]
          exact ⟨hpublished, hprovider, rfl, rfl, hdefault, rfl⟩
        · refine ⟨_, rfl, ?_⟩
          rw [hrefused]
          exact ⟨hpublished, hprovider⟩
      · right
        rw [hread]
        refine ⟨some (.invalid reason), rfl, .inr fun error herror => ?_⟩
        cases herror
        exact ⟨hpublished, defaultModel, hlong⟩

/-- What a step of the launcher has to keep. -/
theorem Inv.of_launcher {s : Startup} (h : Inv serde provider g s) {launcher : LauncherState}
    (hexit : launcher.phase = .exitSeen → s.gateway.phase = .exited)
    (hparse : launcher.lastParseError = s.launcher.lastParseError ∨ ∀ error,
      launcher.lastParseError = some error →
        Concludes serde provider g s.gateway (.error (.neverValid error)))
    (hconcluded : ∀ result, launcher.phase = .returned result →
      Concludes serde provider g s.gateway result) :
    Inv serde provider g { s with launcher } where
  gateway := h.gateway
  exitSeen := hexit
  parse error herror := by
    obtain hsame | hnever := hparse
    · exact h.parse error (hsame ▸ herror)
    · exact hnever error herror
  concluded := hconcluded

/-- The launcher may conclude what is so. -/
theorem Inv.returns {s : Startup} (h : Inv serde provider g s)
    {result : Except StartError GatewayReady}
    (hconcludes : Concludes serde provider g s.gateway result) :
    Inv serde provider g { s with launcher := { s.launcher with phase := .returned result } } := by
  refine h.of_launcher (fun hexit => by cases hexit) (.inl rfl) fun _ hreturned => ?_
  cases hreturned
  exact hconcludes

/-- A step of the launcher keeps the invariant. -/
theorem Inv.launcher (hserde : serde.Lawful) (hsized : serde.Sized) {s : Startup}
    (h : Inv serde provider g s) (expired : Bool) (failed : Option String) :
    Inv serde provider g { s with launcher := launcherStep serde provider expired failed s } := by
  cases hphase : s.launcher.phase with
  | polling =>
    cases failed with
    | some reason =>
      have hlook : launcherStep serde provider expired (some reason) s =
          { s.launcher with phase := .returned (.error (.io reason)) } := by
        simp only [launcherStep, hphase]
      rw [hlook]
      exact h.returns trivial
    | none =>
      cases hgateway : s.gateway.phase with
      | exited =>
        have hlook : launcherStep serde provider expired none s =
            { s.launcher with phase := .exitSeen } := by
          simp only [launcherStep, hphase, hgateway]
        rw [hlook]
        exact h.of_launcher (fun _ => hgateway) (.inl rfl) fun _ hreturned => by cases hreturned
      | starting | serving | failing | reported =>
        have hlook : launcherStep serde provider expired none s =
            { s.launcher with phase := .beforeFailure } := by
          simp only [launcherStep, hphase, hgateway]
        rw [hlook]
        exact h.of_launcher (fun hexit => by cases hexit) (.inl rfl) fun _ hreturned => by
          cases hreturned
  | exitSeen =>
    -- The gateway ended before this look, so an error that is not there was never reported.
    have hlook : launcherStep serde provider expired failed s = { s.launcher with
        phase := afterFailure failed (readGatewayStartupFailure serde provider s.files.error)
          (.returned (.error .exited)) } := by
      simp only [launcherStep, hphase]
    rw [hlook]
    obtain ⟨result, hafter, hconcludes⟩ | ⟨hafter, hreported⟩ :=
      h.gateway.afterFailure provider hserde hsized failed (.returned (.error .exited))
    · rw [hafter]
      exact h.returns hconcludes
    · rw [hafter]
      exact h.returns ⟨h.exitSeen hphase, hreported⟩
  | beforeFailure =>
    have hlook : launcherStep serde provider expired failed s = { s.launcher with
        phase := afterFailure failed (readGatewayStartupFailure serde provider s.files.error)
          .beforeReady } := by
      simp only [launcherStep, hphase]
    rw [hlook]
    obtain ⟨result, hafter, hconcludes⟩ | ⟨hafter, -⟩ :=
      h.gateway.afterFailure provider hserde hsized failed .beforeReady
    · rw [hafter]
      exact h.returns hconcludes
    · rw [hafter]
      exact h.of_launcher (fun hexit => by cases hexit) (.inl rfl) fun _ hreturned => by
        cases hreturned
  | beforeReady =>
    have hlook : launcherStep serde provider expired failed s =
        afterReady provider failed (readReady serde s.files.ready) s.launcher.lastParseError := by
      simp only [launcherStep, hphase]
    rw [hlook]
    obtain ⟨result, hafter, hconcludes⟩ | ⟨parseError, hafter, hparse⟩ :=
      h.gateway.afterReady provider hserde failed s.launcher.lastParseError
    · rw [hafter]
      exact h.returns hconcludes
    · rw [hafter]
      exact h.of_launcher (fun hexit => by cases hexit) hparse fun _ hreturned => by
        cases hreturned
  | beforeDeadline =>
    have hlook : launcherStep serde provider expired failed s = { s.launcher with
        phase := if expired then .returned (.error
            ((s.launcher.lastParseError.map .neverValid).getD .timeout))
          else .polling } := by
      simp only [launcherStep, hphase]
    rw [hlook]
    cases expired with
    | false =>
      exact h.of_launcher (fun hexit => by cases hexit) (.inl rfl) fun _ hreturned => by
        cases hreturned
    | true =>
      refine h.returns ?_
      cases hparse : s.launcher.lastParseError with
      | none => trivial
      | some error => exact h.parse error hparse
  | returned result =>
    have hlook : launcherStep serde provider expired failed s = s.launcher := by
      simp only [launcherStep, hphase]
    rw [hlook]
    exact h

/-- A step keeps the invariant. -/
theorem Inv.step (hserde : serde.Lawful) (hsized : serde.Sized) {s s' : Startup}
    (h : Inv serde provider g s) (hstep : StartupStep serde provider g s s') :
    Inv serde provider g s' := by
  cases hstep with
  | gateway hstep =>
    obtain ⟨hinv, hlater⟩ := hstep.inv h.gateway
    refine ⟨hinv, fun hphase => ?_, fun reason hreason => ?_, fun result hresult => ?_⟩
    · have hexited := h.exitSeen hphase
      exact (congrArg GatewayState.phase (hlater.exited hexited)).trans hexited
    · exact (h.parse reason hreason).later hlater
    · exact (h.concluded result hresult).later hlater
  | launcher expired failed => exact h.launcher hserde hsized expired failed

/-- The invariant holds in every order of the steps of the two processes. -/
theorem inv_of_run (hserde : serde.Lawful) (hsized : serde.Sized) {s : Startup}
    (hrun : Relation.ReflTransGen (StartupStep serde provider g) Startup.start s) :
    Inv serde provider g s := by
  induction hrun with
  | refl => exact inv_start serde provider g
  | tail _ hstep ih => exact ih.step hserde hsized hstep

/-- In every order of the steps of the two processes, what the launcher concludes is so. -/
theorem concluded (hserde : serde.Lawful) (hsized : serde.Sized) {s : Startup}
    (hrun : Relation.ReflTransGen (StartupStep serde provider g) Startup.start s)
    {result : Except StartError GatewayReady} (hresult : s.launcher.phase = .returned result) :
    Concludes serde provider g s.gateway result :=
  (inv_of_run hserde hsized hrun).concluded result hresult

end Invariants

/-- A gateway in front of Z.ai. -/
def stalled : Gateway where
  backend := .zai
  port := 4096
  token := List.replicate 32 0
  models := Zai.pinnedModels
  port_pos := by decide
  port_lt := by decide
  token_length := List.length_replicate
  catalog := Zai.catalog_pinnedModels

/-- The gateway fails for a timeout and says so, and then the launcher looks. -/
theorem concluded_timeout : ∃ s result,
    Relation.ReflTransGen (StartupStep Compact.serde .zai stalled) Startup.start s ∧
      s.launcher.phase = .returned result ∧
      result = .error (.failure (startupMessage .zai "catalog_timeout")) ∧
      Concludes Compact.serde .zai stalled s.gateway result := by
  have hfail : StartupStep Compact.serde .zai stalled Startup.start
      ⟨⟨.failing [.elapsed], false, none⟩, ⟨none, none⟩, ⟨.polling, none⟩⟩ :=
    .gateway (.fail false none [.elapsed])
  have hreport : StartupStep Compact.serde .zai stalled
      ⟨⟨.failing [.elapsed], false, none⟩, ⟨none, none⟩, ⟨.polling, none⟩⟩
      ⟨⟨.reported, false, some [.elapsed]⟩,
        ⟨none, some (Compact.serde.toVec (startupErrorFile .catalogTimeout))⟩, ⟨.polling, none⟩⟩ :=
    .gateway (.report false none)
  have hlook : StartupStep Compact.serde .zai stalled
      ⟨⟨.reported, false, some [.elapsed]⟩,
        ⟨none, some (Compact.serde.toVec (startupErrorFile .catalogTimeout))⟩, ⟨.polling, none⟩⟩
      ⟨⟨.reported, false, some [.elapsed]⟩,
        ⟨none, some (Compact.serde.toVec (startupErrorFile .catalogTimeout))⟩,
        ⟨.beforeFailure, none⟩⟩ :=
    .launcher false none
  have hrun := (((Relation.ReflTransGen.single hfail).tail hreport).tail hlook).tail
    (.launcher false none)
  have hphase : (launcherStep Compact.serde .zai false none
      ⟨⟨.reported, false, some [.elapsed]⟩,
        ⟨none, some (Compact.serde.toVec (startupErrorFile .catalogTimeout))⟩,
        ⟨.beforeFailure, none⟩⟩).phase =
      .returned (.error (.failure (startupMessage .zai "catalog_timeout"))) := by
    dsimp only [launcherStep]
    rw [readGatewayStartupFailure_startupErrorFile Compact.lawful Compact.sized]
    rfl
  exact ⟨_, _, hrun, hphase, rfl, concluded Compact.lawful Compact.sized hrun hphase⟩

end MuseCodex.Launcher
