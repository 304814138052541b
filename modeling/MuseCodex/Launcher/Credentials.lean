import MuseCodex.Json.Compact
import MuseCodex.Launcher.Secret
import MuseCodex.Launcher.Startup

/-!
# The stored key of Z.ai

`ZaiCredentials` (`crates/codex-transport/src/zai/auth.rs`) keeps the key of Z.ai in a keyring that
other programs use too, in a record of its own for each home. The gateway's `auth` command sets and
removes it (`zai_auth` of `main.rs`), and a gateway that is given no key takes it from there
(`ZaiTransport::new`). The keyring may fail, and then it has changed nothing.

Over any history of commands, of any homes and in any order, and whatever else the keyring is used
for, the key of a home is the one that was set last and not removed since (`loaded_last`): a record
that was written is read back and is never found unreadable, what fails changes nothing, and neither
homes nor providers share a record.
-/

namespace MuseCodex.Launcher

open Json Text Transport Fallible

/-! ## The keyring -/

/-- A keyring: the secret at a service and an account. -/
abbrev Keyring := String → String → Option String

/-- The keyring with another secret, or none, at a service and an account. -/
def Keyring.set (ring : Keyring) (service account : String) (secret : Option String) : Keyring :=
  fun service' account' =>
    if service' = service ∧ account' = account then secret else ring service' account'

/-- The service of the keyring that the keys are under. -/
def ZAI_KEYRING_SERVICE : String := "Muse Codex Z.ai"

/-- The version of a stored key. -/
def STORED_CREDENTIAL_SCHEMA_VERSION : ℕ := 1

/-- The account of a home. The digest is that of the canonical path, in hexadecimal digits. -/
def storeKey (digest : String → String) (home : String) : String :=
  "zai|" ++ String.ofList ((digest home).toList.take 16)

/-- `StoredCredential`. -/
def storedCredential (apiKey : String) : Value :=
  .obj [("schema_version", .ofNat STORED_CREDENTIAL_SCHEMA_VERSION), ("api_key", .string apiKey)]

/-- The version and the key in a record. -/
def readStoredCredential : Value → Option (ℕ × String)
  | .object record => do
    let schemaVersion ← (Map.get record "schema_version").bind asU32
    let apiKey ← (Map.get record "api_key").bind Value.asStr
    return (schemaVersion, apiKey)
  | .array [schemaVersion, apiKey] => do
    return (← asU32 schemaVersion, ← apiKey.asStr)
  | _ => none

/-- The error of the transport about a key. -/
def ApiKeyError.toError : ApiKeyError → Error
  | .emptyApiKey => .emptyApiKey
  | .apiKeyTooLong limit => .apiKeyTooLong limit
  | .apiKeyContainsWhitespace => .apiKeyContainsWhitespace
  | .apiKeyContainsControlCharacters => .apiKeyContainsControlCharacters

/-- The record of a home. -/
structure ZaiCredentials where
  account : String

/-- The credentials of a home. -/
def ZaiCredentials.new (digest : String → String) (home : String) : ZaiCredentials :=
  ⟨storeKey digest home⟩

/-- The keyring as a call finds it: what it holds, and the message of the error if it fails. -/
structure KeyringCall where
  ring : Keyring
  fault : Option String

namespace ZaiCredentials

variable (serde : Serde) (credentials : ZaiCredentials)

/-- Stores a key. -/
def save (apiKey : String) (call : KeyringCall) : Except Error Unit × Keyring :=
  match validateApiKey apiKey with
  | .error error => (.error error.toError, call.ring)
  | .ok () =>
    match call.fault with
    | some message => (.error (.keyring message), call.ring)
    | none => (.ok (), call.ring.set ZAI_KEYRING_SERVICE credentials.account
        (some (serde.toString (storedCredential apiKey))))

/-- Loads the key. -/
def load (call : KeyringCall) : Except Error (Option String) :=
  match call.fault with
  | some message => .error (.keyring message)
  | none =>
    match call.ring ZAI_KEYRING_SERVICE credentials.account with
    | none => .ok none
    | some encoded =>
      match (serde.fromStr encoded).toOption.bind readStoredCredential with
      | none => .error (.keyring "the stored Z.ai credential is unreadable; store it again")
      | some (schemaVersion, apiKey) =>
        if schemaVersion ≠ STORED_CREDENTIAL_SCHEMA_VERSION then
          .error (.keyring "the stored Z.ai credential uses an unsupported schema; store it again")
        else
          match validateApiKey apiKey with
          | .error error => .error error.toError
          | .ok () => .ok (some apiKey)

/-- Removes the key. -/
def delete (call : KeyringCall) : Except Error Bool × Keyring :=
  match call.fault with
  | some message => (.error (.keyring message), call.ring)
  | none => (.ok (call.ring ZAI_KEYRING_SERVICE credentials.account).isSome,
      call.ring.set ZAI_KEYRING_SERVICE credentials.account none)

end ZaiCredentials

/-! ## The commands -/

/-- `AuthCommand`. The key is set from what is read from the standard input. -/
inductive AuthCommand where
  | login
  | logout
  | setApiKey (stdin : Bytes)
  | status

/-- What a command reports. -/
inductive AuthReport where
  | loggedOut (removed : Bool)
  | saved
  | status (signedIn : Bool)
deriving DecidableEq

/-- An error of a command: one that is only a text, or one of the transport. -/
inductive AuthFailure where
  | text (message : String)
  | transport (error : Error)
deriving DecidableEq

section Commands

variable (serde : Serde) (credentials : ZaiCredentials)

/-- `zai_auth`. -/
def zaiAuth (call : KeyringCall) : AuthCommand → Except AuthFailure AuthReport × Keyring
  | .login => (.error (.text ("Z.ai has no interactive sign-in; run " ++
      "`muse-codex auth set --provider zai --api-key-stdin`")), call.ring)
  | .logout =>
    let (result, ring) := credentials.delete call
    ((result.mapError .transport).map .loggedOut, ring)
  | .setApiKey stdin =>
    match readSecretLine stdin with
    | .error message => (.error (.text message), call.ring)
    | .ok key =>
      let (result, ring) := credentials.save serde key call
      ((result.mapError .transport).map fun () => .saved, ring)
  | .status => ((((credentials.load serde call).mapError .transport).map fun key =>
      .status key.isSome), call.ring)

/-- The key that a gateway in front of Z.ai uses: the one that it is given, or the stored one. -/
def gatewayKey (apiKeyOverride : Option String) (call : KeyringCall) : Except Error String :=
  match apiKeyOverride with
  | some apiKey =>
    match validateApiKey apiKey with
    | .error error => .error error.toError
    | .ok () => .ok apiKey
  | none => (credentials.load serde call).bind fun key => key.elim (.error .zaiNotAuthenticated) .ok

end Commands

/-! ## Histories -/

/-- What happens to a keyring: a command for a home, with the error of the keyring if it fails, or
another program sets or removes a secret of its own. -/
inductive KeyringEvent where
  | auth (home : String) (fault : Option String) (command : AuthCommand)
  | other (service account : String) (secret : Option String)

section Histories

variable (serde : Serde) (digest : String → String)

/-- The keyring after an event. -/
def keyringStep (ring : Keyring) : KeyringEvent → Keyring
  | .auth home fault command => (zaiAuth serde (.new digest home) ⟨ring, fault⟩ command).2
  | .other service account secret => ring.set service account secret

/-- The keyring after a history. -/
def keyringAfter (ring : Keyring) (events : List KeyringEvent) : Keyring :=
  events.foldl (keyringStep serde digest) ring

/-- The key of a home after an event, as its user knows it. -/
def keyAfter (home : String) (key : Option String) : KeyringEvent → Option String
  | .auth home' none (.setApiKey stdin) =>
    if storeKey digest home' = storeKey digest home then (readSecretLine stdin).toOption.or key
    else key
  | .auth home' none .logout =>
    if storeKey digest home' = storeKey digest home then none else key
  | .auth _ _ _ | .other _ _ _ => key

/-- The key of a home that was set last and not removed since. -/
def lastKey (home : String) (events : List KeyringEvent) : Option String :=
  events.foldl (keyAfter digest home) none

end Histories

/-- What other programs have stored. -/
def otherStep (ring : Keyring) : KeyringEvent → Keyring
  | .auth _ _ _ => ring
  | .other service account secret => ring.set service account secret

/-- The event is no use of the service by another program. -/
def KeyringEvent.Apart : KeyringEvent → Prop
  | .auth _ _ _ => True
  | .other service _ _ => service ≠ ZAI_KEYRING_SERVICE

/-! ## The record -/

section Record

variable {serde : Serde} {digest : String → String} {home key : String} {ring : Keyring}

/-- What is set is found. -/
@[simp] theorem Keyring.set_self (ring : Keyring) (service account : String)
    (secret : Option String) : ring.set service account secret service account = secret :=
  if_pos ⟨rfl, rfl⟩

/-- The other services stay. -/
theorem Keyring.set_service {service service' : String} (h : service' ≠ service)
    (ring : Keyring) (account account' : String) (secret : Option String) :
    ring.set service account secret service' account' = ring service' account' :=
  if_neg fun heq => h heq.1

/-- The other accounts stay. -/
theorem Keyring.set_account {account account' : String} (h : account' ≠ account)
    (ring : Keyring) (service : String) (secret : Option String) :
    ring.set service account secret service account' = ring service account' :=
  if_neg fun heq => h heq.2

/-- What the gateway takes for a key, the transport accepts. -/
theorem validateApiKey_of_readSecretLine {stdin : Bytes} (h : readSecretLine stdin = .ok key) :
    validateApiKey key = .ok () := by
  unfold readSecretLine at h
  dsimp only at h
  split_ifs at h with hlong
  split at h
  · cases h
  rename_i text htext
  split_ifs at h with hempty hspace hcontrol
  cases h
  obtain ⟨ends, -, hlength, -⟩ := toUtf8_trimLineEnds text
  rw [← fromUtf8_eq_some htext, toUtf8_length] at hlength
  rw [validateApiKey, if_neg hempty, if_neg (by omega), if_neg hspace, if_neg hcontrol]

/-- A record that was written is read back. -/
theorem readStoredCredential_storedCredential (hserde : serde.Lawful) (key : String) :
    (serde.fromStr (serde.toString (storedCredential key))).toOption.bind readStoredCredential =
      some (STORED_CREDENTIAL_SCHEMA_VERSION, key) := by
  have hplain : Json.Plain 1 (storedCredential key) := Json.Plain.obj
    (List.forall_mem_cons.mpr ⟨.posInt _ (by decide), List.forall_mem_singleton.mpr (.string _ _)⟩)
  rw [hserde.fromStr_toString _ (hplain.mono (by decide))]
  change readStoredCredential (storedCredential key) = _
  have hversion : asU32 (.ofNat STORED_CREDENTIAL_SCHEMA_VERSION) =
      some STORED_CREDENTIAL_SCHEMA_VERSION := rfl
  simp [readStoredCredential, storedCredential, Value.obj, Map.get_ofEntries, hversion]

/-- The record of a home as its user knows it. -/
structure Stored (serde : Serde) (digest : String → String) (home : String) (ring : Keyring)
    (key : Option String) : Prop where
  record : ring ZAI_KEYRING_SERVICE (storeKey digest home) =
    key.map fun key => serde.toString (storedCredential key)
  valid : ∀ apiKey ∈ key, validateApiKey apiKey = .ok ()

/-- The key of a record is loaded. -/
theorem Stored.load {key : Option String} (hserde : serde.Lawful)
    (h : Stored serde digest home ring key) :
    (ZaiCredentials.new digest home).load serde ⟨ring, none⟩ = .ok key := by
  unfold ZaiCredentials.load ZaiCredentials.new
  dsimp only
  rw [h.record]
  cases key with
  | none => rfl
  | some apiKey =>
    dsimp only [Option.map_some]
    rw [readStoredCredential_storedCredential hserde]
    dsimp only
    rw [if_neg (not_not.mpr rfl), h.valid apiKey rfl]

/-- A record of another account is another record. -/
theorem Stored.set {key : Option String} (h : Stored serde digest home ring key) {account : String}
    (secret : Option String) {key' : Option String}
    (hsame : account = storeKey digest home →
      secret = key'.map (fun key => serde.toString (storedCredential key)) ∧
        ∀ apiKey ∈ key', validateApiKey apiKey = .ok ()) :
    Stored serde digest home (ring.set ZAI_KEYRING_SERVICE account secret)
      (if account = storeKey digest home then key' else key) := by
  split_ifs with haccount
  · obtain ⟨hsecret, hvalid⟩ := hsame haccount
    exact ⟨by rw [haccount, Keyring.set_self, hsecret], hvalid⟩
  · exact ⟨by rw [Keyring.set_account (Ne.symm haccount), h.record], h.valid⟩

/-- An event changes the record of a home as its user expects. -/
theorem Stored.step {key : Option String} (h : Stored serde digest home ring key)
    {event : KeyringEvent} (hevent : event.Apart) :
    Stored serde digest home (keyringStep serde digest ring event)
      (keyAfter digest home key event) := by
  cases event with
  | other service account secret =>
    exact ⟨(Keyring.set_service (Ne.symm hevent) _ _ _ _).trans h.record, h.valid⟩
  | auth home' fault command =>
    cases command with
    | login => cases fault <;> exact h
    | status => cases fault <;> exact h
    | logout =>
      cases fault with
      | some message => exact h
      | none => exact h.set none fun _ => ⟨rfl, by simp⟩
    | setApiKey stdin =>
      unfold keyringStep zaiAuth
      dsimp only
      cases hread : readSecretLine stdin with
      | error message =>
        cases fault with
        | some message' => exact h
        | none =>
          have hkey : keyAfter digest home key (.auth home' none (.setApiKey stdin)) = key := by
            simp [keyAfter, hread, Except.toOption]
          rw [hkey]
          exact h
      | ok apiKey =>
        -- A key that is read from the input is a valid one, so it is stored as it is.
        have hvalid := validateApiKey_of_readSecretLine hread
        unfold ZaiCredentials.save
        dsimp only
        rw [hvalid]
        cases fault with
        | some message => exact h
        | none =>
          have hkey : keyAfter digest home key (.auth home' none (.setApiKey stdin)) =
              if storeKey digest home' = storeKey digest home then some apiKey else key := by
            simp [keyAfter, hread, Except.toOption]
          rw [hkey]
          exact h.set _ fun _ => ⟨rfl, fun apiKey' hmem => Option.some.inj hmem ▸ hvalid⟩

/-- A history changes the record of a home as its user expects. -/
theorem Stored.run {key : Option String} (h : Stored serde digest home ring key)
    {events : List KeyringEvent} (hevents : ∀ event ∈ events, event.Apart) :
    Stored serde digest home (keyringAfter serde digest ring events)
      (events.foldl (keyAfter digest home) key) := by
  induction events generalizing ring key with
  | nil => exact h
  | cons event events ih =>
    exact ih (h.step (hevents event List.mem_cons_self)) fun event' hmem =>
      hevents event' (List.mem_cons_of_mem _ hmem)

/-- The gateway's commands write only their own records. -/
theorem zaiAuth_other (serde : Serde) (credentials : ZaiCredentials) (call : KeyringCall)
    (command : AuthCommand) {service : String} (hservice : service ≠ ZAI_KEYRING_SERVICE)
    (account : String) : (zaiAuth serde credentials call command).2 service account =
      call.ring service account := by
  cases command with
  | login => rfl
  | status => rfl
  | logout =>
    unfold zaiAuth ZaiCredentials.delete
    cases call.fault with
    | some message => rfl
    | none => exact Keyring.set_service hservice _ _ _ _
  | setApiKey stdin =>
    unfold zaiAuth
    dsimp only
    cases readSecretLine stdin with
    | error message => rfl
    | ok apiKey =>
      dsimp only [ZaiCredentials.save]
      cases validateApiKey apiKey with
      | error error => rfl
      | ok _ =>
        dsimp only
        cases call.fault with
        | some message => rfl
        | none => exact Keyring.set_service hservice _ _ _ _

/-- What other programs have stored stays as it is. -/
theorem keyringAfter_other (serde : Serde) (digest : String → String) {ring ring' : Keyring}
    {service : String} (hservice : service ≠ ZAI_KEYRING_SERVICE)
    (hsame : ∀ account, ring service account = ring' service account) (events : List KeyringEvent)
    (account : String) : keyringAfter serde digest ring events service account =
      events.foldl otherStep ring' service account := by
  induction events generalizing ring ring' with
  | nil => exact hsame account
  | cons event events ih =>
    refine ih fun account => ?_
    cases event with
    | auth home fault command =>
      exact (zaiAuth_other serde _ _ command hservice account).trans (hsame account)
    | other service' account' secret =>
      change ring.set service' account' secret service account =
        ring'.set service' account' secret service account
      unfold Keyring.set
      rw [hsame account]

/-- Over any history of a keyring that other programs use for other services, and that holds no
record of a home at first, the home's key is the one that was set last and not removed since,
whatever failed in between: it is loaded, a gateway without a key of its own uses it, and the status
says whether there is one. What other programs have stored is not touched. -/
theorem loaded_last (hserde : serde.Lawful)
    (hring : ring ZAI_KEYRING_SERVICE (storeKey digest home) = none) {events : List KeyringEvent}
    (hevents : ∀ event ∈ events, event.Apart) :
    let credentials := ZaiCredentials.new digest home
    let call : KeyringCall := ⟨keyringAfter serde digest ring events, none⟩
    credentials.load serde call = .ok (lastKey digest home events) ∧
      gatewayKey serde credentials none call =
        (lastKey digest home events).elim (.error .zaiNotAuthenticated) .ok ∧
      zaiAuth serde credentials call .status =
        (.ok (.status (lastKey digest home events).isSome), call.ring) ∧
      ∀ service ≠ ZAI_KEYRING_SERVICE, ∀ account,
        call.ring service account = events.foldl otherStep ring service account := by
  have hstart : Stored serde digest home ring none := ⟨hring, by simp⟩
  have hload := (hstart.run hevents).load hserde
  refine ⟨hload, ?_, ?_, fun service hservice account =>
    keyringAfter_other serde digest hservice (fun _ => rfl) events account⟩
  · unfold gatewayKey
    dsimp only
    rw [hload]
    rfl
  · unfold zaiAuth
    dsimp only
    rw [hload]
    rfl

end Record

/-- A home whose digest is itself. -/
def digestedHome : String := "0123456789abcdef"

/-- A key is set twice, the second time while the keyring is locked, and another program stores its
own secret in between. -/
def lockedHistory : List KeyringEvent :=
  [.auth digestedHome none (.setApiKey (toUtf8 "first\n")),
    .other "Codex Auth" "cli|0123456789abcdef" (some "token"),
    .auth digestedHome (some "locked") (.setApiKey (toUtf8 "second\n"))]

/-- The key that was set before the keyring was locked is loaded. -/
theorem loaded_last_locked :
    (ZaiCredentials.new id digestedHome).load Compact.serde
      ⟨keyringAfter Compact.serde id (fun _ _ => none) lockedHistory, none⟩ =
      .ok (some "first") := by
  have hevents : ∀ event ∈ lockedHistory, event.Apart := by
    intro event hevent
    simp only [lockedHistory, List.mem_cons, List.not_mem_nil, or_false] at hevent
    rcases hevent with rfl | rfl | rfl
    · trivial
    · exact show ("Codex Auth" : String) ≠ ZAI_KEYRING_SERVICE by decide
    · trivial
  have hlast : lastKey id digestedHome lockedHistory = some "first" := by
    decide +kernel
  exact hlast ▸ (loaded_last Compact.lawful (by rfl) hevents).1

end MuseCodex.Launcher
