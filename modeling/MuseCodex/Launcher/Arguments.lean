import MuseCodex.Text

/-!
# The arguments of the launcher

The scanners of `crates/muse-codex/src/lib.rs` that decide what an invocation is and what the stock
program is given. An argument is a string of the operating system, which is a sequence of bytes
that need not be UTF-8; the loops over an index are recursions over the rest of the arguments.

An authentication command is handed to a parser of another package, which answers it or refuses
it; here it is an invocation of its own. Starting the gateway and the stock program leaves the
arguments alone and is left out of `stockArguments`.
-/

namespace MuseCodex

open Text

/-- The providers that a launch can expose. -/
inductive PublicProvider where
  | codex
  | zai
deriving DecidableEq, Repr

/-- The public label of a provider. -/
def PublicProvider.asStr : PublicProvider → String
  | .codex => "codex"
  | .zai => "zai"

namespace Launcher

/-- A string of the operating system. -/
abbrev OsString := Bytes

/-- The argument that a text is. -/
def os (text : String) : OsString := toUtf8 text

/-- Arguments that are texts. -/
def osArgs (values : List String) : List OsString := values.map os

/-! ## Single arguments -/

/-- Whether an argument is text that starts with a dash. -/
def isOptionLike (value : OsString) : Bool := (fromUtf8 value).any (startsWith '-')

/-- Whether an argument is text that starts with another. -/
def startsWithOs (value : OsString) (start : String) : Bool :=
  (fromUtf8 value).any fun text => (stripText start text).isSome

/-- The options of the stock program that take a value. -/
def valueOptions : List String :=
  ["--provider", "--base-url", "--agents", "--preset", "--model", "--reasoning-effort", "--image",
    "--workspace", "--worktree-base", "--worktree-existing", "--approval-mode",
    "--permission-profile", "--approval-judge", "--echo-delay-ms", "--sandbox-network",
    "--prompt-file", "--context-compaction-strategy", "--context-compaction-soft-threshold",
    "--context-compaction-hard-threshold", "--max-model-steps", "--max-tool-output-bytes",
    "--session-id", "--out", "--format"]

/-- Whether the argument after an option is its value. -/
def optionTakesValue (argument : OsString) : Bool := (fromUtf8 argument).any (· ∈ valueOptions)

/-- The options that may be followed by a mode. -/
def isWorktree (argument : OsString) : Bool := argument = os "-w" || argument = os "--worktree"

/-- The modes of a worktree. -/
def isWorktreeMode (value : OsString) : Bool :=
  value = os "off" || value = os "create" || value = os "existing"

/-- The commands that only look at local state or change it. -/
def localCommands : List String :=
  ["config", "export", "trace", "skills", "sandbox", "schema", "session-message", "init"]

/-- The commands that authenticate. -/
def authCommands : List String := ["auth", "login", "logout"]

/-- The commands of the stock program. -/
def stockCommands : List String := localCommands ++ ["exec", "serve", "resume"] ++ authCommands

/-- Whether an argument is one of some words. -/
def isOneOf (words : List String) (argument : OsString) : Bool := (fromUtf8 argument).any (· ∈ words)

/-! ## Scanners -/

/-- The position of the command, which the first argument that is no option and no value has to
be. -/
def stockSubcommandFrom : ℕ → List OsString → Option ℕ
  | _, [] => none
  | index, argument :: rest =>
    if argument = os "--" then none
    else if optionTakesValue argument then
      match rest with
      | [] => none
      | _ :: after => stockSubcommandFrom (index + 2) after
    else if isWorktree argument then
      if rest.head?.any isWorktreeMode then
        match rest with
        | [] => none
        | _ :: after => stockSubcommandFrom (index + 2) after
      else stockSubcommandFrom (index + 1) rest
    else if isOptionLike argument then stockSubcommandFrom (index + 1) rest
    else if isOneOf stockCommands argument then some index
    else none

/-- The place of the command of stock Muse. -/
def stockSubcommandIndex (args : List OsString) : Option ℕ := stockSubcommandFrom 0 args

/-- The command that a scan finds. -/
def stockSubcommand (args : List OsString) : Option OsString :=
  (stockSubcommandIndex args).bind (args[·]?)

/-- Whether an option satisfies a condition. -/
def anyOption (p : OsString → Bool) : List OsString → Bool
  | [] => false
  | argument :: rest =>
    if argument = os "--" then false
    else if p argument then true
    else if optionTakesValue argument then
      match rest with
      | [] => false
      | _ :: after => anyOption p after
    else anyOption p rest

/-- Whether an argument before `--` asks for help or for the version. -/
def isInformationalInvocation (args : List OsString) : Bool :=
  anyOption (fun argument => argument = os "-h" || argument = os "--help" || argument = os "-V" ||
    argument = os "--version") args

/-- Whether the command runs without a gateway. -/
def isLocalInvocation (args : List OsString) : Bool :=
  (stockSubcommand args).any (isOneOf localCommands)

/-- Whether an option is set before `--`. -/
def hasOption (args : List OsString) (name : String) : Bool := anyOption (· = os name) args

/-- Removes a selector, and tells whether it was there. -/
def takeSelector (name : String) : List OsString → Bool × List OsString
  | [] => (false, [])
  | argument :: rest =>
    if argument = os "--" then (false, argument :: rest)
    else if argument = os name then (true, (takeSelector name rest).2)
    else if optionTakesValue argument then
      match rest with
      | [] => (false, [argument])
      | value :: after =>
        ((takeSelector name after).1, argument :: value :: (takeSelector name after).2)
    else ((takeSelector name rest).1, argument :: (takeSelector name rest).2)

/-- Takes the flag for a key on the standard input from a command to run. -/
def takeExecApiKeyStdin (args : List OsString) : Bool × List OsString :=
  if (stockSubcommand args).any (· = os "exec") then takeSelector "--api-key-stdin" args
  else (false, args)

/-- Takes the flag for the fast mode. -/
def takeFastMode (args : List OsString) : Bool × List OsString := takeSelector "--fast" args

/-! ## The provider -/

/-- The provider of a name. -/
def parsePublicProvider (value : OsString) : Except String PublicProvider :=
  if value = os "codex" then .ok .codex
  else if value = os "zai" then .ok .zai
  else .error ("unsupported provider '" ++ fromUtf8Lossy value ++
    "'; muse-codex accepts '--provider codex' or '--provider zai'")

/-- Selects a provider. The same may be selected again, another may not. -/
def mergeProviderSelection (slot : Option PublicProvider) (provider : PublicProvider) :
    Except String (Option PublicProvider) :=
  match slot with
  | some existing =>
    if existing ≠ provider then
      .error ("conflicting providers: --provider " ++ existing.asStr ++ " and --provider " ++
        provider.asStr)
    else .ok (some provider)
  | none => .ok (some provider)

/-- Selects the provider that an argument names. -/
def selectPublicProvider (selected : Option PublicProvider) (value : OsString) :
    Except String (Option PublicProvider) :=
  (parsePublicProvider value).bind (mergeProviderSelection selected)

/-- Reads the provider that the rest of the arguments select, and removes its flags. -/
def removeProvider : Option PublicProvider → List OsString →
    Except String (Option PublicProvider × List OsString)
  | selected, [] => .ok (selected, [])
  | selected, arg :: rest =>
    if arg = os "--" then .ok (selected, arg :: rest)
    else if arg = os "--provider" then
      match rest with
      | [] => .error "--provider requires the value 'codex' or 'zai'"
      | value :: after =>
        if isOptionLike value then .error "--provider requires the value 'codex' or 'zai'"
        else (selectPublicProvider selected value).bind fun selected => removeProvider selected after
    else match (fromUtf8 arg).bind (stripText "--provider=") with
      | some value =>
        (selectPublicProvider selected (os value)).bind fun selected => removeProvider selected rest
      | none =>
        if optionTakesValue arg then
          match rest with
          | [] => .ok (selected, [arg])
          | value :: after => (removeProvider selected after).map fun r => (r.1, arg :: value :: r.2)
        else (removeProvider selected rest).map fun r => (r.1, arg :: r.2)

/-- The provider that the arguments choose, and the arguments without it. -/
def validateAndRemoveProvider (args : List OsString) :
    Except String (Option PublicProvider × List OsString) :=
  removeProvider none args

/-- The provider that the arguments select. -/
def selectedProvider (args : List OsString) : Except String PublicProvider :=
  (validateAndRemoveProvider args).map fun r => r.1.getD .codex

/-- The arguments without the flags of the provider. -/
def stripPublicProviderArgs (args : List OsString) : Except String (List OsString) :=
  (validateAndRemoveProvider args).map Prod.snd

/-! ## The invocation -/

/-- What an invocation is. -/
inductive Invocation where
  | auth (args : List OsString) (provider : PublicProvider)
  | selfTest
  | muse (args : List OsString)
  | output (text : String) (code : ℕ)
deriving DecidableEq

/-- What the arguments ask the launcher to do. -/
def classifyInvocation (args : List OsString) : Except String Invocation :=
  (validateAndRemoveProvider args).map fun r =>
    if r.2 = [os "self-test"] then .selfTest
    else match stockSubcommandIndex r.2 with
      | some index =>
        if (r.2[index]?).any (isOneOf authCommands) then
          if index ≠ 0 then
            .output ("muse-codex: authentication commands accept --provider codex or " ++
              "--provider zai but no other startup options\n") 2
          else .auth r.2 (r.1.getD .codex)
        else .muse args
      | none => .muse args

/-- Refuses a server that keeps no log of its sessions. -/
def validateMspOptions (arguments : List OsString) : Except String Unit :=
  if (stockSubcommand arguments).any (· = os "serve") && hasOption arguments "--no-session-log" then
    .error ("Muse 1.0.3 cannot deliver MSP turn events with --no-session-log. Run `muse-codex " ++
      "serve` without that flag; sessions stay in the isolated Muse Codex profile.")
  else .ok ()

/-- Refuses the fast mode where the provider has none. -/
def rejectUnsupportedProviderOptions (provider : PublicProvider) (fastMode : Bool) :
    Except String Unit :=
  if fastMode && provider = .zai then
    .error ("--fast requests OpenAI Fast mode, which the Z.ai GLM Coding Plan has no equivalent " ++
      "for; re-run without --fast")
  else .ok ()

/-! ## The upstream -/

/-- Selects an upstream. The same may be selected again, another may not. -/
def mergeCliBaseUrl (slot : Option OsString) (value : OsString) :
    Except String (Option OsString) :=
  match slot with
  | some existing =>
    if existing ≠ value then .error "conflicting --base-url values were provided"
    else .ok (some existing)
  | none => .ok (some value)

/-- Reads the upstream that the rest of the arguments select. -/
def cliBaseUrl : Option OsString → List OsString → Except String (Option OsString)
  | cliValue, [] => .ok cliValue
  | cliValue, arg :: rest =>
    if arg = os "--" then .ok cliValue
    else if arg = os "--base-url" then
      match rest with
      | [] => .error "--base-url requires a value"
      | value :: after =>
        if value = [] || isOptionLike value then .error "--base-url requires a non-empty value"
        else (mergeCliBaseUrl cliValue value).bind fun cliValue => cliBaseUrl cliValue after
    else match (fromUtf8 arg).bind (stripText "--base-url=") with
      | some value =>
        if value = "" then .error "--base-url requires a non-empty value"
        else (mergeCliBaseUrl cliValue (os value)).bind fun cliValue => cliBaseUrl cliValue rest
      | none =>
        if optionTakesValue arg then
          match rest with
          | [] => .ok cliValue
          | _ :: after => cliBaseUrl cliValue after
        else cliBaseUrl cliValue rest

/-- The address of the provider, from the arguments or from the environment. -/
def resolveUpstreamBaseUrl (args : List OsString) (environmentValue : Option OsString)
    (environmentVariable : String) : Except String (Option OsString) :=
  (cliBaseUrl none args).bind fun cliValue =>
    match cliValue, environmentValue.filter (· ≠ []) with
    | some cli, some environment =>
      if cli ≠ environment then
        .error ("conflicting upstream base URLs: --base-url and " ++ environmentVariable ++
          " differ")
      else .ok (some cli)
    | some cli, none => .ok (some cli)
    | none, environment => .ok environment

/-! ## The arguments of the stock program -/

/-- Removes the flags that choose the route. -/
def removeRouting : List OsString → List OsString
  | [] => []
  | arg :: rest =>
    if arg = os "--" then arg :: rest
    else if (arg = os "--provider" || arg = os "--base-url") &&
        rest.head?.any fun value => !isOptionLike value then
      match rest with
      | [] => []
      | _ :: after => removeRouting after
    else if startsWithOs arg "--provider=" || startsWithOs arg "--base-url=" then removeRouting rest
    else if optionTakesValue arg then
      match rest with
      | [] => [arg]
      | value :: after => arg :: value :: removeRouting after
    else arg :: removeRouting rest

/-- The flags that send the stock program to the gateway. -/
def routingFlags (baseUrl : String) : List OsString :=
  osArgs ["--provider", "meta", "--base-url", baseUrl]

/-- The arguments of stock Muse, with its provider and the address of the gateway. -/
def rewriteMuseArgs (args : List OsString) (baseUrl : String) : List OsString :=
  let rewritten := removeRouting args
  match stockSubcommandIndex rewritten with
  | some index =>
    match rewritten[index]? with
    | some subcommand =>
      if subcommand = os "exec" || subcommand = os "resume" then
        subcommand :: routingFlags baseUrl ++ rewritten.eraseIdx index
      else subcommand :: rewritten.eraseIdx index
    | none => rewritten
  | none => routingFlags baseUrl ++ rewritten

/-- The variable of the environment that selects an upstream. -/
def baseUrlVariable : PublicProvider → String
  | .codex => "OPENAI_BASE_URL"
  | .zai => "ZAI_BASE_URL"

/-- The arguments that `run_stock_muse` gives to the stock program, for a gateway at `baseUrl`. -/
def stockArguments (arguments : List OsString) (environment : String → Option OsString)
    (baseUrl : String) : Except String (List OsString) :=
  (validateMspOptions arguments).bind fun _ =>
    (selectedProvider arguments).bind fun provider =>
      let remaining := (takeExecApiKeyStdin arguments).2
      let fast := takeFastMode remaining
      (rejectUnsupportedProviderOptions provider fast.1).bind fun _ =>
        (resolveUpstreamBaseUrl fast.2 (environment (baseUrlVariable provider))
          (baseUrlVariable provider)).map fun _ =>
            rewriteMuseArgs fast.2 baseUrl

end Launcher

end MuseCodex
