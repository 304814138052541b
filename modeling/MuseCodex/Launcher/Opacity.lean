import MuseCodex.Launcher.Dispatch

/-!
# What stands after a double dash

A `--` at an option position ends the options, and what stands after it is for the stock program.
Each scanner of the launcher finds that `--` on its own, some of them after others have removed
their flags. None of them mistakes it for a value: whatever follows it, they decide the same, and
what they return ends with it (`doubleDash_opaque`).

A vector is taken apart as the tokens before the `--`, the `--`, and the rest. A function of vectors
that keeps this shape, with tokens that do not depend on the rest, is one that `Seals`; such
functions can be composed.
-/

namespace MuseCodex.Launcher

open Text

/-- An argument after these stands at an option position: they are cut into options and their
values, and none of them is a `--` that ends the options. -/
def AtOptionPosition (before : List OsString) : Prop := tailOf before = []

/-- An argument at an option position stands after clean tokens. -/
theorem AtOptionPosition.flat_tokens {before : List OsString} (h : AtOptionPosition before) :
    flat (tokens before) = before ∧ ∀ t ∈ tokens before, t.Clean := by
  have hcut := cut_spec before
  rw [show tailOf before = [] from h] at hcut
  refine ⟨?_, hcut.clean⟩
  have heq := hcut.eq
  rw [List.append_nil] at heq
  exact heq.symm

/-- What an invocation is, as far as the rest of the arguments may not change it. -/
def Invocation.isMuse : Invocation → Bool
  | .muse _ => true
  | _ => false

/-! ## The scanners before a double dash -/

section

variable {ts : List Token} (hclean : ∀ t ∈ ts, t.Clean) (post : List OsString)
include hclean

/-- The cut of a vector with a `--` at an option position. -/
theorem cut_sealed : tokens (flat ts ++ os "--" :: post) = ts ∧
    tailOf (flat ts ++ os "--" :: post) = os "--" :: post :=
  Cut.unique ⟨rfl, hclean, .inr (.inr rfl)⟩

/-- A search for an option ends at `--`. -/
theorem anyOption_sealed (p : OsString → Bool) :
    anyOption p (flat ts ++ os "--" :: post) = ts.any fun t => p t.arg := by
  induction ts with
  | nil =>
    rw [flat_nil, List.nil_append, anyOption.eq_def]
    exact if_pos rfl
  | cons t ts ih =>
    obtain ⟨ht, hclean⟩ := List.forall_mem_cons.mp hclean
    have hrest := ih hclean
    rcases t with arg | ⟨arg, value⟩
    · rw [flat_one, List.cons_append, anyOption.eq_def, List.any_cons]
      dsimp only [Token.arg]
      rw [if_neg ht.1, if_neg (c := optionTakesValue arg = true) (by rw [ht.2]; decide), hrest]
      cases p arg <;> rfl
    · rw [flat_two, List.cons_append, List.cons_append, anyOption.eq_def, List.any_cons]
      dsimp only [Token.arg]
      rw [if_neg (ne_dashes_of_takesValue ht), if_pos (c := optionTakesValue arg = true) ht, hrest]
      cases p arg <;> rfl

/-- The index of the command does not depend on what is behind `--`. -/
theorem stockSubcommandIndex_sealed : stockSubcommandIndex (flat ts ++ os "--" :: post) =
    stockSubcommandIndex (flat ts ++ [os "--"]) := by
  rw [stockSubcommandIndex, stockSubcommandIndex, stockSubcommandFrom_eq, stockSubcommandFrom_eq,
    (cut_sealed hclean post).1, (cut_sealed hclean []).1]

/-- A command is found before the `--`. -/
theorem lt_of_stockSubcommandIndex {index : ℕ}
    (h : stockSubcommandIndex (flat ts ++ os "--" :: post) = some index) :
    index < (flat ts).length := by
  obtain ⟨before, word, after, htokens, -, rfl, -⟩ := stockSubcommandIndex_eq_some h
  rw [(cut_sealed hclean post).1] at htokens
  rw [htokens, flat_append, flat_one, List.length_append, List.length_cons]
  omega

/-- Neither does the command. -/
theorem stockSubcommand_sealed : stockSubcommand (flat ts ++ os "--" :: post) =
    stockSubcommand (flat ts ++ [os "--"]) := by
  rw [stockSubcommand_eq, stockSubcommand_eq, (cut_sealed hclean post).1, (cut_sealed hclean []).1]

/-- The scan for the address ends at `--`. -/
theorem cliBaseUrl_sealed (cliValue : Option OsString) :
    cliBaseUrl cliValue (flat ts ++ os "--" :: post) =
      cliBaseUrl cliValue (flat ts ++ [os "--"]) := by
  induction ts generalizing cliValue with
  | nil => rw [flat_nil, List.nil_append, List.nil_append, cliBaseUrl_dashes, cliBaseUrl_dashes]
  | cons t ts ih =>
    obtain ⟨ht, hclean⟩ := List.forall_mem_cons.mp hclean
    have hrest := ih hclean
    rcases t with arg | ⟨arg, value⟩
    · rw [flat_one, List.cons_append, List.cons_append, cliBaseUrl_one cliValue ht.1 ht.2,
        cliBaseUrl_one cliValue ht.1 ht.2]
      simp only [hrest]
    · rw [flat_two, List.cons_append, List.cons_append, List.cons_append, List.cons_append,
        cliBaseUrl_two cliValue ht, cliBaseUrl_two cliValue ht]
      simp only [hrest]

/-- What the provider is taken from does not depend on what follows the `--`, and is cut off before
it. -/
theorem removeProvider_sealed (selected : Option PublicProvider) :
    ∃ r : Except String (Option PublicProvider × List Token),
      (∀ selected' us, r = .ok (selected', us) → ∀ t ∈ us, t.Clean) ∧
      ∀ post, removeProvider selected (flat ts ++ os "--" :: post) =
        r.map fun r => (r.1, flat r.2 ++ os "--" :: post) := by
  induction ts generalizing selected with
  | nil =>
    refine ⟨.ok (selected, []), ?_, fun post => removeProvider_dashes selected post⟩
    rintro selected' us ⟨⟩
    simp
  | cons t ts ih =>
    obtain ⟨ht, hclean⟩ := List.forall_mem_cons.mp hclean
    -- A token that is kept stands before what the rest keeps.
    have hkeep : ∃ r : Except String (Option PublicProvider × List Token),
        (∀ selected' us, r = .ok (selected', us) → ∀ t ∈ us, t.Clean) ∧
        ∀ post, ((removeProvider selected (flat ts ++ os "--" :: post)).map fun r =>
          (r.1, t.args ++ r.2)) = r.map fun r => (r.1, flat r.2 ++ os "--" :: post) := by
      obtain ⟨r, hr, heq⟩ := ih hclean selected
      rcases r with e | ⟨selected₁, us⟩
      · exact ⟨.error e, (fun _ _ h => by cases h), fun post => by rw [heq]; rfl⟩
      · refine ⟨.ok (selected₁, t :: us), ?_, fun post => ?_⟩
        · rintro selected' us' ⟨⟩
          exact List.forall_mem_cons.mpr ⟨ht, hr selected₁ us rfl⟩
        · rw [heq]
          simp [Except.map, flat]
    -- A token that selects a provider is gone, or refused.
    have hselect (value : OsString) : ∃ r : Except String (Option PublicProvider × List Token),
        (∀ selected' us, r = .ok (selected', us) → ∀ t ∈ us, t.Clean) ∧
        ∀ post, ((selectPublicProvider selected value).bind fun selected =>
          removeProvider selected (flat ts ++ os "--" :: post)) =
            r.map fun r => (r.1, flat r.2 ++ os "--" :: post) := by
      rcases selectPublicProvider selected value with e | selected₁
      · exact ⟨.error e, (fun _ _ h => by cases h), fun post => rfl⟩
      · exact ih hclean selected₁
    rcases t with arg | ⟨arg, value⟩
    · simp only [flat_one, List.cons_append, removeProvider_one selected ht.1 ht.2]
      rcases (fromUtf8 arg).bind (stripText "--provider=") with _ | value
      · exact hkeep
      · exact hselect (os value)
    · simp only [flat_two, List.cons_append, removeProvider_two selected ht]
      split_ifs
      · exact ⟨.error _, (fun _ _ h => by cases h), fun post => rfl⟩
      · exact hselect value
      · exact hkeep

end

/-! ## The vectors that are passed on -/

/-- A function of vectors that leaves a `--` at an option position where it is, and keeps what
follows it. -/
def Seals (f : List OsString → Except String (List OsString)) : Prop :=
  ∀ ts : List Token, (∀ t ∈ ts, t.Clean) → ∃ r : Except String (List Token),
    (∀ us, r = .ok us → ∀ t ∈ us, t.Clean) ∧
    ∀ post, f (flat ts ++ os "--" :: post) = r.map fun us => flat us ++ os "--" :: post

/-- A rewriting that keeps some of the tokens and what is from `--` on seals it. -/
theorem Seals.of_filter {f : List OsString → List OsString}
    (h : ∀ ts : List Token, (∀ t ∈ ts, t.Clean) → ∃ p : Token → Bool, ∀ post,
      f (flat ts ++ os "--" :: post) = flat (ts.filter p) ++ os "--" :: post) :
    Seals fun args => .ok (f args) := by
  intro ts hclean
  obtain ⟨p, hp⟩ := h ts hclean
  refine ⟨.ok (ts.filter p), ?_, fun post => congrArg Except.ok (hp post)⟩
  rintro us ⟨⟩
  exact fun t ht => hclean t (List.mem_of_mem_filter ht)

/-- Sealing functions are composed. -/
theorem Seals.comp {f g : List OsString → Except String (List OsString)} (hf : Seals f)
    (hg : Seals g) : Seals fun args => (f args).bind g := by
  intro ts hclean
  obtain ⟨r, hr, heq⟩ := hf ts hclean
  rcases r with e | us
  · refine ⟨.error e, nofun, fun post => ?_⟩
    dsimp only
    rw [heq]
    rfl
  · obtain ⟨r', hr', heq'⟩ := hg us (hr us rfl)
    refine ⟨r', hr', fun post => ?_⟩
    dsimp only
    rw [heq]
    exact heq' post

/-- What a sealing function returns for a vector ends with what follows the `--`. -/
theorem Seals.append {f : List OsString → Except String (List OsString)} (hf : Seals f)
    {ts : List Token} (hclean : ∀ t ∈ ts, t.Clean) (post : List OsString) :
    f (flat ts ++ os "--" :: post) = (f (flat ts ++ [os "--"])).map (· ++ post) := by
  obtain ⟨r, -, heq⟩ := hf ts hclean
  rw [heq post, heq []]
  rcases r with e | us
  · rfl
  · simp [Except.map]

/-- The removal of the provider seals what is behind `--`. -/
theorem seals_stripPublicProviderArgs : Seals stripPublicProviderArgs := by
  intro ts hclean
  obtain ⟨r, hr, heq⟩ := removeProvider_sealed hclean none
  refine ⟨r.map Prod.snd, ?_, fun post => ?_⟩
  · intro us hus
    rcases r with e | ⟨selected, us'⟩
    · cases hus
    · obtain rfl : us' = us := Except.ok.inj hus
      exact hr selected us' rfl
  · rw [stripPublicProviderArgs, validateAndRemoveProvider, heq]
    rcases r with e | r
    · rfl
    · rfl

/-- Removing a selector. -/
theorem takeSelector_sealed {name : String} (hname : Plain name) {ts : List Token}
    (hclean : ∀ t ∈ ts, t.Clean) (post : List OsString) :
    takeSelector name (flat ts ++ os "--" :: post) = (ts.any (·.isFlag name),
      flat (ts.filter fun t => !t.isFlag name) ++ os "--" :: post) := by
  rw [takeSelector_eq hname, (cut_sealed hclean post).1, (cut_sealed hclean post).2]

/-- `--fast` is a plain flag. -/
theorem plain_fast : Plain "--fast" := by
  unfold Plain
  decide

/-- `--api-key-stdin` is a plain flag. -/
theorem plain_apiKeyStdin : Plain "--api-key-stdin" := by
  unfold Plain
  decide

/-- The removal of `--fast` seals what is behind `--`. -/
theorem seals_takeFastMode : Seals fun args => .ok (takeFastMode args).2 :=
  .of_filter fun ts hclean => ⟨fun t => !t.isFlag "--fast", fun post => by
    rw [takeFastMode, takeSelector_sealed plain_fast hclean]⟩

/-- The removal of `--api-key-stdin` filters the tokens, where there is a command to run. -/
theorem takeExecApiKeyStdin_sealed {ts : List Token} (hclean : ∀ t ∈ ts, t.Clean)
    (post : List OsString) : takeExecApiKeyStdin (flat ts ++ os "--" :: post) =
      if (command ts).any (· = os "exec") then (ts.any (·.isFlag "--api-key-stdin"),
        flat (ts.filter fun t => !t.isFlag "--api-key-stdin") ++ os "--" :: post)
      else (false, flat ts ++ os "--" :: post) := by
  rw [takeExecApiKeyStdin, stockSubcommand_eq, (cut_sealed hclean post).1,
    takeSelector_sealed plain_apiKeyStdin hclean]

/-- So it seals what is behind `--`. -/
theorem seals_takeExecApiKeyStdin : Seals fun args => .ok (takeExecApiKeyStdin args).2 := by
  refine .of_filter fun ts hclean => ?_
  by_cases hexec : (command ts).any (· = os "exec") = true
  · refine ⟨fun t => !t.isFlag "--api-key-stdin", fun post => ?_⟩
    rw [takeExecApiKeyStdin_sealed hclean, if_pos hexec]
  · refine ⟨fun _ => true, fun post => ?_⟩
    rw [takeExecApiKeyStdin_sealed hclean, if_neg hexec, List.filter_true]

/-- Whether a token is removed by what chooses the route anew. -/
def Token.isRerouted : Token → Bool
  | .one arg => startsWithOs arg "--provider=" || startsWithOs arg "--base-url="
  | .two arg value => (arg = os "--provider" || arg = os "--base-url") && !isOptionLike value

/-- The removal of what chooses a provider filters the tokens. -/
theorem removeRouting_sealed {ts : List Token} (hclean : ∀ t ∈ ts, t.Clean)
    (post : List OsString) : removeRouting (flat ts ++ os "--" :: post) =
      flat (ts.filter fun t => !t.isRerouted) ++ os "--" :: post := by
  induction ts with
  | nil => exact removeRouting_dashes post
  | cons t ts ih =>
    obtain ⟨ht, hclean⟩ := List.forall_mem_cons.mp hclean
    have hrest := ih hclean
    have hstep : removeRouting (flat (t :: ts) ++ os "--" :: post) =
        if t.isRerouted then removeRouting (flat ts ++ os "--" :: post)
        else t.args ++ removeRouting (flat ts ++ os "--" :: post) := by
      rcases t with arg | ⟨arg, value⟩
      · exact removeRouting_one ht.1 ht.2
      · exact removeRouting_two ht
    rw [hstep, hrest]
    split_ifs with hrerouted
    · rw [List.filter_cons_of_neg (by simp [hrerouted])]
    · rw [List.filter_cons_of_pos (by simpa using hrerouted), ← List.append_assoc]
      rfl

/-- The flags of the route are clean tokens. -/
theorem clean_routingFlags (baseUrl : String) : ∃ us : List Token,
    routingFlags baseUrl = flat us ∧ ∀ t ∈ us, t.Clean := by
  refine ⟨[.two (os "--provider") (os "meta"), .two (os "--base-url") (os baseUrl)], rfl, ?_⟩
  have hvalue : optionTakesValue (os "--provider") = true ∧
      optionTakesValue (os "--base-url") = true := by
    decide
  rw [List.forall_mem_cons, List.forall_mem_singleton]
  exact hvalue

/-- The arguments of stock Muse are sealed from `--` on. -/
theorem seals_rewriteMuseArgs (baseUrl : String) :
    Seals fun args => .ok (rewriteMuseArgs args baseUrl) := by
  intro ts hclean
  obtain ⟨flags, hflags, hflagsClean⟩ := clean_routingFlags baseUrl
  let us := ts.filter fun t => !t.isRerouted
  have husClean : ∀ t ∈ us, t.Clean := fun t ht => hclean t (List.mem_of_mem_filter ht)
  have hrewritten (post : List OsString) := removeRouting_sealed hclean post
  rcases hindex : stockSubcommandIndex (flat us ++ [os "--"]) with _ | index
  · refine ⟨.ok (flags ++ us), ?_, fun post => ?_⟩
    · rintro us' ⟨⟩
      exact List.forall_mem_append.mpr ⟨hflagsClean, husClean⟩
    · -- What follows the double dash does not make a command.
      have hnone := (stockSubcommandIndex_sealed husClean post).trans hindex
      dsimp only [rewriteMuseArgs]
      rw [hrewritten post, hnone, hflags]
      simp [Except.map, us]
  · obtain ⟨before, word, after, hsplit, -, hbefore, -⟩ := stockSubcommandIndex_eq_some hindex
    rw [(cut_sealed husClean []).1] at hsplit
    have hparts := husClean
    rw [hsplit, List.forall_mem_append, List.forall_mem_cons] at hparts
    obtain ⟨hbeforeClean, hwordClean, hafterClean⟩ := hparts
    let routed := if word = os "exec" ∨ word = os "resume" then flags else []
    refine ⟨.ok (.one word :: (routed ++ (before ++ after))), ?_, fun post => ?_⟩
    · rintro us' ⟨⟩
      have hroutedClean : ∀ t ∈ routed, t.Clean := by
        dsimp only [routed]
        split_ifs
        · exact hflagsClean
        · simp
      rw [List.forall_mem_cons, List.forall_mem_append, List.forall_mem_append]
      exact ⟨hwordClean, hroutedClean, hbeforeClean, hafterClean⟩
    · have hsome := (stockSubcommandIndex_sealed husClean post).trans hindex
      -- The command stands before the double dash, so taking it out leaves what follows.
      have hvector : flat us ++ os "--" :: post =
          flat before ++ word :: (flat after ++ os "--" :: post) := by
        rw [hsplit, flat_append, flat_one, List.append_assoc, List.cons_append]
      have hword : (flat us ++ os "--" :: post)[index]? = some word := by
        rw [hvector, hbefore, List.getElem?_append_right (Nat.le_refl _), Nat.sub_self]
        rfl
      have herase : (flat us ++ os "--" :: post).eraseIdx index =
          flat before ++ (flat after ++ os "--" :: post) := by
        rw [hvector, hbefore, List.eraseIdx_append_of_length_le (Nat.le_refl _), Nat.sub_self]
        rfl
      dsimp only [rewriteMuseArgs]
      rw [hrewritten post, hsome]
      dsimp only
      rw [hword, herase, hflags]
      simp only [Bool.or_eq_true, decide_eq_true_eq, routed]
      split_ifs <;> simp [Except.map]

/-! ## The launcher -/

/-- What the launcher makes of a vector: the four functions that pass it on, in any order. -/
inductive Rewrites : (List OsString → Except String (List OsString)) → Prop where
  | strip : Rewrites stripPublicProviderArgs
  | exec : Rewrites fun args => .ok (takeExecApiKeyStdin args).2
  | fast : Rewrites fun args => .ok (takeFastMode args).2
  | muse (baseUrl : String) : Rewrites fun args => .ok (rewriteMuseArgs args baseUrl)
  | comp {f g : List OsString → Except String (List OsString)} (hf : Rewrites f)
      (hg : Rewrites g) : Rewrites fun args => (f args).bind g

/-- Every composition of the rewritings seals what is behind `--`. -/
theorem Rewrites.seals {f : List OsString → Except String (List OsString)} (h : Rewrites f) :
    Seals f := by
  induction h with
  | strip => exact seals_stripPublicProviderArgs
  | exec => exact seals_takeExecApiKeyStdin
  | fast => exact seals_takeFastMode
  | muse baseUrl => exact seals_rewriteMuseArgs baseUrl
  | comp _ _ ihf ihg => exact ihf.comp ihg

section

variable {ts : List Token} (hclean : ∀ t ∈ ts, t.Clean) (post : List OsString)
include hclean

/-- The choice of a provider ends at `--`. -/
theorem selectedProvider_sealed : selectedProvider (flat ts ++ os "--" :: post) =
    selectedProvider (flat ts ++ [os "--"]) := by
  obtain ⟨r, -, heq⟩ := removeProvider_sealed hclean none
  rw [selectedProvider, selectedProvider, validateAndRemoveProvider, validateAndRemoveProvider,
    heq post, heq []]
  rcases r with e | r
  · rfl
  · rfl

/-- Whether the stock program is started is decided before the `--`. -/
theorem classifyInvocation_sealed :
    (classifyInvocation (flat ts ++ os "--" :: post)).map Invocation.isMuse =
      (classifyInvocation (flat ts ++ [os "--"])).map Invocation.isMuse := by
  obtain ⟨r, hr, heq⟩ := removeProvider_sealed hclean none
  rw [classifyInvocation, classifyInvocation, validateAndRemoveProvider, validateAndRemoveProvider,
    heq post, heq []]
  rcases r with e | ⟨selected, us⟩
  · rfl
  · have husClean := hr selected us rfl
    have hselfTest (post : List OsString) : flat us ++ os "--" :: post ≠ [os "self-test"] := by
      intro h
      have hmem : os "--" ∈ [os "self-test"] := by
        rw [← h]
        simp
      exact absurd (List.mem_singleton.mp hmem) (by decide)
    have hindex := stockSubcommandIndex_sealed husClean post
    dsimp only [Except.map]
    rw [if_neg (hselfTest post), if_neg (hselfTest []), hindex]
    rcases hbare : stockSubcommandIndex (flat us ++ [os "--"]) with _ | index
    · rfl
    · have hlt := lt_of_stockSubcommandIndex husClean [] hbare
      dsimp only
      rw [List.getElem?_append_left hlt, List.getElem?_append_left hlt]
      split_ifs <;> rfl

/-- The address of the provider does not depend on what is behind `--`. -/
theorem resolveUpstreamBaseUrl_sealed (environmentValue : Option OsString)
    (environmentVariable : String) :
    resolveUpstreamBaseUrl (flat ts ++ os "--" :: post) environmentValue environmentVariable =
      resolveUpstreamBaseUrl (flat ts ++ [os "--"]) environmentValue environmentVariable := by
  rw [resolveUpstreamBaseUrl, resolveUpstreamBaseUrl, cliBaseUrl_sealed hclean post]

end

/-- What follows a `--` at an option position is opaque to the launcher: it decides nothing, and is
passed on as it is. -/
theorem doubleDash_opaque {before : List OsString} (hbefore : AtOptionPosition before)
    (post : List OsString) (environmentValue : Option OsString)
    (environmentVariable name : String) :
    selectedProvider (before ++ os "--" :: post) = selectedProvider (before ++ [os "--"]) ∧
    resolveUpstreamBaseUrl (before ++ os "--" :: post) environmentValue environmentVariable =
      resolveUpstreamBaseUrl (before ++ [os "--"]) environmentValue environmentVariable ∧
    (classifyInvocation (before ++ os "--" :: post)).map Invocation.isMuse =
      (classifyInvocation (before ++ [os "--"])).map Invocation.isMuse ∧
    isInformationalInvocation (before ++ os "--" :: post) =
      isInformationalInvocation (before ++ [os "--"]) ∧
    isLocalInvocation (before ++ os "--" :: post) = isLocalInvocation (before ++ [os "--"]) ∧
    stockSubcommandIndex (before ++ os "--" :: post) =
      stockSubcommandIndex (before ++ [os "--"]) ∧
    hasOption (before ++ os "--" :: post) name = hasOption (before ++ [os "--"]) name ∧
    (takeFastMode (before ++ os "--" :: post)).1 = (takeFastMode (before ++ [os "--"])).1 ∧
    (takeExecApiKeyStdin (before ++ os "--" :: post)).1 =
      (takeExecApiKeyStdin (before ++ [os "--"])).1 ∧
    ∀ f, Rewrites f →
      f (before ++ os "--" :: post) = (f (before ++ [os "--"])).map (· ++ post) := by
  obtain ⟨hflat, hclean⟩ := hbefore.flat_tokens
  rw [← hflat]
  refine ⟨selectedProvider_sealed hclean post,
    resolveUpstreamBaseUrl_sealed hclean post environmentValue environmentVariable,
    classifyInvocation_sealed hclean post, ?_, ?_, stockSubcommandIndex_sealed hclean post, ?_, ?_,
    ?_, fun f hf => hf.seals.append hclean post⟩
  · rw [isInformationalInvocation, isInformationalInvocation, anyOption_sealed hclean,
      anyOption_sealed hclean]
  · rw [isLocalInvocation, isLocalInvocation, stockSubcommand_sealed hclean post]
  · rw [hasOption, hasOption, anyOption_sealed hclean, anyOption_sealed hclean]
  · rw [takeFastMode, takeFastMode, takeSelector_sealed plain_fast hclean,
      takeSelector_sealed plain_fast hclean]
  · rw [takeExecApiKeyStdin_sealed hclean, takeExecApiKeyStdin_sealed hclean]
    split_ifs <;> rfl

/-- A prompt that reads like options, after options of the launcher. -/
theorem doubleDash_opaque_prompt :
    ((stripPublicProviderArgs (osArgs ["--provider", "zai", "exec", "--", "--provider", "codex"])).bind
        fun args => .ok (rewriteMuseArgs (takeFastMode args).2 "http://127.0.0.1:1")) =
      .ok (osArgs ["exec", "--provider", "meta", "--base-url", "http://127.0.0.1:1", "--",
        "--provider", "codex"]) := by
  have hbefore : AtOptionPosition (osArgs ["--provider", "zai", "exec"]) := by
    unfold AtOptionPosition
    decide
  have hrewrites : Rewrites fun args => (stripPublicProviderArgs args).bind fun args =>
      (Except.ok (takeFastMode args).2).bind fun args =>
        .ok (rewriteMuseArgs args "http://127.0.0.1:1") := .comp .strip (.comp .fast (.muse _))
  obtain ⟨-, -, -, -, -, -, -, -, -, hvector⟩ := doubleDash_opaque hbefore
    (osArgs ["--provider", "codex"]) none "ZAI_BASE_URL" "--no-session-log"
  exact (hvector _ hrewrites).trans (by decide)

end MuseCodex.Launcher
