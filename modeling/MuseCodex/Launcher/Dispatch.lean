import MuseCodex.Launcher.Words

/-!
# The command that the stock program is given

The launcher classifies an invocation by the command in its arguments, removes its own selectors
and the routing flags from them, and puts the command that it then finds in front. The two commands
are the same unless removing selectors changes the first word of the vector; `Words.lean` says when
that is.
-/

namespace MuseCodex.Launcher

open Text

/-! ## Removing tokens -/

section

variable {args : List OsString} (p : Token → Bool)

/-- What is left of a vector when tokens are removed. -/
theorem cut_filter (args : List OsString) :
    tokens (flat ((tokens args).filter p) ++ tailOf args) = (tokens args).filter p ∧
      tailOf (flat ((tokens args).filter p) ++ tailOf args) = tailOf args :=
  Cut.unique ⟨rfl, fun t ht => (cut_spec args).clean t (List.mem_of_mem_filter ht),
    (cut_spec args).closed⟩

/-- Accepted selections stay accepted. -/
theorem Accepted.filter {name : String} (h : Accepted name args) :
    Accepted name (flat ((tokens args).filter p) ++ tailOf args) := by
  obtain ⟨htokens, htail⟩ := cut_filter p args
  constructor
  · intro value hvalue
    rw [htokens] at hvalue
    exact h.valued value (List.mem_of_mem_filter hvalue)
  · rw [htail]
    exact h.complete

end

/-- Assignments that choose the route are options. -/
theorem routing_facts {arg : OsString} {start : String} (hstart : start ∈ routingAssignments)
    (h : startsWithOs arg start = true) : isOptionLike arg = true ∧ isWorktree arg = false := by
  constructor
  · unfold startsWithOs at h
    unfold isOptionLike
    cases htext : fromUtf8 arg with
    | none =>
      rw [htext] at h
      cases h
    | some text =>
      rw [htext, Option.any_some] at h
      unfold stripText at h
      split_ifs at h with hstarts
      · obtain ⟨rest, hrest⟩ := List.isPrefixOf_iff_prefix.mp hstarts
        have hheads : ∀ start ∈ routingAssignments, start.toList.head? = some '-' := by
          decide
        have hhead := hheads start hstart
        rw [Option.any_some, startsWith, ← hrest, List.head?_append, hhead]
        rfl
      · cases h
  · by_contra hworktree
    rw [Bool.not_eq_false, isWorktree, Bool.or_eq_true, decide_eq_true_eq, decide_eq_true_eq]
      at hworktree
    revert start
    rcases hworktree with rfl | rfl <;> decide

/-- A token that sets an option of the provider is inert. -/
theorem sets_inert {name assignment : String} (hassignment : assignment ∈ routingAssignments)
    {t : Token} (ht : t.sets name assignment = true) : t.Inert := by
  cases t with
  | one arg => exact routing_facts hassignment ht
  | two arg value => trivial

/-- A token that is a flag is inert. -/
theorem isFlag_inert {name : String} (hoption : isOptionLike (os name) = true)
    (hworktree : isWorktree (os name) = false) {t : Token} (ht : t.isFlag name = true) :
    t.Inert := by
  rw [Token.isFlag, decide_eq_true_eq] at ht
  rw [ht]
  exact ⟨hoption, hworktree⟩

/-! ## The arguments of the stock program -/

/-- Whether the launcher takes the key for a run of `exec`. -/
def takesKey (args : List OsString) : Bool := (stockSubcommand args).any (· = os "exec")

/-- The selectors of the launcher itself, apart from the provider. -/
def Token.isSelector (key : Bool) (t : Token) : Bool :=
  t.isFlag "--fast" || (key && t.isFlag "--api-key-stdin")

/-- The tokens that the launcher removes. -/
def Token.isRemoved (key : Bool) (t : Token) : Bool := t.routes || t.isSelector key

/-- The tokens that the launcher keeps. -/
def kept (args : List OsString) : List Token :=
  (tokens args).filter fun t => !t.isRemoved (takesKey args)

/-- The arguments that the launcher gives to the stock program. -/
def launched (args : List OsString) (baseUrl : String) : List OsString :=
  rewriteMuseArgs (takeFastMode (takeExecApiKeyStdin args).2).2 baseUrl

/-- Taking the selectors filters the tokens. -/
theorem takeSelectors_eq (args : List OsString) : (takeFastMode (takeExecApiKeyStdin args).2).2 =
    flat ((tokens args).filter fun t => !t.isSelector (takesKey args)) ++ tailOf args := by
  have hfast : Plain "--fast" := by unfold Plain; decide
  have hkey : Plain "--api-key-stdin" := by unfold Plain; decide
  unfold takeFastMode takeExecApiKeyStdin
  rw [takeSelector_eq hfast]
  cases hexec : (stockSubcommand args).any (· = os "exec") with
  | true =>
    rw [if_pos rfl, takeSelector_eq hkey]
    dsimp only
    obtain ⟨htokens, htail⟩ := cut_filter (fun t => !t.isFlag "--api-key-stdin") args
    rw [htokens, htail, List.filter_filter]
    simp [Token.isSelector, takesKey, hexec]
  | false =>
    rw [if_neg (by decide)]
    simp [Token.isSelector, takesKey, hexec]

section

variable {args : List OsString} (hprovider : Accepted "--provider" args)
  (hbase : Accepted "--base-url" (takeFastMode (takeExecApiKeyStdin args).2).2)

include hprovider hbase

/-- What is left of the arguments when the routing flags are gone, too. -/
theorem removeRouting_kept : removeRouting (takeFastMode (takeExecApiKeyStdin args).2).2 =
    flat (kept args) ++ tailOf args := by
  obtain ⟨htokens, htail⟩ := cut_filter (fun t => !t.isSelector (takesKey args)) args
  rw [takeSelectors_eq] at hbase ⊢
  rw [removeRouting_eq (hprovider.filter _) hbase, htokens, htail, List.filter_filter]
  simp [kept, Token.isRemoved]

/-- The command in front, and what follows it. -/
theorem launched_eq (baseUrl : String) :
    (∃ before word after, kept args = before ++ .one word :: after ∧
      command (kept args) = some word ∧
      launched args baseUrl = word :: (if word = os "exec" ∨ word = os "resume"
        then routingFlags baseUrl else []) ++ (flat before ++ flat after ++ tailOf args)) ∨
    command (kept args) = none ∧
      launched args baseUrl = routingFlags baseUrl ++ (flat (kept args) ++ tailOf args) := by
  obtain ⟨htokens, -⟩ := cut_filter (fun t => !t.isRemoved (takesKey args)) args
  have hrewritten := removeRouting_kept hprovider hbase
  unfold launched rewriteMuseArgs
  rw [hrewritten]
  dsimp only
  cases hindex : stockSubcommandIndex (flat (kept args) ++ tailOf args) with
  | none =>
    have hnone := stockSubcommandIndex_eq_none hindex
    rw [show tokens (flat (kept args) ++ tailOf args) = kept args from htokens] at hnone
    exact .inr ⟨hnone, rfl⟩
  | some index =>
    obtain ⟨before, word, after, hsplit, hcommand, rfl, hword⟩ :=
      stockSubcommandIndex_eq_some hindex
    rw [show tokens (flat (kept args) ++ tailOf args) = kept args from htokens] at hsplit hcommand
    refine .inl ⟨before, word, after, hsplit, hcommand, ?_⟩
    dsimp only
    rw [hword]
    -- The command is taken out of its place and put in front.
    have herase : (flat (kept args) ++ tailOf args).eraseIdx (flat before).length =
        flat before ++ flat after ++ tailOf args := by
      rw [hsplit, flat_append, flat_one, List.append_assoc, List.eraseIdx_append_of_length_le
        (Nat.le_refl _), Nat.sub_self, List.append_assoc]
      rfl
    dsimp only
    rw [herase]
    simp only [Bool.or_eq_true, decide_eq_true_eq]
    split_ifs <;> rfl

/-- The tokens of the arguments that the stock program is given. -/
theorem launched_tokens (baseUrl : String) :
    ∃ before after, kept args = before ++ (command (kept args)).toList.map .one ++ after ∧
      tokens (launched args baseUrl) = (command (kept args)).toList.map .one ++
        (if (command (kept args)).all fun word => word = os "exec" || word = os "resume"
          then [.two (os "--provider") (os "meta"), .two (os "--base-url") (os baseUrl)] else []) ++
        (before ++ after) ∧
      tailOf (launched args baseUrl) = tailOf args ∧
      launched args baseUrl = (command (kept args)).toList ++
        (if (command (kept args)).all fun word => word = os "exec" || word = os "resume"
          then routingFlags baseUrl else []) ++ (flat before ++ flat after ++ tailOf args) := by
  have hclean : ∀ t ∈ kept args, t.Clean :=
    fun t ht => (cut_spec args).clean t (List.mem_of_mem_filter ht)
  -- Each routing option is put in with its value.
  have hrouting : ∀ t ∈ [Token.two (os "--provider") (os "meta"),
      .two (os "--base-url") (os baseUrl)], t.Clean := by
    have hvalue : optionTakesValue (os "--provider") = true ∧
        optionTakesValue (os "--base-url") = true := by
      decide
    rw [List.forall_mem_cons, List.forall_mem_singleton]
    exact hvalue
  rcases launched_eq hprovider hbase baseUrl with ⟨before, word, after, hsplit, hcommand, heq⟩ |
    ⟨hcommand, heq⟩
  · rw [hsplit, List.forall_mem_append, List.forall_mem_cons] at hclean
    obtain ⟨hbefore, hword, hafter⟩ := hclean
    rw [hcommand]
    simp only [Option.all_some, Bool.or_eq_true, decide_eq_true_eq, Option.toList_some,
      List.map_singleton]
    refine ⟨before, after, by rw [hsplit, List.append_assoc]; rfl, ?_⟩
    by_cases hroute : word = os "exec" ∨ word = os "resume"
    · rw [if_pos hroute, if_pos hroute]
      rw [if_pos hroute] at heq
      have hcut : Cut (launched args baseUrl) (.one word :: ([.two (os "--provider") (os "meta"),
          .two (os "--base-url") (os baseUrl)] ++ (before ++ after))) (tailOf args) := by
        refine ⟨by rw [heq]; simp [routingFlags, osArgs], ?_, (cut_spec args).closed⟩
        rw [List.forall_mem_cons, List.forall_mem_append, List.forall_mem_append]
        exact ⟨hword, hrouting, hbefore, hafter⟩
      exact ⟨hcut.unique.1, hcut.unique.2, heq⟩
    · rw [if_neg hroute, if_neg hroute]
      rw [if_neg hroute] at heq
      have hcut : Cut (launched args baseUrl) (.one word :: (before ++ after)) (tailOf args) := by
        refine ⟨by rw [heq]; simp, ?_, (cut_spec args).closed⟩
        rw [List.forall_mem_cons, List.forall_mem_append]
        exact ⟨hword, hbefore, hafter⟩
      exact ⟨hcut.unique.1, hcut.unique.2, heq⟩
  · rw [hcommand]
    refine ⟨kept args, [], by simp, ?_⟩
    -- Without a command, the options stand in front of everything.
    have hcut : Cut (launched args baseUrl) ([.two (os "--provider") (os "meta"),
        .two (os "--base-url") (os baseUrl)] ++ kept args) (tailOf args) := by
      refine ⟨by rw [heq]; simp [routingFlags, osArgs], ?_, (cut_spec args).closed⟩
      rw [List.forall_mem_append]
      exact ⟨hrouting, hclean⟩
    refine ⟨?_, hcut.unique.2, ?_⟩
    · rw [hcut.unique.1]
      simp
    · rw [heq]
      simp

/-- The command in front is that of the kept tokens. -/
theorem launched_head (baseUrl : String) : (launched args baseUrl).head? =
    some ((command (kept args)).getD (os "--provider")) := by
  obtain ⟨before, after, -, -, -, heq⟩ := launched_tokens hprovider hbase baseUrl
  rw [heq]
  cases command (kept args) with
  | none => rfl
  | some word => rfl

end

/-- A flag is set when it is a token of its own. -/
theorem any_isFlag {name : String} {ts : List Token} :
    ts.any (·.isFlag name) = true ↔ .one (os name) ∈ ts := by
  simp [Token.isFlag]

/-- An option that takes no value is there if it is a flag. -/
theorem hasOption_iff {name : String} (hname : Plain name) (args : List OsString) :
    hasOption args name = true ↔ .one (os name) ∈ tokens args := by
  have hne {arg : OsString} (h : optionTakesValue arg = true) : arg ≠ os name := by
    rintro rfl
    rw [hname.2] at h
    cases h
  rw [hasOption, anyOption_eq fun arg h => by simpa using hne h, List.any_eq_true, ← any_isFlag,
    List.any_eq_true]
  refine exists_congr fun t => and_congr_right fun ht => ?_
  cases t with
  | one arg =>
    simp only [Token.arg, Token.isFlag, decide_eq_true_iff, Token.one.injEq]
    exact decide_eq_true_iff
  | two arg value =>
    have hvalue : optionTakesValue arg = true := (cut_spec args).clean _ ht
    simp [Token.arg, Token.isFlag, hne hvalue]

/-- The launcher keeps the option without a session log. -/
theorem launched_hasOption {args : List OsString} (hprovider : Accepted "--provider" args)
    (hbase : Accepted "--base-url" (takeFastMode (takeExecApiKeyStdin args).2).2)
    (baseUrl : String) : hasOption (launched args baseUrl) "--no-session-log" = true ↔
      .one (os "--no-session-log") ∈ tokens args := by
  have hplain : Plain "--no-session-log" := by unfold Plain; decide
  have hkept : (Token.one (os "--no-session-log")).isRemoved (takesKey args) = false := by
    cases takesKey args <;> decide
  obtain ⟨before, after, hsplit, htokens, -⟩ := launched_tokens hprovider hbase baseUrl
  have hmem : .one (os "--no-session-log") ∈ kept args ↔
      .one (os "--no-session-log") ∈ tokens args := by
    rw [kept, List.mem_filter, hkept]
    simp
  rw [hasOption_iff hplain, ← hmem, hsplit, htokens]
  split_ifs <;> simp [or_left_comm]

/-! ## Agreement -/

/-- The command that the stock program takes its arguments for: it only looks at the first. -/
def dispatchWord (args : List OsString) : Option OsString :=
  args.head?.filter (isOneOf stockCommands)

/-- The stock program is given the command that the launcher has seen. -/
def DispatchAgrees (args final : List OsString) : Prop :=
  (stripPublicProviderArgs args).map stockSubcommand = .ok (dispatchWord final) ∧
  (∀ word ∈ final.head?, isOneOf authCommands word = false) ∧
  ¬(final.head? = some (os "serve") ∧ hasOption final "--no-session-log" = true)

/-- What the launcher has checked when it starts the stock program. -/
theorem stockArguments_ok {args final : List OsString} {environment : String → Option OsString}
    {baseUrl : String} (h : stockArguments args environment baseUrl = .ok final) :
    final = launched args baseUrl ∧ Accepted "--provider" args ∧
      Accepted "--base-url" (takeFastMode (takeExecApiKeyStdin args).2).2 ∧
      ¬(stockSubcommand args = some (os "serve") ∧ hasOption args "--no-session-log" = true) ∧
      stripPublicProviderArgs args =
        .ok (flat ((tokens args).filter fun t => !t.setsProvider) ++ tailOf args) := by
  unfold stockArguments validateMspOptions at h
  split_ifs at h with hmsp
  · cases h
  · unfold selectedProvider at h
    cases hremove : validateAndRemoveProvider args with
    | error reason =>
      rw [hremove] at h
      cases h
    | ok r =>
      obtain ⟨hremaining, hprovider⟩ := removeProvider_ok hremove
      rw [hremove] at h
      dsimp only [Except.bind, Except.map] at h
      -- Every check before the rewriting has passed.
      cases hreject : rejectUnsupportedProviderOptions (r.1.getD .codex)
          (takeFastMode (takeExecApiKeyStdin args).2).1 with
      | error reason =>
        rw [hreject] at h
        cases h
      | ok _ =>
        rw [hreject] at h
        dsimp only at h
        unfold resolveUpstreamBaseUrl at h
        cases hcli : cliBaseUrl none (takeFastMode (takeExecApiKeyStdin args).2).2 with
        | error reason =>
          rw [hcli] at h
          cases h
        | ok cliValue =>
          rw [hcli] at h
          refine ⟨?_, hprovider, cliBaseUrl_ok hcli, ?_, ?_⟩
          · dsimp only [Except.bind] at h
            split at h
            · cases h
            · cases h
              rfl
          · rintro ⟨hserve, hlog⟩
            apply hmsp
            rw [hserve, hlog]
            decide
          · rw [stripPublicProviderArgs, hremove, ← hremaining]
            rfl

/-- The selectors that are removed after the invocation was classified, and do not name a
provider. -/
def Token.isLate (t : Token) : Bool := t.isFlag "--fast" || t.setsBaseUrl

/-- A token that is removed late is inert. -/
theorem isLate_inert {t : Token} (ht : t.isLate = true) : t.Inert := by
  rcases Bool.or_eq_true_iff.mp ht with ht | ht
  · exact isFlag_inert (by decide) (by decide) ht
  · exact sets_inert (by decide) ht

/-- A token that chooses the provider is inert. -/
theorem setsProvider_inert {t : Token} (ht : t.setsProvider = true) : t.Inert :=
  sets_inert (by decide) ht

/-- The tokens without the flags of the provider. -/
def unprovided (args : List OsString) : List Token :=
  (tokens args).filter fun t => !t.setsProvider

/-- The kept tokens have the command of the classified ones, unless removing the late selectors
brings another out. -/
theorem command_kept (args : List OsString) :
    command (kept args) = command (unprovided args) ↔
      ∀ after, Severed Token.isLate (unprovided args) after →
        command (after.filter fun t => !t.isLate) = none := by
  have hkept : kept args = (unprovided args).filter fun t =>
      !(t.isLate || (takesKey args && t.isFlag "--api-key-stdin")) := by
    rw [kept, unprovided, List.filter_filter]
    refine List.filter_congr fun t _ => ?_
    simp only [Token.isRemoved, Token.routes, Token.isSelector, Token.isLate]
    cases t.setsProvider <;> cases t.setsBaseUrl <;> cases t.isFlag "--fast" <;> simp
  cases hkey : takesKey args with
  | false =>
    rw [hkept, hkey]
    simp only [Bool.false_and, Bool.or_false]
    exact command_filter (fun t => isLate_inert) (unprovided args)
  | true =>
    -- The key is only taken from a run of `exec`, whose command no removal changes.
    have hexec : command (tokens args) = some (os "exec") := by
      rw [takesKey, stockSubcommand_eq] at hkey
      obtain ⟨word, hword, heq⟩ := (Option.any_eq_true _ _).mp hkey
      rw [hword, decide_eq_true_eq.mp heq]
    have hunprovided : command (unprovided args) = some (os "exec") := by
      rw [← hexec]
      exact (command_filter (fun t => setsProvider_inert) (tokens args)).mpr fun after hsevered =>
        absurd hsevered (not_severed_of_command (fun t => setsProvider_inert) hexec)
    have hinert (t : Token) (ht : (t.isLate || (takesKey args && t.isFlag "--api-key-stdin")) = true) :
        t.Inert := by
      rcases Bool.or_eq_true_iff.mp ht with ht | ht
      · exact isLate_inert ht
      · exact isFlag_inert (by decide) (by decide) (Bool.and_eq_true_iff.mp ht).2
    constructor
    · intro _ after hsevered
      exact absurd hsevered (not_severed_of_command (fun t => isLate_inert) hunprovided)
    · intro _
      rw [hkept]
      exact (command_filter hinert (unprovided args)).mpr fun after hsevered =>
        absurd hsevered (not_severed_of_command hinert hunprovided)

/-- What is launched is taken for the command of the kept tokens. -/
theorem launched_dispatchWord {args : List OsString} (hprovider : Accepted "--provider" args)
    (hbase : Accepted "--base-url" (takeFastMode (takeExecApiKeyStdin args).2).2)
    (baseUrl : String) : dispatchWord (launched args baseUrl) = command (kept args) := by
  rw [dispatchWord, launched_head hprovider hbase]
  cases hcommand : command (kept args) with
  | none =>
    have hnot : isOneOf stockCommands (os "--provider") = false := by decide
    rw [Option.getD_none, Option.filter_some, hnot]
    rfl
  | some word =>
    obtain ⟨-, hword⟩ := Option.filter_eq_some_iff.mp hcommand
    rw [Option.getD_some, Option.filter_some, if_pos hword]

/-- An invocation of the stock program does not authenticate. -/
theorem classifyInvocation_muse {args : List OsString}
    (hmuse : classifyInvocation args = .ok (.muse args))
    (hstrip : stripPublicProviderArgs args = .ok (flat (unprovided args) ++ tailOf args)) :
    ∀ word ∈ command (unprovided args), isOneOf authCommands word = false := by
  intro word hword
  unfold stripPublicProviderArgs at hstrip
  unfold classifyInvocation at hmuse
  cases hremove : validateAndRemoveProvider args with
  | error reason =>
    rw [hremove] at hstrip
    cases hstrip
  | ok r =>
    rw [hremove] at hstrip hmuse
    obtain ⟨selected, remaining⟩ := r
    obtain rfl : remaining = flat (unprovided args) ++ tailOf args := Except.ok.inj hstrip
    have hmuse := Except.ok.inj hmuse
    dsimp only at hmuse
    split_ifs at hmuse
    have htokens : tokens (flat (unprovided args) ++ tailOf args) = unprovided args :=
      (cut_filter _ args).1
    cases hindex : stockSubcommandIndex (flat (unprovided args) ++ tailOf args) with
    | none =>
      have hnone := stockSubcommandIndex_eq_none hindex
      rw [htokens] at hnone
      rw [hnone] at hword
      cases hword
    | some index =>
      obtain ⟨before, word', after, -, hcommand, -, hget⟩ := stockSubcommandIndex_eq_some hindex
      rw [htokens, hword] at hcommand
      obtain rfl := Option.some.inj hcommand
      rw [hindex] at hmuse
      dsimp only at hmuse
      rw [hget, Option.any_some] at hmuse
      -- A command of the launcher's own is not left to Muse.
      by_contra hauth
      rw [Bool.not_eq_false] at hauth
      rw [if_pos hauth] at hmuse
      split_ifs at hmuse

/-- The launcher misses `serve` with the option that it must not have only behind a mode that is
severed by the provider. -/
theorem command_unprovided_serve {args : List OsString}
    (hmsp : ¬(stockSubcommand args = some (os "serve") ∧
      hasOption args "--no-session-log" = true))
    (hserve : command (unprovided args) = some (os "serve"))
    (hlog : .one (os "--no-session-log") ∈ tokens args) :
    ∃ after, Severed Token.setsProvider (tokens args) after ∧
      command (after.filter fun t => !t.setsProvider) = some (os "serve") := by
  have hplain : Plain "--no-session-log" := by unfold Plain; decide
  obtain ⟨hsevered, hnot⟩ := firstWord_filter (fun t => setsProvider_inert) (tokens args)
  by_contra hnone
  have hunsevered : ∀ after, ¬Severed Token.setsProvider (tokens args) after := by
    intro after hafter
    refine hnone ⟨after, hafter, ?_⟩
    rw [← hserve, command, ← (hsevered after hafter).2]
    rfl
  refine hmsp ⟨?_, (hasOption_iff hplain args).mpr hlog⟩
  rw [stockSubcommand_eq, ← hserve, command, unprovided, command, hnot hunsevered]

/-- The stock program is given the command that the launcher has seen if, and only if, no selector
severs a mode behind which a command is found, and no flag of the provider severs one behind which
`serve` is found with the option that it must not have. -/
theorem stockArguments_dispatch {args final : List OsString}
    {environment : String → Option OsString} {baseUrl : String}
    (hmuse : classifyInvocation args = .ok (.muse args))
    (hfinal : stockArguments args environment baseUrl = .ok final) :
    DispatchAgrees args final ↔
      (∀ after, Severed Token.isLate (unprovided args) after →
        command (after.filter fun t => !t.isLate) = none) ∧
      (.one (os "--no-session-log") ∈ tokens args →
        ∀ after, Severed Token.setsProvider (tokens args) after →
          command (after.filter fun t => !t.setsProvider) ≠ some (os "serve")) := by
  obtain ⟨rfl, hprovider, hbase, hmsp, hstrip⟩ := stockArguments_ok hfinal
  have hauth := classifyInvocation_muse hmuse hstrip
  have hserve := command_unprovided_serve hmsp
  -- Muse runs the command of what is kept; the launcher has read that without the provider.
  have hagrees : (Except.map stockSubcommand (stripPublicProviderArgs args) =
      .ok (dispatchWord (launched args baseUrl))) ↔
        command (kept args) = command (unprovided args) := by
    rw [hstrip, launched_dispatchWord hprovider hbase]
    dsimp only [Except.map]
    rw [stockSubcommand_eq, (cut_filter _ args).1]
    exact ⟨fun h => (Except.ok.inj h).symm, fun h => congrArg Except.ok h.symm⟩
  unfold DispatchAgrees
  rw [← command_kept, hagrees, launched_hasOption hprovider hbase, launched_head hprovider hbase]
  constructor
  · rintro ⟨hkept, -, hlog⟩
    refine ⟨hkept, fun hmem after hsevered heq => hlog ⟨?_, hmem⟩⟩
    -- Behind the severed mode, the command is the first word of what is left.
    have hfirst := ((firstWord_filter (fun t => setsProvider_inert) (tokens args)).1
      after hsevered).2
    have hcommand : command (unprovided args) = some (os "serve") := by
      rw [← heq, command, unprovided, hfirst]
      rfl
    rw [hkept, hcommand]
    rfl
  · rintro ⟨hkept, hlog⟩
    rw [hkept]
    refine ⟨rfl, ?_, ?_⟩
    · rintro word hword
      rw [Option.mem_some] at hword
      rw [← hword]
      cases hcommand : command (unprovided args) with
      | none => decide
      | some word => exact hauth word hcommand
    · rintro ⟨heq, hmem⟩
      have hcommand : command (unprovided args) = some (os "serve") := by
        cases hcommand : command (unprovided args) with
        | none =>
          rw [hcommand] at heq
          exact absurd heq (by decide)
        | some word =>
          rw [hcommand] at heq
          exact heq
      obtain ⟨after, hsevered, hafter⟩ := hserve hcommand hmem
      exact hlog hmem after hsevered hafter

/-- A command to run is dispatched as what it is. -/
theorem stockArguments_dispatch_exec :
    DispatchAgrees (osArgs ["--fast", "exec", "hi"])
      (osArgs ["exec", "--provider", "meta", "--base-url", "http://127.0.0.1:1", "hi"]) ∧
    ∀ after, Severed Token.isLate (unprovided (osArgs ["--fast", "exec", "hi"])) after →
      command (after.filter fun t => !t.isLate) = none := by
  have hmuse : classifyInvocation (osArgs ["--fast", "exec", "hi"]) =
      .ok (.muse (osArgs ["--fast", "exec", "hi"])) := by
    decide
  have hfinal : stockArguments (osArgs ["--fast", "exec", "hi"]) (fun _ => none)
      "http://127.0.0.1:1" =
        .ok (osArgs ["exec", "--provider", "meta", "--base-url", "http://127.0.0.1:1", "hi"]) := by
    decide
  have hagrees : DispatchAgrees (osArgs ["--fast", "exec", "hi"])
      (osArgs ["exec", "--provider", "meta", "--base-url", "http://127.0.0.1:1", "hi"]) := by
    unfold DispatchAgrees
    decide
  exact ⟨hagrees, ((stockArguments_dispatch hmuse hfinal).mp hagrees).1⟩

/-- Removing a selector brings a command of the stock program out from behind a mode. -/
theorem stockArguments_dispatch_auth :
    classifyInvocation (osArgs ["--worktree", "--fast", "off", "auth"]) =
      .ok (.muse (osArgs ["--worktree", "--fast", "off", "auth"])) ∧
    isInformationalInvocation (osArgs ["--worktree", "--fast", "off", "auth"]) = false ∧
    isLocalInvocation (osArgs ["--worktree", "--fast", "off", "auth"]) = false ∧
    stockArguments (osArgs ["--worktree", "--fast", "off", "auth"]) (fun _ => none)
      "http://127.0.0.1:1" = .ok (osArgs ["auth", "--worktree", "off"]) ∧
    ¬DispatchAgrees (osArgs ["--worktree", "--fast", "off", "auth"])
      (osArgs ["auth", "--worktree", "off"]) := by
  unfold DispatchAgrees
  decide

end MuseCodex.Launcher
