import MuseCodex.Launcher.Dispatch

/-!
# The route that the stock program is given

The stock program must reach no model but through the gateway of the launcher. The flags of the
user that choose a route are recognised in a text, while an argument is a sequence of bytes; what
is not UTF-8 is never recognised, and so this is also where the launcher lets a flag through.
-/

namespace MuseCodex.Launcher

open Text

/-! ## Confinement -/

/-- The arguments at option positions, up to the first `--` at one. -/
def optionArguments : List OsString → List OsString
  | [] => []
  | arg :: rest =>
    if arg = os "--" then []
    else if optionTakesValue arg then
      match rest with
      | [] => [arg]
      | _ :: after => arg :: optionArguments after
    else arg :: optionArguments rest

/-- Whether an argument chooses a route, by its bytes. -/
def isRouting (arg : OsString) : Bool :=
  arg = os "--provider" || arg = os "--base-url" || (os "--provider=").isPrefixOf arg ||
    (os "--base-url=").isPrefixOf arg

/-- What the launcher has to leave of the arguments: all but the flags that choose a route and the
selectors that it takes. -/
def survivors (args : List OsString) : List OsString :=
  flat ((tokens args).filter fun t => !(isRouting t.arg || t.isSelector (takesKey args))) ++
    tailOf args

/-- Whether the stock program needs to be told its route. -/
def isRouted (final : List OsString) : Bool :=
  (dispatchWord final).all fun word => word = os "exec" || word = os "resume"

/-- The stock program is given the route to the gateway and no other, and all other arguments in
their order, after its command. -/
def RoutingConfined (args final : List OsString) (baseUrl : String) : Prop :=
  (optionArguments final).filter isRouting =
    (if isRouted final then [os "--provider", os "--base-url"] else []) ∧
  ∃ before after, survivors args = before ++ (dispatchWord final).toList ++ after ∧
    final = (dispatchWord final).toList ++ (if isRouted final then routingFlags baseUrl else []) ++
      (before ++ after)

/-! ## Arguments by their bytes -/

/-- An option that takes a value is one of a list of texts. -/
theorem takesValue_text {arg : OsString} (h : optionTakesValue arg = true) :
    ∃ text ∈ valueOptions, arg = os text := by
  unfold optionTakesValue at h
  obtain ⟨text, htext, hmem⟩ := (Option.any_eq_true _ _).mp h
  exact ⟨text, by simpa using hmem, fromUtf8_eq_some htext⟩

/-- What takes a value chooses a route only as a whole. -/
theorem isRouting_of_takesValue {arg : OsString} (h : optionTakesValue arg = true) :
    isRouting arg = (arg = os "--provider" || arg = os "--base-url") := by
  have hall : ∀ text ∈ valueOptions, isRouting (os text) =
      (os text = os "--provider" || os text = os "--base-url") := by
    decide
  obtain ⟨text, hmem, rfl⟩ := takesValue_text h
  exact hall text hmem

/-- In a text, bytes and characters agree on an assignment. -/
theorem startsWithOs_iff {arg : OsString} {text : String} (htext : fromUtf8 arg = some text)
    {start : String} (hstart : start ∈ routingAssignments) :
    startsWithOs arg start = (os start).isPrefixOf arg := by
  have hascii : ∀ start ∈ routingAssignments, start.toList.all (·.toNat < 128) = true := by
    decide
  have hstarts := @toUtf8_prefix_iff start text fun c hc =>
    of_decide_eq_true (List.all_eq_true.mp (hascii start hstart) c hc)
  rw [← fromUtf8_eq_some htext] at hstarts
  rw [Bool.eq_iff_iff, List.isPrefixOf_iff_prefix, os, hstarts, startsWithOs, htext,
    Option.any_some, stripText, ← List.isPrefixOf_iff_prefix]
  split_ifs with h
  · simp [h]
  · simp [h]

/-- A token that chooses a route is recognised if it is a text. -/
theorem routes_eq {t : Token} (hclean : t.Clean)
    (htext : fromUtf8 t.arg = none → isRouting t.arg = false) :
    t.routes = isRouting t.arg := by
  cases t with
  | two arg value =>
    rw [Token.arg, isRouting_of_takesValue hclean]
    rfl
  | one arg =>
    have hnot : arg ≠ os "--provider" ∧ arg ≠ os "--base-url" := by
      constructor
      · rintro rfl
        revert hclean
        unfold Token.Clean
        decide
      · rintro rfl
        revert hclean
        unfold Token.Clean
        decide
    have hroutes : Token.routes (.one arg) =
        (startsWithOs arg "--provider=" || startsWithOs arg "--base-url=") := rfl
    rw [hroutes]
    cases hdecode : fromUtf8 arg with
    | none =>
      rw [show (Token.one arg).arg = arg from rfl] at htext ⊢
      rw [htext hdecode, startsWithOs, startsWithOs, hdecode]
      rfl
    | some text =>
      rw [startsWithOs_iff hdecode (by decide), startsWithOs_iff hdecode (by decide), Token.arg,
        isRouting]
      simp [hnot.1, hnot.2]

/-- The arguments at option positions are those of the tokens, and an option without its value. -/
theorem optionArguments_eq (args : List OsString) :
    optionArguments args = (tokens args).map Token.arg ++ optionArguments (tailOf args) := by
  induction args using cut_induction with
  | nil => rfl
  | dashes rest => rw [tokens_dashes, tailOf_dashes]; rfl
  | lone arg h => rw [tokens_lone h, tailOf_lone h]; rfl
  | two arg value rest h ih =>
    rw [tokens_two h, tailOf_two h, optionArguments.eq_def]
    dsimp only
    rw [if_neg (ne_dashes_of_takesValue h), if_pos h, ih]
    rfl
  | one arg rest hdash h ih =>
    rw [tokens_one hdash h, tailOf_one hdash h, optionArguments.eq_def]
    dsimp only
    rw [if_neg hdash, if_neg (by rw [h]; decide), ih]
    rfl

/-- The end of a vector has no argument at an option position, or an option without its value. -/
theorem optionArguments_closed {tail : List OsString} (hclosed : Closed tail) :
    optionArguments tail = [] ∨
      ∃ arg, tail = [arg] ∧ optionTakesValue arg = true ∧ optionArguments tail = [arg] := by
  rcases hclosed with rfl | ⟨arg, rfl, h⟩ | hdash
  · exact .inl rfl
  · refine .inr ⟨arg, rfl, h, ?_⟩
    rw [optionArguments.eq_def]
    dsimp only
    rw [if_neg (ne_dashes_of_takesValue h), if_pos h]
  · obtain ⟨rest, rfl⟩ := List.head?_eq_some_iff.mp hdash
    refine .inl ?_
    rw [optionArguments.eq_def]
    exact if_pos rfl

/-- What is not a text is not removed. -/
theorem isRemoved_of_none {t : Token} (hclean : t.Clean) (h : fromUtf8 t.arg = none)
    {key : Bool} : t.isRemoved key = false := by
  cases t with
  | two arg value =>
    obtain ⟨text, -, htext⟩ := takesValue_text hclean
    rw [Token.arg, htext, os, fromUtf8_toUtf8] at h
    cases h
  | one arg =>
    have hflag (name : String) : Token.isFlag name (.one arg) = false := by
      rw [Token.isFlag, decide_eq_false_iff_not]
      rintro heq
      injection heq with heq
      rw [Token.arg, heq, os, fromUtf8_toUtf8] at h
      cases h
    have hroutes : Token.routes (.one arg) = false := by
      rw [Token.arg] at h
      simp [Token.routes, Token.setsProvider, Token.setsBaseUrl, Token.sets, startsWithOs, h]
    rw [Token.isRemoved, Token.isSelector, hroutes, hflag, hflag, Bool.and_false]
    rfl

/-- Only tokens are no text. -/
theorem tokens_text {args : List OsString} :
    (∀ t ∈ tokens args, fromUtf8 t.arg = none → isRouting t.arg = false) ↔
      ∀ arg ∈ optionArguments args, fromUtf8 arg = none →
        ¬(os "--provider=" <+: arg) ∧ ¬(os "--base-url=" <+: arg) := by
  have hrouting {arg : OsString} (h : fromUtf8 arg = none) : isRouting arg = false ↔
      ¬(os "--provider=" <+: arg) ∧ ¬(os "--base-url=" <+: arg) := by
    have hne (text : String) : arg ≠ os text := by
      rintro rfl
      rw [os, fromUtf8_toUtf8] at h
      cases h
    simp [isRouting, hne, ← List.isPrefixOf_iff_prefix]
  rw [optionArguments_eq]
  constructor
  · intro htext arg harg hnone
    rcases List.mem_append.mp harg with harg | harg
    · obtain ⟨t, ht, rfl⟩ := List.mem_map.mp harg
      exact (hrouting hnone).mp (htext t ht hnone)
    · -- An option without its value is a text.
      rcases optionArguments_closed (cut_spec args).closed with hnil | ⟨arg', -, h, hlone⟩
      · rw [hnil] at harg
        cases harg
      · rw [hlone, List.mem_singleton] at harg
        obtain ⟨text, -, htext'⟩ := takesValue_text h
        rw [harg, htext', os, fromUtf8_toUtf8] at hnone
        cases hnone
  · intro htext t ht hnone
    exact (hrouting hnone).mpr
      (htext t.arg (List.mem_append_left _ (List.mem_map_of_mem ht)) hnone)

/-! ## The result -/

/-- Taking the flags leaves the arguments accepted. -/
theorem accepted_selectors {args : List OsString} (hbase : Accepted "--base-url" args) :
    Accepted "--base-url" (takeFastMode (takeExecApiKeyStdin args).2).2 := by
  rw [takeSelectors_eq]
  exact hbase.filter _

section

variable {args : List OsString} (hprovider : Accepted "--provider" args)
  (hbase : Accepted "--base-url" args)

include hprovider hbase

/-- No flag that chooses a route is left at the end. -/
theorem optionArguments_tail : (optionArguments (tailOf args)).filter isRouting = [] := by
  rcases optionArguments_closed (cut_spec args).closed with hnil | ⟨arg, htail, h, hlone⟩
  · rw [hnil]
    rfl
  · have hnot : isRouting arg = false := by
      rw [isRouting_of_takesValue h]
      simp only [Bool.or_eq_false_iff, decide_eq_false_iff_not]
      exact ⟨fun heq => hprovider.complete (by rw [htail, heq]),
        fun heq => hbase.complete (by rw [htail, heq])⟩
    rw [hlone, List.filter_cons_of_neg (by simp [hnot])]
    rfl

/-- The stock program is told its route if it has no command, or one of the two that take a route.
-/
theorem isRouted_launched (baseUrl : String) : isRouted (launched args baseUrl) =
    (command (kept args)).all fun word => word = os "exec" || word = os "resume" := by
  rw [isRouted, launched_dispatchWord hprovider (accepted_selectors hbase)]

/-- The flags at option positions of what is launched: those of the gateway, and what was kept. -/
theorem launched_routing (baseUrl : String) :
    (optionArguments (launched args baseUrl)).filter isRouting =
      (if isRouted (launched args baseUrl) then [os "--provider", os "--base-url"] else []) ++
        ((kept args).map Token.arg).filter isRouting := by
  have hselectors := accepted_selectors hbase
  obtain ⟨before, after, hsplit, htokens, htail, -⟩ := launched_tokens hprovider hselectors baseUrl
  -- The command is no flag.
  have hcommand : (((command (kept args)).toList.map Token.one).map Token.arg).filter isRouting =
      [] := by
    have hall : ∀ text ∈ stockCommands, isRouting (os text) = false := by decide
    cases hword : command (kept args) with
    | none => rfl
    | some word =>
      obtain ⟨-, hone⟩ := Option.filter_eq_some_iff.mp hword
      obtain ⟨text, htext, hmem⟩ := (Option.any_eq_true _ _).mp hone
      have hnot := hall text (by simpa using hmem)
      rw [os, ← fromUtf8_eq_some htext] at hnot
      simp [Token.arg, hnot]
  have hrouting : (os "--provider" :: [os "--base-url"]).filter isRouting =
      [os "--provider", os "--base-url"] := by
    decide
  have hkept : ((kept args).map Token.arg).filter isRouting =
      (before.map Token.arg).filter isRouting ++ (after.map Token.arg).filter isRouting := by
    conv_lhs => rw [hsplit]
    simp only [List.map_append, List.filter_append, hcommand, List.append_nil]
  rw [optionArguments_eq, htokens, htail, List.filter_append,
    optionArguments_tail hprovider hbase, List.append_nil, isRouted_launched hprovider hbase, hkept]
  simp only [List.map_append, List.filter_append, hcommand, List.nil_append]
  congr 1
  split_ifs
  · exact hrouting
  · rfl

end

/-- The route of the stock program is confined if, and only if, no argument at an option position
that is not a text starts like a flag that chooses a route. -/
theorem launched_confined {args : List OsString} {provider : PublicProvider}
    {environmentValue upstream : Option OsString} {environmentVariable : String}
    (hprovider : selectedProvider args = .ok provider)
    (hupstream : resolveUpstreamBaseUrl args environmentValue environmentVariable = .ok upstream)
    (baseUrl : String) :
    RoutingConfined args (launched args baseUrl) baseUrl ↔
      ∀ arg ∈ optionArguments args, fromUtf8 arg = none →
        ¬(os "--provider=" <+: arg) ∧ ¬(os "--base-url=" <+: arg) := by
  have hprovider : Accepted "--provider" args := by
    unfold selectedProvider at hprovider
    cases hremove : validateAndRemoveProvider args with
    | error reason =>
      rw [hremove] at hprovider
      cases hprovider
    | ok r => exact (removeProvider_ok hremove).2
  have hbase : Accepted "--base-url" args := by
    unfold resolveUpstreamBaseUrl at hupstream
    cases hcli : cliBaseUrl none args with
    | error reason =>
      rw [hcli] at hupstream
      cases hupstream
    | ok cliValue => exact cliBaseUrl_ok hcli
  rw [← tokens_text]
  have hrouting := launched_routing hprovider hbase baseUrl
  constructor
  · rintro ⟨honly, -⟩ t ht htext
    -- What is not a text is kept, and would be among the flags.
    rw [hrouting, List.append_right_eq_self] at honly
    by_contra hroutes
    have hkept : t ∈ kept args := by
      rw [kept, List.mem_filter]
      exact ⟨ht, by rw [isRemoved_of_none ((cut_spec args).clean t ht) htext]; rfl⟩
    rw [List.filter_eq_nil_iff] at honly
    exact honly t.arg (List.mem_map_of_mem hkept) (by simpa using hroutes)
  · intro htext
    have hroutes : ∀ t ∈ tokens args, t.routes = isRouting t.arg :=
      fun t ht => routes_eq ((cut_spec args).clean t ht) (htext t ht)
    have hsurvivors : survivors args = flat (kept args) ++ tailOf args := by
      rw [survivors, kept]
      congr 2
      refine List.filter_congr fun t ht => ?_
      rw [Token.isRemoved, hroutes t ht]
    constructor
    · rw [hrouting, List.append_right_eq_self, List.filter_eq_nil_iff]
      intro arg harg
      obtain ⟨t, ht, rfl⟩ := List.mem_map.mp harg
      obtain ⟨hmem, hkept⟩ := List.mem_filter.mp ht
      rw [← hroutes t hmem]
      rw [Bool.not_eq_true', Token.isRemoved, Bool.or_eq_false_iff] at hkept
      rw [hkept.1]
      exact Bool.false_ne_true
    · obtain ⟨before, after, hsplit, -, -, heq⟩ :=
        launched_tokens hprovider (accepted_selectors hbase) baseUrl
      rw [isRouted_launched hprovider hbase,
        launched_dispatchWord hprovider (accepted_selectors hbase), hsurvivors]
      refine ⟨flat before, flat after ++ tailOf args, ?_, ?_⟩
      · have hwords : flat ((command (kept args)).toList.map Token.one) =
            (command (kept args)).toList := by
          cases command (kept args) <;> rfl
        conv_lhs => rw [hsplit]
        rw [flat_append, flat_append, hwords, List.append_assoc, List.append_assoc]
      · rw [heq, List.append_assoc (flat before)]

/-- A command to run gets the address of the gateway only. -/
theorem launched_confined_exec :
    RoutingConfined (osArgs ["--base-url", "https://a", "exec", "hi"])
      (launched (osArgs ["--base-url", "https://a", "exec", "hi"]) "http://127.0.0.1:1")
      "http://127.0.0.1:1" := by
  have hprovider : selectedProvider (osArgs ["--base-url", "https://a", "exec", "hi"]) =
      .ok .codex := by
    decide
  have hupstream : resolveUpstreamBaseUrl (osArgs ["--base-url", "https://a", "exec", "hi"]) none
      "OPENAI_BASE_URL" = .ok (some (os "https://a")) := by
    decide
  have htext : ∀ arg ∈ optionArguments (osArgs ["--base-url", "https://a", "exec", "hi"]),
      fromUtf8 arg ≠ none := by
    decide
  exact (launched_confined hprovider hupstream "http://127.0.0.1:1").mpr
    fun arg harg hnone => absurd hnone (htext arg harg)

/-- A flag with a byte that is no text. -/
def strayFlag : OsString := os "--base-url=https://a" ++ [0xff]

/-- The flag of the user reaches the stock program behind that of the launcher. -/
theorem launched_confined_stray :
    selectedProvider [os "exec", strayFlag] = .ok .codex ∧
    resolveUpstreamBaseUrl [os "exec", strayFlag] none "OPENAI_BASE_URL" = .ok none ∧
    launched [os "exec", strayFlag] "http://127.0.0.1:1" =
      osArgs ["exec", "--provider", "meta", "--base-url", "http://127.0.0.1:1"] ++ [strayFlag] ∧
    ¬RoutingConfined [os "exec", strayFlag]
      (launched [os "exec", strayFlag] "http://127.0.0.1:1") "http://127.0.0.1:1" := by
  refine ⟨by decide, by decide, by decide, ?_⟩
  rintro ⟨hrouting, -⟩
  revert hrouting
  decide

end MuseCodex.Launcher
