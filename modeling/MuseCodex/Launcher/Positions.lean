import MuseCodex.Launcher.Arguments

/-!
# Option positions

All scanners of the launcher cut a vector of arguments in the same way: an option that takes a
value takes the argument after it, `--` ends the options, and every other argument stands for
itself. `tokens` makes that cut. What is left over at the end, from a `--` on or an option without
its value, is the `tail`, which no scanner looks into.

With the cut made once, the scanners are simple: removing selectors is a filter of the tokens, and
looking for a command reads the first token that is no option.
-/

namespace MuseCodex.Launcher

open Text

/-! ## The cut -/

/-- An argument at an option position, with its value if it takes one. -/
inductive Token where
  | one (arg : OsString)
  | two (arg value : OsString)
deriving DecidableEq

/-- The arguments of a token. -/
def Token.args : Token → List OsString
  | .one arg => [arg]
  | .two arg value => [arg, value]

/-- The argument at the option position. -/
def Token.arg : Token → OsString
  | .one arg => arg
  | .two arg _ => arg

/-- The arguments of a list of tokens. -/
def flat (ts : List Token) : List OsString := ts.flatMap Token.args

/-- No tokens are no arguments. -/
@[simp] theorem flat_nil : flat [] = [] := rfl

/-- A token of one argument is that argument. -/
@[simp] theorem flat_one (arg : OsString) (ts : List Token) : flat (.one arg :: ts) = arg :: flat ts := rfl

/-- A token of two arguments is an option and its value. -/
@[simp] theorem flat_two (arg value : OsString) (ts : List Token) :
    flat (.two arg value :: ts) = arg :: value :: flat ts := rfl

/-- Tokens can be laid out in two parts. -/
@[simp] theorem flat_append (ts us : List Token) : flat (ts ++ us) = flat ts ++ flat us := by
  simp [flat]

/-- A token as a cut leaves it. -/
def Token.Clean : Token → Prop
  | .one arg => arg ≠ os "--" ∧ optionTakesValue arg = false
  | .two arg _ => optionTakesValue arg = true

/-- The end of a vector as a cut leaves it. -/
def Closed (tail : List OsString) : Prop :=
  tail = [] ∨ (∃ arg, tail = [arg] ∧ optionTakesValue arg = true) ∨ tail.head? = some (os "--")

/-- The tokens of a vector, and its end. -/
def cut : List OsString → List Token × List OsString
  | [] => ([], [])
  | arg :: rest =>
    if arg = os "--" then ([], arg :: rest)
    else if optionTakesValue arg then
      match rest with
      | [] => ([], [arg])
      | value :: after => (.two arg value :: (cut after).1, (cut after).2)
    else (.one arg :: (cut rest).1, (cut rest).2)

/-- The tokens before the end of the options. -/
def tokens (args : List OsString) : List Token := (cut args).1

/-- What follows the tokens: nothing, `--` with what is after it, or an option without its value. -/
def tailOf (args : List OsString) : List OsString := (cut args).2

/-- What a cut of a vector is. -/
structure Cut (args : List OsString) (ts : List Token) (tail : List OsString) : Prop where
  eq : args = flat ts ++ tail
  clean : ∀ t ∈ ts, t.Clean
  closed : Closed tail

/-- The cut of an argument list is one. -/
theorem cut_spec (args : List OsString) : Cut args (tokens args) (tailOf args) := by
  unfold tokens tailOf
  fun_induction cut args with
  | case1 => exact ⟨rfl, by simp, .inl rfl⟩
  | case2 rest => exact ⟨rfl, by simp, .inr (.inr rfl)⟩
  | case3 arg hdash hvalue => exact ⟨rfl, by simp, .inr (.inl ⟨arg, rfl, hvalue⟩)⟩
  | case4 arg hdash hvalue value after ih =>
    refine ⟨by rw [flat_two, List.cons_append, List.cons_append, ← ih.eq], ?_, ih.closed⟩
    rw [List.forall_mem_cons]
    exact ⟨hvalue, ih.clean⟩
  | case5 arg rest hdash hvalue ih =>
    refine ⟨by rw [flat_one, List.cons_append, ← ih.eq], ?_, ih.closed⟩
    rw [List.forall_mem_cons]
    exact ⟨⟨hdash, by simpa using hvalue⟩, ih.clean⟩

/-- What takes a value is not `--`. -/
theorem ne_dashes_of_takesValue {arg : OsString} (h : optionTakesValue arg = true) :
    arg ≠ os "--" := by
  rintro rfl
  revert h
  decide

/-! A cut, argument by argument. -/

/-- A cut of a vector that is not empty. -/
theorem cut_cons (arg : OsString) (rest : List OsString) :
    cut (arg :: rest) =
      if arg = os "--" then ([], arg :: rest)
      else if optionTakesValue arg then
        match rest with
        | [] => ([], [arg])
        | value :: after => (.two arg value :: (cut after).1, (cut after).2)
      else (.one arg :: (cut rest).1, (cut rest).2) :=
  cut.eq_def _

/-- Nothing is cut from `--` on. -/
theorem cut_dashes (rest : List OsString) : cut (os "--" :: rest) = ([], os "--" :: rest) := by
  rw [cut_cons]
  exact if_pos rfl

/-- An option at the end that takes a value is no token. -/
theorem cut_lone {arg : OsString} (h : optionTakesValue arg = true) : cut [arg] = ([], [arg]) := by
  rw [cut_cons]
  dsimp only
  rw [if_neg (ne_dashes_of_takesValue h), if_pos h]

/-- An option that takes a value is one token with it. -/
theorem cut_two {arg : OsString} (h : optionTakesValue arg = true) (value : OsString)
    (rest : List OsString) :
    cut (arg :: value :: rest) = (.two arg value :: (cut rest).1, (cut rest).2) := by
  rw [cut_cons]
  dsimp only
  rw [if_neg (ne_dashes_of_takesValue h), if_pos h]

/-- Any other argument is a token of its own. -/
theorem cut_one {arg : OsString} (hdash : arg ≠ os "--") (h : optionTakesValue arg = false)
    (rest : List OsString) : cut (arg :: rest) = (.one arg :: (cut rest).1, (cut rest).2) := by
  rw [cut_cons, if_neg hdash, if_neg (by rw [h]; decide)]

/-- A vector has one cut. -/
theorem Cut.unique {args : List OsString} {ts : List Token} {tail : List OsString}
    (h : Cut args ts tail) : tokens args = ts ∧ tailOf args = tail := by
  obtain ⟨rfl, hclean, hclosed⟩ := h
  unfold tokens tailOf
  induction ts with
  | nil =>
    rw [flat_nil, List.nil_append]
    rcases hclosed with rfl | ⟨arg, rfl, hvalue⟩ | hdash
    · exact ⟨rfl, rfl⟩
    · rw [cut_lone hvalue]
      exact ⟨rfl, rfl⟩
    · obtain ⟨rest, rfl⟩ := List.head?_eq_some_iff.mp hdash
      rw [cut_dashes]
      exact ⟨rfl, rfl⟩
  | cons t ts ih =>
    obtain ⟨ht, hclean⟩ := List.forall_mem_cons.mp hclean
    obtain ⟨htokens, htail⟩ := ih hclean
    cases t with
    | one arg =>
      rw [flat_one, List.cons_append, cut_one ht.1 ht.2, htokens, htail]
      exact ⟨rfl, rfl⟩
    | two arg value =>
      rw [flat_two, List.cons_append, List.cons_append, cut_two ht, htokens, htail]
      exact ⟨rfl, rfl⟩

/-- Rule of induction over a vector, as it is cut. -/
theorem cut_induction {motive : List OsString → Prop} (nil : motive [])
    (dashes : ∀ rest, motive (os "--" :: rest))
    (lone : ∀ arg, optionTakesValue arg = true → motive [arg])
    (two : ∀ arg value rest, optionTakesValue arg = true → motive rest →
      motive (arg :: value :: rest))
    (one : ∀ arg rest, arg ≠ os "--" → optionTakesValue arg = false → motive rest →
      motive (arg :: rest)) (args : List OsString) : motive args := by
  fun_induction cut args with
  | case1 => exact nil
  | case2 rest => exact dashes rest
  | case3 arg hdash hvalue => exact lone arg hvalue
  | case4 arg hdash hvalue value after ih => exact two arg value after hvalue ih
  | case5 arg rest hdash hvalue ih => exact one arg rest hdash (by simpa using hvalue) ih

section

variable {arg : OsString}

/-- No arguments have no tokens. -/
@[simp] theorem tokens_nil : tokens [] = [] := rfl

/-- There are no tokens from `--` on. -/
@[simp] theorem tokens_dashes (rest : List OsString) : tokens (os "--" :: rest) = [] := by
  rw [tokens, cut_dashes]

/-- An option at the end that takes a value gives no token. -/
theorem tokens_lone (h : optionTakesValue arg = true) : tokens [arg] = [] := by
  rw [tokens, cut_lone h]

/-- An option that takes a value gives a token with it. -/
theorem tokens_two (h : optionTakesValue arg = true) (value : OsString) (rest : List OsString) :
    tokens (arg :: value :: rest) = .two arg value :: tokens rest := by
  rw [tokens, cut_two h]
  rfl

/-- Any other argument gives a token of its own. -/
theorem tokens_one (hdash : arg ≠ os "--") (h : optionTakesValue arg = false)
    (rest : List OsString) : tokens (arg :: rest) = .one arg :: tokens rest := by
  rw [tokens, cut_one hdash h]
  rfl

/-- Nothing follows the tokens of no arguments. -/
@[simp] theorem tailOf_nil : tailOf [] = [] := rfl

/-- What follows the tokens starts with `--`, if it is there. -/
@[simp] theorem tailOf_dashes (rest : List OsString) :
    tailOf (os "--" :: rest) = os "--" :: rest := by
  rw [tailOf, cut_dashes]

/-- An option at the end that takes a value follows the tokens. -/
theorem tailOf_lone (h : optionTakesValue arg = true) : tailOf [arg] = [arg] := by
  rw [tailOf, cut_lone h]

/-- An option with its value is not in what follows the tokens. -/
theorem tailOf_two (h : optionTakesValue arg = true) (value : OsString) (rest : List OsString) :
    tailOf (arg :: value :: rest) = tailOf rest := by
  rw [tailOf, cut_two h]
  rfl

/-- Neither is any other argument. -/
theorem tailOf_one (hdash : arg ≠ os "--") (h : optionTakesValue arg = false)
    (rest : List OsString) : tailOf (arg :: rest) = tailOf rest := by
  rw [tailOf, cut_one hdash h]
  rfl

end

/-! ## Selectors -/

/-- Whether a token is a flag. -/
def Token.isFlag (name : String) (t : Token) : Bool := t = .one (os name)

/-- A selector that takes no value. -/
def Plain (name : String) : Prop := os name ≠ os "--" ∧ optionTakesValue (os name) = false

/-- Removing a selector filters the tokens. -/
theorem takeSelector_eq {name : String} (hname : Plain name) (args : List OsString) :
    takeSelector name args =
      ((tokens args).any (·.isFlag name),
        flat ((tokens args).filter fun t => !t.isFlag name) ++ tailOf args) := by
  -- A flag that stands alone takes no value.
  have hne {arg : OsString} (h : optionTakesValue arg = true) : arg ≠ os name := by
    rintro rfl
    rw [hname.2] at h
    cases h
  induction args using cut_induction with
  | nil => rfl
  | dashes rest =>
    rw [takeSelector.eq_def, tokens_dashes, tailOf_dashes]
    dsimp only
    rw [if_pos rfl]
    rfl
  | lone arg h =>
    rw [takeSelector.eq_def, tokens_lone h, tailOf_lone h]
    dsimp only
    rw [if_neg (ne_dashes_of_takesValue h), if_neg (hne h), if_pos h]
    rfl
  | two arg value rest h ih =>
    rw [takeSelector.eq_def, tokens_two h, tailOf_two h]
    dsimp only
    rw [if_neg (ne_dashes_of_takesValue h), if_neg (hne h), if_pos h, ih]
    rfl
  | one arg rest hdash h ih =>
    rw [takeSelector.eq_def, tokens_one hdash h, tailOf_one hdash h]
    dsimp only
    rw [if_neg hdash, if_neg (c := optionTakesValue arg = true) (by rw [h]; decide), ih]
    by_cases harg : arg = os name
    · subst harg
      simp [Token.isFlag]
    · simp [Token.isFlag, harg]

/-- Whether an option satisfies a condition that fails on what ends a vector. -/
theorem anyOption_eq {p : OsString → Bool} (hp : ∀ arg, optionTakesValue arg = true → p arg = false)
    (args : List OsString) : anyOption p args = (tokens args).any fun t => p t.arg := by
  induction args using cut_induction with
  | nil => rfl
  | dashes rest =>
    rw [anyOption.eq_def, tokens_dashes]
    dsimp only
    rw [if_pos rfl]
    rfl
  | lone arg h =>
    rw [anyOption.eq_def, tokens_lone h]
    dsimp only
    rw [if_neg (ne_dashes_of_takesValue h), hp arg h, if_pos h]
    rfl
  | two arg value rest h ih =>
    rw [anyOption.eq_def, tokens_two h]
    dsimp only
    rw [if_neg (ne_dashes_of_takesValue h), hp arg h, if_pos h, ih]
    simp [Token.arg, hp arg h]
  | one arg rest hdash h ih =>
    rw [anyOption.eq_def, tokens_one hdash h]
    dsimp only
    rw [if_neg hdash, ih, h]
    cases harg : p arg <;> simp [Token.arg, harg]

/-! ## Routing flags -/

/-- Whether a token sets an option, by an assignment or with the value after it. -/
def Token.sets (name assignment : String) : Token → Bool
  | .one arg => startsWithOs arg assignment
  | .two arg _ => arg = os name

/-- A token that chooses the provider. -/
def Token.setsProvider (t : Token) : Bool := t.sets "--provider" "--provider="

/-- A token that sets the address of the provider. -/
def Token.setsBaseUrl (t : Token) : Bool := t.sets "--base-url" "--base-url="

/-- The assignments that choose the route. -/
def routingAssignments : List String := ["--provider=", "--base-url="]

/-- What takes a value is no assignment. -/
theorem startsWithOs_of_takesValue {arg : OsString} (h : optionTakesValue arg = true)
    (start : String) (hstart : start ∈ routingAssignments) : startsWithOs arg start = false := by
  have hall : ∀ start ∈ routingAssignments, ∀ option ∈ valueOptions,
      (stripText start option).isSome = false := by
    decide
  unfold optionTakesValue at h
  unfold startsWithOs
  cases htext : fromUtf8 arg with
  | none => rfl
  | some text =>
    rw [htext] at h
    exact hall start hstart text (by simpa using h)

/-- An argument starts with a text when it is UTF-8 and the text can be stripped from it. -/
theorem startsWithOs_eq (arg : OsString) (start : String) :
    startsWithOs arg start = ((fromUtf8 arg).bind (stripText start)).isSome := by
  unfold startsWithOs
  cases fromUtf8 arg <;> rfl

/-- An option that takes a value is not the assignment of one. -/
theorem stripText_of_takesValue {arg : OsString} (h : optionTakesValue arg = true)
    (start : String) (hstart : start ∈ routingAssignments) :
    (fromUtf8 arg).bind (stripText start) = none := by
  have hstarts := startsWithOs_of_takesValue h start hstart
  rw [startsWithOs_eq] at hstarts
  simpa using hstarts

/-- What accepted selections have in common: every flag of an option has a value. -/
structure Accepted (name : String) (args : List OsString) : Prop where
  valued : ∀ value, .two (os name) value ∈ tokens args → isOptionLike value = false
  complete : tailOf args ≠ [os name]

section

variable {name : String} {arg value : OsString} {rest : List OsString}

/-- No arguments are accepted. -/
theorem accepted_nil : Accepted name [] := ⟨by simp, by simp⟩

/-- What is behind `--` is accepted. -/
theorem accepted_dashes (hname : os name ≠ os "--") : Accepted name (os "--" :: rest) := by
  refine ⟨by simp, ?_⟩
  rw [tailOf_dashes]
  intro heq
  injection heq with heq
  exact hname heq.symm

/-- Another option at the end is accepted. -/
theorem accepted_lone (h : optionTakesValue arg = true) (hne : arg ≠ os name) :
    Accepted name [arg] := by
  refine ⟨by simp [tokens_lone h], ?_⟩
  rw [tailOf_lone h]
  simpa using hne

/-- An option with its value in front is accepted, if the value is no option where the option is the
one looked for. -/
theorem Accepted.two (haccepted : Accepted name rest) (h : optionTakesValue arg = true)
    (hvalue : arg = os name → isOptionLike value = false) :
    Accepted name (arg :: value :: rest) := by
  constructor
  · intro value' hmem
    rw [tokens_two h, List.mem_cons] at hmem
    rcases hmem with heq | hmem
    · cases heq
      exact hvalue rfl
    · exact haccepted.valued value' hmem
  · rw [tailOf_two h]
    exact haccepted.complete

/-- The arguments after an option and its value are accepted. -/
theorem Accepted.of_two (haccepted : Accepted name (arg :: value :: rest))
    (h : optionTakesValue arg = true) : Accepted name rest := by
  refine ⟨fun v hv => haccepted.valued v ?_, fun htail => haccepted.complete ?_⟩
  · rw [tokens_two h]
    exact List.mem_cons_of_mem _ hv
  · rw [tailOf_two h, htail]

/-- The arguments after an argument of its own are accepted. -/
theorem Accepted.of_one (haccepted : Accepted name (arg :: rest)) (hdash : arg ≠ os "--")
    (h : optionTakesValue arg = false) : Accepted name rest := by
  refine ⟨fun v hv => haccepted.valued v ?_, fun htail => haccepted.complete ?_⟩
  · rw [tokens_one hdash h]
    exact List.mem_cons_of_mem _ hv
  · rw [tailOf_one hdash h, htail]

/-- An argument of its own in front is accepted. -/
theorem Accepted.one (haccepted : Accepted name rest) (hdash : arg ≠ os "--")
    (h : optionTakesValue arg = false) : Accepted name (arg :: rest) := by
  constructor
  · intro value' hmem
    rw [tokens_one hdash h, List.mem_cons] at hmem
    rcases hmem with heq | hmem
    · cases heq
    · exact haccepted.valued value' hmem
  · rw [tailOf_one hdash h]
    exact haccepted.complete

end

/-! ### One token at a time -/

section

variable {arg value : OsString} {rest : List OsString}

/-- What stands for itself is no option with a value. -/
theorem ne_valueOption (h : optionTakesValue arg = false) :
    arg ≠ os "--provider" ∧ arg ≠ os "--base-url" := by
  constructor
  · rintro rfl
    revert h
    decide
  · rintro rfl
    revert h
    decide

/-- The scan for the provider, one argument at a time. -/
theorem removeProvider_cons (selected : Option PublicProvider) (arg : OsString)
    (rest : List OsString) :
    removeProvider selected (arg :: rest) =
      if arg = os "--" then .ok (selected, arg :: rest)
      else if arg = os "--provider" then
        match rest with
        | [] => .error "--provider requires the value 'codex' or 'zai'"
        | value :: after =>
          if isOptionLike value then .error "--provider requires the value 'codex' or 'zai'"
          else (selectPublicProvider selected value).bind fun selected =>
            removeProvider selected after
      else match (fromUtf8 arg).bind (stripText "--provider=") with
        | some value =>
          (selectPublicProvider selected (os value)).bind fun selected =>
            removeProvider selected rest
        | none =>
          if optionTakesValue arg then
            match rest with
            | [] => .ok (selected, [arg])
            | value :: after =>
              (removeProvider selected after).map fun r => (r.1, arg :: value :: r.2)
          else (removeProvider selected rest).map fun r => (r.1, arg :: r.2) :=
  removeProvider.eq_def _ _

/-- The scan stops at `--`. -/
theorem removeProvider_dashes (selected : Option PublicProvider) (rest : List OsString) :
    removeProvider selected (os "--" :: rest) = .ok (selected, os "--" :: rest) := by
  rw [removeProvider_cons]
  exact if_pos rfl

/-- The scan at an option that takes a value. -/
theorem removeProvider_two (selected : Option PublicProvider) (h : optionTakesValue arg = true) :
    removeProvider selected (arg :: value :: rest) =
      if arg = os "--provider" then
        if isOptionLike value then .error "--provider requires the value 'codex' or 'zai'"
        else (selectPublicProvider selected value).bind fun selected => removeProvider selected rest
      else (removeProvider selected rest).map fun r => (r.1, arg :: value :: r.2) := by
  rw [removeProvider_cons]
  dsimp only
  rw [if_neg (ne_dashes_of_takesValue h), stripText_of_takesValue h "--provider=" (by decide),
    if_pos (c := optionTakesValue arg = true) h]

/-- The scan at any other argument. -/
theorem removeProvider_one (selected : Option PublicProvider) (hdash : arg ≠ os "--")
    (h : optionTakesValue arg = false) :
    removeProvider selected (arg :: rest) =
      match (fromUtf8 arg).bind (stripText "--provider=") with
      | some value =>
        (selectPublicProvider selected (os value)).bind fun selected => removeProvider selected rest
      | none => (removeProvider selected rest).map fun r => (r.1, arg :: r.2) := by
  rw [removeProvider_cons, if_neg hdash, if_neg (ne_valueOption h).1]
  cases (fromUtf8 arg).bind (stripText "--provider=") with
  | some value => rfl
  | none => exact if_neg (c := optionTakesValue arg = true) (by rw [h]; decide)

/-- The scan for the address, one argument at a time. -/
theorem cliBaseUrl_cons (cliValue : Option OsString) (arg : OsString) (rest : List OsString) :
    cliBaseUrl cliValue (arg :: rest) =
      if arg = os "--" then .ok cliValue
      else if arg = os "--base-url" then
        match rest with
        | [] => .error "--base-url requires a value"
        | value :: after =>
          if value = [] || isOptionLike value then .error "--base-url requires a non-empty value"
          else (mergeCliBaseUrl cliValue value).bind fun cliValue => cliBaseUrl cliValue after
      else match (fromUtf8 arg).bind (stripText "--base-url=") with
        | some value =>
          if value = "" then .error "--base-url requires a non-empty value"
          else (mergeCliBaseUrl cliValue (os value)).bind fun cliValue => cliBaseUrl cliValue rest
        | none =>
          if optionTakesValue arg then
            match rest with
            | [] => .ok cliValue
            | _ :: after => cliBaseUrl cliValue after
          else cliBaseUrl cliValue rest :=
  cliBaseUrl.eq_def _ _

/-- The scan stops at `--`. -/
theorem cliBaseUrl_dashes (cliValue : Option OsString) (rest : List OsString) :
    cliBaseUrl cliValue (os "--" :: rest) = .ok cliValue := by
  rw [cliBaseUrl_cons]
  exact if_pos rfl

/-- The scan at an option that takes a value. -/
theorem cliBaseUrl_two (cliValue : Option OsString) (h : optionTakesValue arg = true) :
    cliBaseUrl cliValue (arg :: value :: rest) =
      if arg = os "--base-url" then
        if value = [] || isOptionLike value then .error "--base-url requires a non-empty value"
        else (mergeCliBaseUrl cliValue value).bind fun cliValue => cliBaseUrl cliValue rest
      else cliBaseUrl cliValue rest := by
  rw [cliBaseUrl_cons]
  dsimp only
  rw [if_neg (ne_dashes_of_takesValue h), stripText_of_takesValue h "--base-url=" (by decide),
    if_pos (c := optionTakesValue arg = true) h]

/-- The scan at any other argument. -/
theorem cliBaseUrl_one (cliValue : Option OsString) (hdash : arg ≠ os "--")
    (h : optionTakesValue arg = false) :
    cliBaseUrl cliValue (arg :: rest) =
      match (fromUtf8 arg).bind (stripText "--base-url=") with
      | some value =>
        if value = "" then .error "--base-url requires a non-empty value"
        else (mergeCliBaseUrl cliValue (os value)).bind fun cliValue => cliBaseUrl cliValue rest
      | none => cliBaseUrl cliValue rest := by
  rw [cliBaseUrl_cons, if_neg hdash, if_neg (ne_valueOption h).2]
  cases (fromUtf8 arg).bind (stripText "--base-url=") with
  | some value => rfl
  | none => exact if_neg (c := optionTakesValue arg = true) (by rw [h]; decide)

/-- The removal of what chooses a provider, one argument at a time. -/
theorem removeRouting_cons (arg : OsString) (rest : List OsString) :
    removeRouting (arg :: rest) =
      if arg = os "--" then arg :: rest
      else if (arg = os "--provider" || arg = os "--base-url") &&
          rest.head?.any fun value => !isOptionLike value then
        match rest with
        | [] => []
        | _ :: after => removeRouting after
      else if startsWithOs arg "--provider=" || startsWithOs arg "--base-url=" then
        removeRouting rest
      else if optionTakesValue arg then
        match rest with
        | [] => [arg]
        | value :: after => arg :: value :: removeRouting after
      else arg :: removeRouting rest :=
  removeRouting.eq_def _

/-- The removal stops at `--`. -/
theorem removeRouting_dashes (rest : List OsString) :
    removeRouting (os "--" :: rest) = os "--" :: rest := by
  rw [removeRouting_cons]
  exact if_pos rfl

/-- The removal at an option that takes a value. -/
theorem removeRouting_two (h : optionTakesValue arg = true) :
    removeRouting (arg :: value :: rest) =
      if (arg = os "--provider" || arg = os "--base-url") && !isOptionLike value then
        removeRouting rest
      else arg :: value :: removeRouting rest := by
  rw [removeRouting_cons]
  dsimp only
  rw [if_neg (ne_dashes_of_takesValue h), startsWithOs_of_takesValue h "--provider=" (by decide),
    startsWithOs_of_takesValue h "--base-url=" (by decide),
    if_pos (c := optionTakesValue arg = true) h]
  rfl

/-- The removal at any other argument. -/
theorem removeRouting_one (hdash : arg ≠ os "--") (h : optionTakesValue arg = false) :
    removeRouting (arg :: rest) =
      if startsWithOs arg "--provider=" || startsWithOs arg "--base-url=" then removeRouting rest
      else arg :: removeRouting rest := by
  obtain ⟨hprovider, hbase⟩ := ne_valueOption h
  rw [removeRouting_cons, if_neg hdash, if_neg (by simp [hprovider, hbase]),
    if_neg (c := optionTakesValue arg = true) (by rw [h]; decide)]

end

/-- What is left of arguments whose provider is accepted. -/
theorem removeProvider_ok {selected selected' : Option PublicProvider}
    {args remaining : List OsString}
    (hok : removeProvider selected args = .ok (selected', remaining)) :
    remaining = flat ((tokens args).filter fun t => !t.setsProvider) ++ tailOf args ∧
      Accepted "--provider" args := by
  induction args using cut_induction generalizing selected selected' remaining with
  | nil =>
    cases hok
    exact ⟨rfl, accepted_nil⟩
  | dashes rest =>
    rw [removeProvider_dashes] at hok
    cases hok
    rw [tokens_dashes, tailOf_dashes]
    exact ⟨rfl, accepted_dashes (by decide)⟩
  | lone arg h =>
    rw [removeProvider_cons] at hok
    dsimp only at hok
    rw [if_neg (ne_dashes_of_takesValue h), stripText_of_takesValue h "--provider=" (by decide),
      if_pos h] at hok
    split_ifs at hok with hprovider
    cases hok
    rw [tokens_lone h, tailOf_lone h]
    exact ⟨rfl, accepted_lone h hprovider⟩
  | two arg value rest h ih =>
    rw [removeProvider_two selected h] at hok
    rw [tokens_two h, tailOf_two h]
    -- The option and its value go together, or both stay.
    by_cases hprovider : arg = os "--provider"
    · rw [if_pos hprovider] at hok
      by_cases hvalue : isOptionLike value = true
      · rw [if_pos hvalue] at hok
        cases hok
      · rw [if_neg hvalue] at hok
        cases hselect : selectPublicProvider selected value with
        | error reason =>
          rw [hselect] at hok
          cases hok
        | ok selected₁ =>
          rw [hselect] at hok
          obtain ⟨hremaining, haccepted⟩ := ih hok
          refine ⟨?_, haccepted.two h fun _ => by simpa using hvalue⟩
          rw [hremaining, List.filter_cons_of_neg (by simpa [Token.setsProvider, Token.sets] using hprovider)]
    · rw [if_neg hprovider] at hok
      cases hrest : removeProvider selected rest with
      | error reason =>
        rw [hrest] at hok
        cases hok
      | ok r =>
        rw [hrest] at hok
        cases hok
        obtain ⟨hremaining, haccepted⟩ := ih hrest
        refine ⟨?_, haccepted.two h fun heq => absurd heq hprovider⟩
        rw [hremaining, List.filter_cons_of_pos (by simpa [Token.setsProvider, Token.sets] using hprovider)]
        rfl
  | one arg rest hdash h ih =>
    rw [removeProvider_one selected hdash h] at hok
    rw [tokens_one hdash h, tailOf_one hdash h]
    have hsets : Token.setsProvider (.one arg) =
        ((fromUtf8 arg).bind (stripText "--provider=")).isSome := startsWithOs_eq arg _
    cases hstrip : (fromUtf8 arg).bind (stripText "--provider=") with
    | some value =>
      rw [hstrip] at hok hsets
      -- The value is part of the argument, which goes as a whole.
      cases hselect : selectPublicProvider selected (os value) with
      | error reason =>
        dsimp only at hok
        rw [hselect] at hok
        cases hok
      | ok selected₁ =>
        dsimp only at hok
        rw [hselect] at hok
        obtain ⟨hremaining, haccepted⟩ := ih hok
        refine ⟨?_, haccepted.one hdash h⟩
        rw [hremaining, List.filter_cons_of_neg (by simp [hsets])]
    | none =>
      rw [hstrip] at hok hsets
      dsimp only at hok
      cases hrest : removeProvider selected rest with
      | error reason =>
        rw [hrest] at hok
        cases hok
      | ok r =>
        rw [hrest] at hok
        cases hok
        obtain ⟨hremaining, haccepted⟩ := ih hrest
        refine ⟨?_, haccepted.one hdash h⟩
        rw [hremaining, List.filter_cons_of_pos (by simp [hsets])]
        rfl

/-- What arguments whose upstream is accepted are like. -/
theorem cliBaseUrl_ok {cliValue cliValue' : Option OsString} {args : List OsString}
    (hok : cliBaseUrl cliValue args = .ok cliValue') : Accepted "--base-url" args := by
  induction args using cut_induction generalizing cliValue with
  | nil => exact accepted_nil
  | dashes rest => exact accepted_dashes (by decide)
  | lone arg h =>
    rw [cliBaseUrl_cons] at hok
    dsimp only at hok
    rw [if_neg (ne_dashes_of_takesValue h)] at hok
    split_ifs at hok with hbase
    exact accepted_lone h hbase
  | two arg value rest h ih =>
    rw [cliBaseUrl_two cliValue h] at hok
    by_cases hbase : arg = os "--base-url"
    · rw [if_pos hbase] at hok
      split at hok
      · cases hok
      · rename_i hvalue
        rw [Bool.or_eq_true, not_or] at hvalue
        cases hmerge : mergeCliBaseUrl cliValue value with
        | error reason =>
          rw [hmerge] at hok
          cases hok
        | ok cliValue₁ =>
          rw [hmerge] at hok
          exact (ih hok).two h fun _ => by simpa using hvalue.2
    · rw [if_neg hbase] at hok
      -- Any other option takes its value with it.
      exact (ih hok).two h fun heq => absurd heq hbase
  | one arg rest hdash h ih =>
    rw [cliBaseUrl_one cliValue hdash h] at hok
    cases hstrip : (fromUtf8 arg).bind (stripText "--base-url=") with
    | some value =>
      rw [hstrip] at hok
      dsimp only at hok
      split at hok
      · cases hok
      · cases hmerge : mergeCliBaseUrl cliValue (os value) with
        | error reason =>
          rw [hmerge] at hok
          cases hok
        | ok cliValue₁ =>
          rw [hmerge] at hok
          exact (ih hok).one hdash h
    | none =>
      rw [hstrip] at hok
      exact (ih hok).one hdash h

/-- Whether a token chooses the route. -/
def Token.routes (t : Token) : Bool := t.setsProvider || t.setsBaseUrl

/-- Removing the routing flags of accepted arguments filters the tokens. -/
theorem removeRouting_eq {args : List OsString} (hprovider : Accepted "--provider" args)
    (hbase : Accepted "--base-url" args) :
    removeRouting args = flat ((tokens args).filter fun t => !t.routes) ++ tailOf args := by
  induction args using cut_induction with
  | nil => rfl
  | dashes rest =>
    rw [removeRouting_dashes, tokens_dashes, tailOf_dashes]
    rfl
  | lone arg h =>
    rw [removeRouting_cons, tokens_lone h, tailOf_lone h]
    dsimp only
    rw [if_neg (ne_dashes_of_takesValue h),
      startsWithOs_of_takesValue h "--provider=" (by decide),
      startsWithOs_of_takesValue h "--base-url=" (by decide), if_pos h]
    simp
  | two arg value rest h ih =>
    have hmem : .two arg value ∈ tokens (arg :: value :: rest) := by
      rw [tokens_two h]
      exact List.mem_cons_self
    rw [removeRouting_two h, tokens_two h, tailOf_two h, ih (hprovider.of_two h) (hbase.of_two h)]
    by_cases hroute : arg = os "--provider" ∨ arg = os "--base-url"
    · -- Both options were accepted with a value behind them.
      have hvalue : isOptionLike value = false := by
        rcases hroute with rfl | rfl
        · exact hprovider.valued value hmem
        · exact hbase.valued value hmem
      have hroutes : Token.routes (.two arg value) = true := by
        simpa [Token.routes, Token.setsProvider, Token.setsBaseUrl, Token.sets] using hroute
      rw [if_pos (by simpa [hvalue] using hroute), List.filter_cons_of_neg (by simp [hroutes])]
    · have hroutes : Token.routes (.two arg value) = false := by
        simpa [Token.routes, Token.setsProvider, Token.setsBaseUrl, Token.sets] using hroute
      rw [if_neg (by simpa using fun h => absurd h hroute),
        List.filter_cons_of_pos (by simp [hroutes])]
      rfl
  | one arg rest hdash h ih =>
    have hroutes : Token.routes (.one arg) =
        (startsWithOs arg "--provider=" || startsWithOs arg "--base-url=") := rfl
    rw [removeRouting_one hdash h, tokens_one hdash h, tailOf_one hdash h,
      ih (hprovider.of_one hdash h) (hbase.of_one hdash h), ← hroutes]
    by_cases hroute : Token.routes (.one arg) = true
    · rw [if_pos hroute, List.filter_cons_of_neg (by simp [hroute])]
    · rw [if_neg hroute, List.filter_cons_of_pos (by simp [hroute])]
      rfl

end MuseCodex.Launcher
