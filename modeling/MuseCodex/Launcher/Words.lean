import MuseCodex.Launcher.Positions

/-!
# The first word of a vector

The command of a vector is its first word, if that names one: the first token that is no option and
not the mode of a worktree. A mode belongs to `-w` or `--worktree` only when it stands directly
after it, so removing selectors from a vector can change its first word: when selectors stand
between the option and a mode, the mode is the first word before they are removed and belongs to
the option afterwards. `Severed` describes these vectors, and they are the only ones whose first
word changes (`command_filter`).
-/

namespace MuseCodex.Launcher

open Text

/-! ## Reading -/

/-- A first word, with the tokens before and after it. -/
structure Reading where
  before : List Token
  word : OsString
  after : List Token

/-- A reading behind more tokens. -/
def Reading.behind (ts : List Token) (r : Reading) : Reading := { r with before := ts ++ r.before }

/-- Whether the first token is the mode of a worktree. -/
def startsWithMode : List Token → Bool
  | .one arg :: _ => isWorktreeMode arg
  | _ => false

/-- Reads the first word. -/
def readWord : List Token → Option Reading
  | [] => none
  | .two arg value :: ts => (readWord ts).map (Reading.behind [.two arg value])
  | .one arg :: ts =>
    if isWorktree arg then
      if startsWithMode ts then
        match ts with
        | [] => none
        | t :: after => (readWord after).map (Reading.behind [.one arg, t])
      else (readWord ts).map (Reading.behind [.one arg])
    else if isOptionLike arg then (readWord ts).map (Reading.behind [.one arg])
    else some ⟨[], arg, ts⟩

/-- The first word of some tokens. -/
def firstWord (ts : List Token) : Option OsString := (readWord ts).map Reading.word

/-- The command of some tokens: their first word, if it is one. -/
def command (ts : List Token) : Option OsString := (firstWord ts).filter (isOneOf stockCommands)

/-- A mode of worktrees is a word of its own, and no command. -/
theorem mode_facts {arg : OsString} (h : isWorktreeMode arg = true) :
    arg ≠ os "--" ∧ optionTakesValue arg = false ∧ isWorktree arg = false ∧
      isOptionLike arg = false ∧ isOneOf stockCommands arg = false := by
  unfold isWorktreeMode at h
  simp only [Bool.or_eq_true, decide_eq_true_eq] at h
  rcases h with (rfl | rfl) | rfl <;> decide

/-- The option for a worktree is an option that takes no value by itself. -/
theorem worktree_facts {arg : OsString} (h : isWorktree arg = true) :
    arg ≠ os "--" ∧ optionTakesValue arg = false ∧ isOptionLike arg = true := by
  unfold isWorktree at h
  simp only [Bool.or_eq_true, decide_eq_true_eq] at h
  rcases h with rfl | rfl <;> decide

section

variable {arg value : OsString} {ts : List Token}

/-- An option with its value is passed over. -/
@[simp] theorem readWord_two : readWord (.two arg value :: ts) =
    (readWord ts).map (Reading.behind [.two arg value]) := by
  rw [readWord.eq_def]

/-- The option for a worktree is passed over with its mode. -/
theorem readWord_mode {mode : OsString} (harg : isWorktree arg = true)
    (hmode : isWorktreeMode mode = true) : readWord (.one arg :: .one mode :: ts) =
      (readWord ts).map (Reading.behind [.one arg, .one mode]) := by
  have hstarts : startsWithMode (.one mode :: ts) = true := hmode
  rw [readWord.eq_def]
  dsimp only
  rw [if_pos harg, if_pos hstarts]

/-- The option for a worktree without a mode is passed over. -/
theorem readWord_worktree (harg : isWorktree arg = true) (hmode : startsWithMode ts = false) :
    readWord (.one arg :: ts) = (readWord ts).map (Reading.behind [.one arg]) := by
  rw [readWord.eq_def]
  dsimp only
  rw [if_pos harg, if_neg (by rw [hmode]; decide)]

/-- Any other option is passed over. -/
theorem readWord_option (harg : isWorktree arg = false) (hoption : isOptionLike arg = true) :
    readWord (.one arg :: ts) = (readWord ts).map (Reading.behind [.one arg]) := by
  rw [readWord.eq_def]
  dsimp only
  rw [if_neg (by rw [harg]; decide), if_pos hoption]

/-- Anything else is the word. -/
theorem readWord_word (hoption : isOptionLike arg = false) :
    readWord (.one arg :: ts) = some ⟨[], arg, ts⟩ := by
  have harg : ¬isWorktree arg = true := fun h => by
    rw [(worktree_facts h).2.2] at hoption
    cases hoption
  rw [readWord.eq_def]
  dsimp only
  rw [if_neg harg, if_neg (by rw [hoption]; decide)]

end

/-- Rule of induction over tokens, as they are read. -/
theorem read_induction {motive : List Token → Prop} (nil : motive [])
    (two : ∀ arg value ts, motive ts → motive (.two arg value :: ts))
    (mode : ∀ arg mode ts, isWorktree arg = true → isWorktreeMode mode = true → motive ts →
      motive (.one arg :: .one mode :: ts))
    (worktree : ∀ arg ts, isWorktree arg = true → startsWithMode ts = false → motive ts →
      motive (.one arg :: ts))
    (option : ∀ arg ts, isWorktree arg = false → isOptionLike arg = true → motive ts →
      motive (.one arg :: ts))
    (word : ∀ arg ts, isOptionLike arg = false → motive (.one arg :: ts)) (ts : List Token) :
    motive ts := by
  fun_induction readWord ts with
  | case1 => exact nil
  | case2 arg value ts ih => exact two arg value ts ih
  | case3 arg harg hmode => cases hmode
  | case4 arg harg t after hmode ih =>
    cases t with
    | one m => exact mode arg m after harg hmode ih
    | two => cases hmode
  | case5 arg ts harg hmode ih => exact worktree arg ts harg (by simpa using hmode) ih
  | case6 arg ts harg hoption ih => exact option arg ts (by simpa using harg) hoption ih
  | case7 arg ts harg hoption => exact word arg ts (by simpa using hoption)

/-- What a reading says. -/
theorem readWord_eq {ts : List Token} {r : Reading} (h : readWord ts = some r) :
    ts = r.before ++ .one r.word :: r.after ∧ isOptionLike r.word = false := by
  induction ts using read_induction generalizing r with
  | nil => cases h
  | two arg value ts ih =>
    rw [readWord_two] at h
    obtain ⟨r', hr', rfl⟩ := Option.map_eq_some_iff.mp h
    obtain ⟨rfl, hword⟩ := ih hr'
    exact ⟨rfl, hword⟩
  | mode arg mode ts harg hmode ih =>
    rw [readWord_mode harg hmode] at h
    obtain ⟨r', hr', rfl⟩ := Option.map_eq_some_iff.mp h
    obtain ⟨rfl, hword⟩ := ih hr'
    exact ⟨rfl, hword⟩
  | worktree arg ts harg hmode ih =>
    rw [readWord_worktree harg hmode] at h
    obtain ⟨r', hr', rfl⟩ := Option.map_eq_some_iff.mp h
    obtain ⟨rfl, hword⟩ := ih hr'
    exact ⟨rfl, hword⟩
  | option arg ts harg hoption ih =>
    rw [readWord_option harg hoption] at h
    obtain ⟨r', hr', rfl⟩ := Option.map_eq_some_iff.mp h
    obtain ⟨rfl, hword⟩ := ih hr'
    exact ⟨rfl, hword⟩
  | word arg ts hoption =>
    rw [readWord_word hoption] at h
    cases h
    exact ⟨rfl, hoption⟩

/-! ## The scanner reads the first word -/

/-- Only a token of its own is a mode. -/
theorem head_isWorktreeMode (args : List OsString) :
    args.head?.any isWorktreeMode = startsWithMode (tokens args) := by
  have hvalue {arg : OsString} (h : optionTakesValue arg = true) : isWorktreeMode arg = false := by
    by_contra hmode
    rw [Bool.not_eq_false] at hmode
    rw [(mode_facts hmode).2.1] at h
    cases h
  induction args using cut_induction with
  | nil => rfl
  | dashes rest =>
    have hdashes : isWorktreeMode (os "--") = false := by decide
    rw [tokens_dashes]
    exact hdashes
  | lone arg h =>
    rw [tokens_lone h]
    exact hvalue h
  | two arg value rest h _ =>
    rw [tokens_two h]
    exact hvalue h
  | one arg rest hdash h _ =>
    rw [tokens_one hdash h]
    rfl

/-- The position that a scan finds is that of the first word, if it is a command. -/
theorem stockSubcommandFrom_eq (index : ℕ) (args : List OsString) :
    stockSubcommandFrom index args = (readWord (tokens args)).bind fun r =>
      if isOneOf stockCommands r.word then some (index + (flat r.before).length) else none := by
  have hbehind (index : ℕ) (r : Option Reading) (ts : List Token) :
      (r.bind fun r => if isOneOf stockCommands r.word
        then some (index + (flat ts).length + (flat r.before).length) else none) =
      (r.map (Reading.behind ts)).bind fun r => if isOneOf stockCommands r.word
        then some (index + (flat r.before).length) else none := by
    cases r with
    | none => rfl
    | some r =>
      simp only [Option.bind_some, Option.map_some, Reading.behind, flat_append,
        List.length_append, Nat.add_assoc]
  fun_induction stockSubcommandFrom index args with
  | case1 => rfl
  | case2 index rest => rw [tokens_dashes]; rfl
  | case3 index arg hdash h => rw [tokens_lone h]; rfl
  | case4 index arg hdash h value after ih =>
    rw [tokens_two h, readWord_two, ih]
    exact hbehind index _ [.two arg value]
  | case5 index arg hdash h harg hmode => cases hmode
  | case6 index arg hdash h harg value after hmode ih =>
    have hvalue : isWorktreeMode value = true := hmode
    obtain ⟨hdash', h', -⟩ := mode_facts hvalue
    rw [tokens_one hdash (by simpa using h), tokens_one hdash' h', readWord_mode harg hvalue, ih]
    exact hbehind index _ [.one arg, .one value]
  | case7 index arg rest hdash h harg hmode ih =>
    rw [head_isWorktreeMode, Bool.not_eq_true] at hmode
    rw [tokens_one hdash (by simpa using h), readWord_worktree harg hmode, ih]
    exact hbehind index _ [.one arg]
  | case8 index arg rest hdash h harg hoption ih =>
    rw [tokens_one hdash (by simpa using h), readWord_option (by simpa using harg) hoption, ih]
    exact hbehind index _ [.one arg]
  | case9 index arg rest hdash h harg hoption hcommand =>
    rw [tokens_one hdash (by simpa using h), readWord_word (by simpa using hoption)]
    simp [hcommand]
  | case10 index arg rest hdash h harg hoption hcommand =>
    rw [tokens_one hdash (by simpa using h), readWord_word (by simpa using hoption)]
    simp [hcommand]

/-- Where a scan finds a command. -/
theorem stockSubcommandIndex_eq_some {args : List OsString} {index : ℕ}
    (h : stockSubcommandIndex args = some index) :
    ∃ before word after, tokens args = before ++ .one word :: after ∧
      command (tokens args) = some word ∧ index = (flat before).length ∧
      args[index]? = some word := by
  rw [stockSubcommandIndex, stockSubcommandFrom_eq] at h
  obtain ⟨r, hr, hindex⟩ := Option.bind_eq_some_iff.mp h
  split_ifs at hindex with hcommand
  cases hindex
  obtain ⟨htokens, -⟩ := readWord_eq hr
  refine ⟨r.before, r.word, r.after, htokens, ?_, Nat.zero_add _, ?_⟩
  · rw [command, firstWord, hr]
    simp [hcommand]
  · have hargs := (cut_spec args).eq
    rw [htokens, flat_append, flat_one, List.append_assoc] at hargs
    rw [hargs, Nat.zero_add, List.getElem?_append_right (Nat.le_refl _), Nat.sub_self]
    rfl

/-- Without an index there is no command. -/
theorem stockSubcommandIndex_eq_none {args : List OsString}
    (h : stockSubcommandIndex args = none) : command (tokens args) = none := by
  rw [stockSubcommandIndex, stockSubcommandFrom_eq] at h
  unfold command firstWord
  cases hr : readWord (tokens args) with
  | none => rfl
  | some r =>
    rw [hr, Option.bind_some] at h
    split_ifs at h with hcommand
    simp [hcommand]

/-- The command that a scan finds is that of the tokens. -/
theorem stockSubcommand_eq (args : List OsString) : stockSubcommand args = command (tokens args) := by
  unfold stockSubcommand
  cases h : stockSubcommandIndex args with
  | none => rw [stockSubcommandIndex_eq_none h]; rfl
  | some index =>
    obtain ⟨before, word, after, -, hcommand, -, hword⟩ := stockSubcommandIndex_eq_some h
    rw [hcommand, Option.bind_some, hword]

/-! ## Removing selectors -/

/-- A token that no reading of words depends on: an option, but not that of a worktree. -/
def Token.Inert : Token → Prop
  | .one arg => isOptionLike arg = true ∧ isWorktree arg = false
  | .two _ _ => True

/-- Before the first word, the option of a worktree is separated from a mode by selectors only. -/
def Severed (selector : Token → Bool) (ts after : List Token) : Prop :=
  ∃ before arg gap mode, ts = before ++ .one arg :: (gap ++ .one mode :: after) ∧
    firstWord before = none ∧ isWorktree arg = true ∧ isWorktreeMode mode = true ∧
    gap ≠ [] ∧ ∀ t ∈ gap, selector t = true

section

variable {selector : Token → Bool} {arg : OsString} {ts after : List Token}

/-- What is passed over has no part in the word. -/
@[simp] theorem firstWord_map_behind (r : Option Reading) (ts : List Token) :
    (r.map (Reading.behind ts)).map Reading.word = r.map Reading.word := by
  cases r <;> rfl

/-- Inert tokens are skipped. -/
theorem firstWord_inert {t : Token} (ht : t.Inert) : firstWord (t :: ts) = firstWord ts := by
  cases t with
  | one arg => rw [firstWord, readWord_option ht.2 ht.1, firstWord_map_behind, firstWord]
  | two arg value => rw [firstWord, readWord_two, firstWord_map_behind, firstWord]

/-- The option for a worktree without a mode is not the first word. -/
theorem firstWord_worktree (harg : isWorktree arg = true) (hmode : startsWithMode ts = false) :
    firstWord (.one arg :: ts) = firstWord ts := by
  rw [firstWord, readWord_worktree harg hmode, firstWord_map_behind, firstWord]

/-- Neither is the mode of a worktree. -/
theorem firstWord_mode {mode : OsString} (harg : isWorktree arg = true)
    (hmode : isWorktreeMode mode = true) :
    firstWord (.one arg :: .one mode :: ts) = firstWord ts := by
  rw [firstWord, readWord_mode harg hmode, firstWord_map_behind, firstWord]

/-- An argument that is no option is the first word. -/
theorem firstWord_word (hoption : isOptionLike arg = false) :
    firstWord (.one arg :: ts) = some arg := by
  rw [firstWord, readWord_word hoption]
  rfl

/-- Inert tokens have no part in the first word. -/
theorem firstWord_gap {gap : List Token} (hgap : ∀ t ∈ gap, t.Inert) :
    firstWord (gap ++ ts) = firstWord ts := by
  induction gap with
  | nil => rfl
  | cons t gap ih =>
    obtain ⟨ht, hgap⟩ := List.forall_mem_cons.mp hgap
    rw [List.cons_append, firstWord_inert ht, ih hgap]

/-- A place before which a token is skipped. -/
theorem severed_cons {t : Token} (hone : ∀ arg, t = .one arg → isWorktree arg = false)
    (hskip : ∀ ts, firstWord (t :: ts) = firstWord ts) :
    Severed selector (t :: ts) after ↔ Severed selector ts after := by
  constructor
  · rintro ⟨before, arg, gap, mode, heq, hbefore, harg, hrest⟩
    cases before with
    | nil =>
      injection heq with ht
      rw [hone arg ht] at harg
      cases harg
    | cons t' before =>
      injection heq with ht heq
      subst ht
      rw [hskip] at hbefore
      exact ⟨before, arg, gap, mode, heq, hbefore, harg, hrest⟩
  · rintro ⟨before, arg, gap, mode, rfl, hbefore, hrest⟩
    exact ⟨t :: before, arg, gap, mode, rfl, by rw [hskip, hbefore], hrest⟩

/-- A word is not skipped. -/
theorem not_severed_word (hoption : isOptionLike arg = false) :
    ¬Severed selector (.one arg :: ts) after := by
  rintro ⟨before, arg', gap, mode, heq, hbefore, harg', -⟩
  cases before with
  | nil =>
    injection heq with ht
    injection ht with ht
    rw [← ht] at harg'
    rw [(worktree_facts harg').2.2] at hoption
    cases hoption
  | cons t before =>
    injection heq with ht
    rw [← ht, firstWord_word hoption] at hbefore
    cases hbefore

/-- Only inert tokens are selected. -/
theorem not_selected (hselector : ∀ t, selector t = true → t.Inert) {t : Token} (ht : ¬t.Inert) :
    selector t = false := by
  by_contra hselected
  exact ht (hselector t (by simpa using hselected))

/-- A word is not inert. -/
theorem word_not_inert (hoption : isOptionLike arg = false) : ¬(Token.one arg).Inert :=
  fun h => Bool.false_ne_true (hoption.symm.trans h.1)

/-- A mode of worktrees is not inert. -/
theorem mode_not_inert (hmode : isWorktreeMode arg = true) : ¬(Token.one arg).Inert :=
  word_not_inert (mode_facts hmode).2.2.2.1

/-- The option for a worktree is not inert. -/
theorem worktree_not_inert (harg : isWorktree arg = true) : ¬(Token.one arg).Inert :=
  fun h => Bool.false_ne_true (h.2.symm.trans harg)

/-- A mode that follows its option is skipped with it. -/
theorem severed_mode {mode : OsString} (hselector : ∀ t, selector t = true → t.Inert)
    (harg : isWorktree arg = true) (hmode : isWorktreeMode mode = true) :
    Severed selector (.one arg :: .one mode :: ts) after ↔ Severed selector ts after := by
  obtain ⟨-, -, hworktree, hoption, -⟩ := mode_facts hmode
  constructor
  · rintro ⟨before, arg', gap, mode', heq, hbefore, harg', hmode', hne, hgap⟩
    match before with
    | [] =>
      -- The gap would start with the mode, which is no selector.
      obtain ⟨t, gap, rfl⟩ := List.exists_cons_of_ne_nil hne
      injection heq with _ heq
      injection heq with ht
      have hinert := hselector t (hgap t List.mem_cons_self)
      rw [← ht] at hinert
      exact absurd hinert (mode_not_inert hmode)
    | [t] =>
      injection heq with _ heq
      injection heq with ht
      injection ht with ht
      rw [← ht, hworktree] at harg'
      cases harg'
    | t :: t' :: before =>
      injection heq with ht heq
      injection heq with ht' heq
      subst ht ht'
      rw [firstWord_mode harg hmode] at hbefore
      exact ⟨before, arg', gap, mode', heq, hbefore, harg', hmode', hne, hgap⟩
  · rintro ⟨before, arg', gap, mode', rfl, hbefore, hrest⟩
    exact ⟨.one arg :: .one mode :: before, arg', gap, mode', rfl,
      by rw [firstWord_mode harg hmode, hbefore], hrest⟩

/-- The option of a worktree without a mode is severed from one, or is skipped. -/
theorem severed_worktree (harg : isWorktree arg = true) (hmode : startsWithMode ts = false) :
    Severed selector (.one arg :: ts) after ↔
      (∃ gap mode, ts = gap ++ .one mode :: after ∧ isWorktreeMode mode = true ∧ gap ≠ [] ∧
        ∀ t ∈ gap, selector t = true) ∨ Severed selector ts after := by
  constructor
  · rintro ⟨before, arg', gap, mode, heq, hbefore, harg', hmode', hne, hgap⟩
    cases before with
    | nil =>
      injection heq with _ heq
      exact .inl ⟨gap, mode, heq, hmode', hne, hgap⟩
    | cons t before =>
      injection heq with ht heq
      subst ht
      have hstarts : startsWithMode before = false := by
        rw [heq] at hmode
        cases before with
        | nil => rfl
        | cons t before => cases t <;> exact hmode
      rw [firstWord_worktree harg hstarts] at hbefore
      exact .inr ⟨before, arg', gap, mode, heq, hbefore, harg', hmode', hne, hgap⟩
  · rintro (⟨gap, mode, rfl, hmode', hne, hgap⟩ | ⟨before, arg', gap, mode, rfl, hbefore, hrest⟩)
    · exact ⟨[], arg, gap, mode, rfl, rfl, harg, hmode', hne, hgap⟩
    · have hstarts : startsWithMode before = false := by
        cases before with
        | nil => rfl
        | cons t before => cases t <;> exact hmode
      exact ⟨.one arg :: before, arg', gap, mode, rfl,
        by rw [firstWord_worktree harg hstarts, hbefore], hrest⟩

/-- Selectors before a mode are removed. -/
theorem filter_gap (hselector : ∀ t, selector t = true → t.Inert) {gap : List Token}
    (hgap : ∀ t ∈ gap, selector t = true) {mode : OsString} (hmode : isWorktreeMode mode = true) :
    (gap ++ .one mode :: after).filter (fun t => !selector t) =
      .one mode :: after.filter fun t => !selector t := by
  have hkept := not_selected hselector (mode_not_inert hmode)
  have hnone : gap.filter (fun t => !selector t) = [] := by
    rw [List.filter_eq_nil_iff]
    intro t ht
    simp [hgap t ht]
  rw [List.filter_append, hnone, List.nil_append, List.filter_cons_of_pos (by simp [hkept])]

/-- Selectors before a mode do not hide that it is a word. -/
theorem not_severed_gap {gap : List Token} (hgap : ∀ t ∈ gap, t.Inert) {mode : OsString}
    (hmode : isWorktreeMode mode = true) {after' : List Token} :
    ¬Severed selector (gap ++ .one mode :: after) after' := by
  induction gap with
  | nil => exact not_severed_word (mode_facts hmode).2.2.2.1
  | cons t gap ih =>
    obtain ⟨ht, hgap⟩ := List.forall_mem_cons.mp hgap
    rw [List.cons_append, severed_cons ?_ fun _ => firstWord_inert ht]
    · exact ih hgap
    · rintro arg rfl
      exact ht.2

/-- Selectors before a mode are all that can stand between the rest and the mode. -/
theorem filter_startsWithMode (hselector : ∀ t, selector t = true → t.Inert) (hstarts : startsWithMode ts = false)
    (hfilter : startsWithMode (ts.filter fun t => !selector t) = true) :
    ∃ gap mode after, ts = gap ++ .one mode :: after ∧ isWorktreeMode mode = true ∧ gap ≠ [] ∧
      (∀ t ∈ gap, selector t = true) ∧
      ts.filter (fun t => !selector t) = .one mode :: after.filter fun t => !selector t := by
  induction ts with
  | nil => cases hfilter
  | cons t ts ih =>
    by_cases ht : selector t = true
    · rw [List.filter_cons_of_neg (by simp [ht])] at hfilter ⊢
      by_cases hnext : startsWithMode ts = true
      · cases ts with
        | nil => cases hnext
        | cons u ts =>
          cases u with
          | two => cases hnext
          | one mode =>
            have hkept := not_selected hselector (mode_not_inert hnext)
            rw [List.filter_cons_of_pos (by simp [hkept])]
            exact ⟨[t], mode, ts, rfl, hnext, by simp, by simpa using ht, rfl⟩
      · obtain ⟨gap, mode, after, rfl, hmode, hne, hgap, heq⟩ := ih (by simpa using hnext) hfilter
        refine ⟨t :: gap, mode, after, rfl, hmode, by simp, ?_, heq⟩
        rw [List.forall_mem_cons]
        exact ⟨ht, hgap⟩
    · rw [List.filter_cons_of_pos (by simp [ht])] at hfilter
      cases t with
      | two => cases hfilter
      | one arg =>
        rw [show startsWithMode (.one arg :: ts) = isWorktreeMode arg from rfl] at hstarts
        rw [show startsWithMode (.one arg :: _) = isWorktreeMode arg from rfl, hstarts] at hfilter
        cases hfilter

/-- What removing selectors does to the first word: nothing, unless a mode is severed; then the
mode is the first word before, and the first word after it is the first word afterwards. -/
theorem firstWord_filter (hselector : ∀ t, selector t = true → t.Inert) (ts : List Token) :
    (∀ after, Severed selector ts after →
      (∃ mode, isWorktreeMode mode = true ∧ firstWord ts = some mode) ∧
        firstWord (ts.filter fun t => !selector t) =
          firstWord (after.filter fun t => !selector t)) ∧
    ((∀ after, ¬Severed selector ts after) →
      firstWord (ts.filter fun t => !selector t) = firstWord ts) := by
  -- An inert token is skipped, whether it is removed or not.
  have hinert {t : Token} (ht : t.Inert) (ts : List Token) :
      firstWord ((t :: ts).filter fun t => !selector t) =
        firstWord (ts.filter fun t => !selector t) := by
    by_cases hselected : selector t = true
    · rw [List.filter_cons_of_neg (by simp [hselected])]
    · rw [List.filter_cons_of_pos (by simp [hselected]), firstWord_inert ht]
  induction ts using read_induction with
  | nil =>
    refine ⟨?_, fun _ => rfl⟩
    rintro after ⟨before, arg, gap, mode, heq, -⟩
    cases before <;> cases heq
  | two arg value ts ih =>
    have htwo : (Token.two arg value).Inert := trivial
    simp only [severed_cons (t := .two arg value) (by simp) fun _ => firstWord_inert htwo,
      hinert htwo, firstWord_inert htwo]
    exact ih
  | option arg ts harg hoption ih =>
    have hone : (Token.one arg).Inert := ⟨hoption, harg⟩
    have hnot (arg' : OsString) (heq : Token.one arg = .one arg') : isWorktree arg' = false := by
      injection heq with heq
      rw [← heq, harg]
    simp only [severed_cons hnot fun _ => firstWord_inert hone, hinert hone, firstWord_inert hone]
    exact ih
  | mode arg mode ts harg hmode ih =>
    have hkept := not_selected hselector (worktree_not_inert harg)
    have hkept' := not_selected hselector (mode_not_inert hmode)
    rw [List.filter_cons_of_pos (by simp [hkept]), List.filter_cons_of_pos (by simp [hkept']),
      firstWord_mode harg hmode, firstWord_mode harg hmode]
    simp only [severed_mode hselector harg hmode]
    exact ih
  | worktree arg ts harg hmode ih =>
    have hkept := not_selected hselector (worktree_not_inert harg)
    rw [List.filter_cons_of_pos (by simp [hkept]), firstWord_worktree harg hmode]
    cases hfilter : startsWithMode (ts.filter fun t => !selector t) with
    | true =>
      -- The mode behind the selectors comes to stand behind the option.
      obtain ⟨gap, mode, after, rfl, hmode', hne, hgap, heq⟩ :=
        filter_startsWithMode hselector hmode hfilter
      have hword : firstWord (gap ++ .one mode :: after) = some mode := by
        rw [firstWord_gap fun t ht => hselector t (hgap t ht),
          firstWord_word (mode_facts hmode').2.2.2.1]
      rw [heq, firstWord_mode harg hmode']
      constructor
      · intro after' hsevered
        refine ⟨⟨mode, hmode', hword⟩, ?_⟩
        rcases (severed_worktree harg hmode).mp hsevered with
          ⟨gap', mode₁, hgap', hmode₁, -, hselected⟩ | hlater
        · rw [hgap', filter_gap hselector hselected hmode₁] at heq
          injection heq with _ heq
          rw [heq]
        · exact absurd hlater (not_severed_gap (fun t ht => hselector t (hgap t ht)) hmode')
      · intro hnot
        exact absurd ((severed_worktree harg hmode).mpr
          (.inl ⟨gap, mode, rfl, hmode', hne, hgap⟩)) (hnot after)
    | false =>
      have hlater (after : List Token) :
          Severed selector (.one arg :: ts) after ↔ Severed selector ts after := by
        rw [severed_worktree harg hmode]
        refine or_iff_right ?_
        rintro ⟨gap, mode, rfl, hmode', -, hselected⟩
        rw [filter_gap hselector hselected hmode'] at hfilter
        exact Bool.false_ne_true (hfilter.symm.trans hmode')
      rw [firstWord_worktree harg hfilter]
      simp only [hlater]
      exact ih
  | word arg ts hoption =>
    have hkept := not_selected hselector (word_not_inert hoption)
    rw [List.filter_cons_of_pos (by simp [hkept]), firstWord_word hoption, firstWord_word hoption]
    exact ⟨fun after h => absurd h (not_severed_word hoption), fun _ => rfl⟩

/-- No mode of a worktree is a command. -/
theorem command_of_mode {mode : OsString} (hmode : isWorktreeMode mode = true)
    (h : firstWord ts = some mode) : command ts = none := by
  rw [command, h, Option.filter_some, (mode_facts hmode).2.2.2.2]
  rfl

/-- Removing selectors keeps the command, unless it brings one out from behind a severed mode. -/
theorem command_filter (hselector : ∀ t, selector t = true → t.Inert) (ts : List Token) :
    command (ts.filter fun t => !selector t) = command ts ↔
      ∀ after, Severed selector ts after → command (after.filter fun t => !selector t) = none := by
  obtain ⟨hsevered, hnot⟩ := firstWord_filter hselector ts
  by_cases hex : ∃ after, Severed selector ts after
  · obtain ⟨after, hafter⟩ := hex
    obtain ⟨⟨mode, hmode, hword⟩, heq⟩ := hsevered after hafter
    rw [command_of_mode hmode hword, command, heq]
    constructor
    · intro hnone after' hafter'
      rw [command, ← (hsevered after' hafter').2, heq]
      exact hnone
    · intro hall
      exact hall after hafter
  · rw [not_exists] at hex
    rw [command, hnot hex]
    exact ⟨fun _ after hafter => absurd hafter (hex after), fun _ => rfl⟩

/-- A command that is found is not behind a severed mode. -/
theorem not_severed_of_command (hselector : ∀ t, selector t = true → t.Inert) {word : OsString}
    (hword : command ts = some word) : ¬Severed selector ts after := by
  intro hsevered
  obtain ⟨⟨mode, hmode, hfirst⟩, -⟩ := (firstWord_filter hselector ts).1 after hsevered
  rw [command_of_mode hmode hfirst] at hword
  cases hword

end

end MuseCodex.Launcher
