import MuseCodex.Json.Compact

/-!
# Blanks around the tokens of a document

JSON allows blanks between tokens, and no line feed inside one. `Respaced s t` says that `t` is `s`
with other blanks around its line feeds and at its end. Every reader of the compact parser takes
the same thing from both texts and leaves rests that are related again, so the parser meets
`Serde.Spaced` (`Compact.spaced`).
-/

namespace MuseCodex.Json.Compact

/-! ## Respaced texts -/

/-- A run of blanks. -/
def Blanks (x : List Char) : Prop := ∀ c ∈ x, isBlank c = true

/-- A text and the same text with other blanks around its line feeds and at its end. -/
inductive Respaced : List Char → List Char → Prop where
  | ends {x y} : Blanks x → Blanks y → Respaced x y
  | char (c) {s t} : Respaced s t → Respaced (c :: s) (c :: t)
  | gap {x y s t} : Blanks x → '\n' ∈ x → Blanks y → y ≠ [] → Respaced s t →
      Respaced (x ++ s) (y ++ t)

/-- A text is its own respacing. -/
theorem Respaced.refl (s : List Char) : Respaced s s := by
  induction s with
  | nil => exact .ends nofun nofun
  | cons c s ih => exact .char c ih

/-- A text can be put before both. -/
theorem Respaced.append (a : List Char) {s t : List Char} (h : Respaced s t) :
    Respaced (a ++ s) (a ++ t) := by
  induction a with
  | nil => exact h
  | cons c a ih => exact .char c ih

/-- Blanks are skipped one by one. -/
theorem skipWs_eq (c : Char) (cs : List Char) :
    skipWs (c :: cs) = if isBlank c then skipWs cs else c :: cs := by
  simp only [skipWs, isBlank, Bool.or_eq_true, decide_eq_true_eq, or_assoc]

/-- Blanks at the start are skipped. -/
theorem skipWs_append {x : List Char} (hx : Blanks x) (s : List Char) :
    skipWs (x ++ s) = skipWs s := by
  induction x with
  | nil => rfl
  | cons c x ih =>
    obtain ⟨hc, hx⟩ := List.forall_mem_cons.mp hx
    rw [List.cons_append, skipWs_eq, if_pos hc, ih hx]

/-- Of blanks nothing is left. -/
theorem skipWs_blanks {x : List Char} (hx : Blanks x) : skipWs x = [] := by
  have := skipWs_append hx []
  rwa [List.append_nil] at this

/-- What is left is no longer. -/
theorem skipWs_length_le (s : List Char) : (skipWs s).length ≤ s.length := by
  induction s with
  | nil => exact Nat.le_refl _
  | cons c s ih =>
    rw [skipWs_eq]
    split_ifs
    · exact ih.trans (Nat.le_succ _)
    · exact Nat.le_refl _

/-- What stands after the blanks is no blank. -/
theorem skipWs_head {s : List Char} {c : Char} {cs : List Char} (h : skipWs s = c :: cs) :
    isBlank c = false := by
  induction s with
  | nil => cases h
  | cons d s ih =>
    rw [skipWs_eq] at h
    split_ifs at h with hd
    · exact ih h
    · obtain ⟨rfl, -⟩ := List.cons.inj h
      simpa using hd

/-- Texts that differ in their spacing do so after their leading blanks. -/
theorem Respaced.skipWs {s t : List Char} (h : Respaced s t) :
    Respaced (skipWs s) (skipWs t) := by
  induction h with
  | ends hx hy =>
    rw [skipWs_blanks hx, skipWs_blanks hy]
    exact .refl []
  | char c h ih =>
    rw [skipWs_eq, skipWs_eq]
    split_ifs
    · exact ih
    · exact .char c h
  | gap hx hlf hy hne h ih =>
    rw [skipWs_append hx, skipWs_append hy]
    exact ih

/-- A text of blanks stays one. -/
theorem Respaced.skipWs_eq_nil {s t : List Char} (h : Respaced s t)
    (hs : Compact.skipWs s = []) : Compact.skipWs t = [] := by
  induction h with
  | ends hx hy => exact skipWs_blanks hy
  | char c h ih =>
    rw [skipWs_eq] at hs ⊢
    split_ifs at hs with hc
    rw [if_pos hc]
    exact ih hs
  | gap hx hlf hy hne h ih =>
    rw [skipWs_append hx] at hs
    rw [skipWs_append hy]
    exact ih hs

/-- A character that is no blank is kept. -/
theorem Respaced.head {c : Char} {s t : List Char} (h : Respaced (c :: s) t)
    (hc : isBlank c = false) : ∃ t', t = c :: t' ∧ Respaced s t' := by
  generalize hu : c :: s = u at h
  cases h with
  | ends hx hy =>
    rw [← hu] at hx
    rw [hx c List.mem_cons_self] at hc
    cases hc
  | char d h =>
    obtain ⟨rfl, rfl⟩ := List.cons.inj hu
    exact ⟨_, rfl, h⟩
  | @gap x y s' t' hx hlf hy hne h =>
    cases x with
    | nil => cases hlf
    | cons d x =>
      obtain ⟨rfl, -⟩ := List.cons.inj hu
      rw [hx c List.mem_cons_self] at hc
      cases hc

/-- What follows the blanks of a text follows those of the other. -/
theorem Respaced.next {s t : List Char} (h : Respaced s t) {c : Char} {cs : List Char}
    (hs : Compact.skipWs s = c :: cs) :
    ∃ ds, Compact.skipWs t = c :: ds ∧ Respaced cs ds ∧ ds.length < t.length := by
  have hskip := h.skipWs
  rw [hs] at hskip
  obtain ⟨ds, ht, hds⟩ := hskip.head (skipWs_head hs)
  have hle := skipWs_length_le t
  rw [ht, List.length_cons] at hle
  exact ⟨ds, ht, hds, hle⟩

/-! ## Strings -/

/-- No string goes on over a line feed. -/
theorem parseString_blanks_lf {x : List Char} (hx : Blanks x) (hlf : '\n' ∈ x) (s : List Char) :
    parseString (x ++ s) = none := by
  induction x with
  | nil => cases hlf
  | cons c x ih =>
    obtain ⟨hc, hxs⟩ := List.forall_mem_cons.mp hx
    simp only [isBlank, Bool.or_eq_true, decide_eq_true_eq, or_assoc] at hc
    rcases hc with rfl | rfl | rfl | rfl
    · have hlf' : '\n' ∈ x := by simpa using hlf
      simp [parseString, ih hxs hlf']
    · simp [parseString]
    · simp [parseString]
    · simp [parseString]

/-- No string ends without a quote. -/
theorem parseString_blanks {x : List Char} (hx : Blanks x) : parseString x = none := by
  induction x with
  | nil => rfl
  | cons c x ih =>
    obtain ⟨hc, hxs⟩ := List.forall_mem_cons.mp hx
    simp only [isBlank, Bool.or_eq_true, decide_eq_true_eq, or_assoc] at hc
    rcases hc with rfl | rfl | rfl | rfl
    · simp [parseString, ih hxs]
    · simp [parseString]
    · simp [parseString]
    · simp [parseString]

/-- A character of a string is kept. -/
theorem Respaced.inString {c : Char} {s t : List Char} (h : Respaced (c :: s) t)
    {p : List Char × List Char} (hp : parseString (c :: s) = some p) :
    ∃ t', t = c :: t' ∧ Respaced s t' := by
  generalize hu : c :: s = u at h hp
  cases h with
  | ends hx hy =>
    rw [parseString_blanks hx] at hp
    cases hp
  | char d h =>
    obtain ⟨rfl, rfl⟩ := List.cons.inj hu
    exact ⟨_, rfl, h⟩
  | gap hx hlf hy hne h =>
    rw [parseString_blanks_lf hx hlf] at hp
    cases hp

/-- A hexadecimal digit is no blank. -/
theorem hexVal_not_blank {c : Char} {n : ℕ} (h : hexVal c = some n) : isBlank c = false := by
  by_contra hc
  simp only [Bool.not_eq_false, isBlank, Bool.or_eq_true, decide_eq_true_eq, or_assoc] at hc
  rcases hc with rfl | rfl | rfl | rfl <;> cases h

/-- A letter that a backslash makes an escape is no blank. -/
theorem unescape_not_blank {c d : Char} (h : unescape c = some d) : isBlank c = false := by
  by_contra hc
  simp only [Bool.not_eq_false, isBlank, Bool.or_eq_true, decide_eq_true_eq, or_assoc] at hc
  rcases hc with rfl | rfl | rfl | rfl <;> cases h

/-- Four hexadecimal digits are kept. -/
theorem Respaced.hex4 {a b c d : Char} {s t : List Char} (h : Respaced (a :: b :: c :: d :: s) t)
    {n : ℕ} (hn : hex4 a b c d = some n) : ∃ t', t = a :: b :: c :: d :: t' ∧ Respaced s t' := by
  simp only [Compact.hex4, Option.bind_eq_bind, Option.bind_eq_some_iff] at hn
  obtain ⟨na, ha, nb, hb, nc, hc, nd, hd, -⟩ := hn
  obtain ⟨t₁, rfl, h₁⟩ := h.head (hexVal_not_blank ha)
  obtain ⟨t₂, rfl, h₂⟩ := h₁.head (hexVal_not_blank hb)
  obtain ⟨t₃, rfl, h₃⟩ := h₂.head (hexVal_not_blank hc)
  obtain ⟨t₄, rfl, h₄⟩ := h₃.head (hexVal_not_blank hd)
  exact ⟨t₄, rfl, h₄⟩

/-- What a reader takes from a text, it takes from the respaced text, and the rests are respaced
again. -/
def Reads {α : Type} (p : List Char → Option (α × List Char)) : Prop :=
  ∀ {s t a r}, Respaced s t → p s = some (a, r) →
    ∃ r', p t = some (a, r') ∧ Respaced r r' ∧ r'.length < t.length

/-- An escape other than that of a code point. -/
theorem parseString_unescape {c d : Char} (h : unescape c = some d) (s : List Char) :
    parseString ('\\' :: c :: s) = (parseString s).map fun p => (d :: p.1, p.2) := by
  have hu : c ≠ 'u' := by
    rintro rfl
    cases h
  rw [parseString, h]
  · cases parseString s <;> rfl
  · intro _ _ _ _ _ hc
    exact absurd hc hu

/-- A character that stands for itself. -/
theorem parseString_plain {c : Char} (hquote : c ≠ '"') (h : ¬ (c = '\\' ∨ c.toNat < 0x20))
    (s : List Char) : parseString (c :: s) = (parseString s).map fun p => (c :: p.1, p.2) := by
  rw [parseString, if_neg h]
  · cases parseString s <;> rfl
  · exact hquote
  · intro _ _ _ _ _ hc
    exact absurd (.inl hc) h
  · intro _ _ hc
    exact absurd (.inl hc) h

/-- A string is read alike. -/
theorem reads_parseString : Reads parseString := by
  intro s t a r h hs
  fun_induction parseString s generalizing t a r with
  | case1 => cases hs
  | case2 rest =>
    cases hs
    obtain ⟨t', rfl, h'⟩ := h.head (by decide)
    exact ⟨t', by rw [parseString], h', by simp⟩
  | case3 a b c d rest ih₁ ih₂ =>
    obtain ⟨t₁, rfl, h₁⟩ := h.head (by decide)
    obtain ⟨t₂, rfl, h₂⟩ := h₁.head (by decide)
    simp only [Option.bind_eq_bind, Option.bind_eq_some_iff] at hs
    obtain ⟨hi, hhi, hs⟩ := hs
    obtain ⟨t₃, rfl, h₃⟩ := h₂.hex4 hhi
    rw [parseString, hhi]
    simp only [Option.bind_eq_bind, Option.bind_some]
    split_ifs at hs ⊢ with hsur hlow
    · -- The other half of the pair follows at once.
      split at hs
      · rename_i e f g k rest'
        simp only [Option.bind_eq_some_iff] at hs
        obtain ⟨lo, hlo, hs⟩ := hs
        obtain ⟨t₄, rfl, h₄⟩ := h₃.head (by decide)
        obtain ⟨t₅, rfl, h₅⟩ := h₄.head (by decide)
        obtain ⟨t₆, rfl, h₆⟩ := h₅.hex4 hlo
        split_ifs at hs with hpair
        simp only [Option.bind_eq_some_iff] at hs
        obtain ⟨p, hp, hs⟩ := hs
        cases hs
        obtain ⟨r', hr', hrest, hlen⟩ := ih₁ h₆ hp
        refine ⟨r', ?_, hrest, ?_⟩
        · simp [hlo, hpair, hr']
        · simp only [List.length_cons]
          omega
      · cases hs
    · simp only [Option.bind_eq_some_iff] at hs
      obtain ⟨p, hp, hs⟩ := hs
      cases hs
      obtain ⟨r', hr', hrest, hlen⟩ := ih₂ h₃ hp
      refine ⟨r', ?_, hrest, ?_⟩
      · simp [hr']
      · simp only [List.length_cons]
        omega
  | case4 c rest hu ih =>
    obtain ⟨t₁, rfl, h₁⟩ := h.head (by decide)
    simp only [Option.bind_eq_bind, Option.bind_eq_some_iff] at hs
    obtain ⟨d, hd, p, hp, hs⟩ := hs
    cases hs
    obtain ⟨t₂, rfl, h₂⟩ := h₁.head (unescape_not_blank hd)
    obtain ⟨r', hr', hrest, hlen⟩ := ih h₂ hp
    refine ⟨r', ?_, hrest, ?_⟩
    · rw [parseString_unescape hd, hr']
      rfl
    · simp only [List.length_cons]
      omega
  | case5 c rest => cases hs
  | case6 c rest hquote hu hesc hplain ih =>
    simp only [Option.bind_eq_bind, Option.bind_eq_some_iff] at hs
    obtain ⟨p, hp, hs⟩ := hs
    cases hs
    -- Blanks inside a string are part of it, so none may come or go there.
    have hwhole : parseString (c :: rest) = some (c :: p.1, p.2) := by
      rw [parseString_plain hquote hplain, hp]
      rfl
    obtain ⟨t', rfl, h'⟩ := h.inString hwhole
    obtain ⟨r', hr', hrest, hlen⟩ := ih h' hp
    refine ⟨r', ?_, hrest, ?_⟩
    · rw [parseString_plain hquote hplain, hr']
      rfl
    · simp only [List.length_cons]
      omega

/-! ## Numbers -/

/-- A blank is no digit. -/
theorem isDigit_of_isBlank {c : Char} (h : isBlank c = true) : c.isDigit = false := by
  simp only [isBlank, Bool.or_eq_true, decide_eq_true_eq, or_assoc] at h
  rcases h with rfl | rfl | rfl | rfl <;> rfl

/-- No digit stands at the start of a run of blanks. -/
theorem spanDigits_blanks {x : List Char} (hx : Blanks x) (s : List Char)
    (hs : x = [] → s = []) : spanDigits (x ++ s) = ([], x ++ s) := by
  cases x with
  | nil =>
    rw [hs rfl]
    rfl
  | cons c x =>
    have hc := isDigit_of_isBlank (hx c List.mem_cons_self)
    simp [spanDigits, hc]

/-- The digits at the start of a text are kept. -/
theorem Respaced.spanDigits {s t : List Char} (h : Respaced s t) :
    (spanDigits t).1 = (spanDigits s).1 ∧
      Respaced (Compact.spanDigits s).2 (Compact.spanDigits t).2 := by
  induction h with
  | @ends x y hx hy =>
    have hx' := spanDigits_blanks hx [] fun _ => rfl
    have hy' := spanDigits_blanks hy [] fun _ => rfl
    rw [List.append_nil] at hx' hy'
    rw [hx', hy']
    exact ⟨rfl, .ends hx hy⟩
  | @char c s t h ih =>
    obtain ⟨hdigits, hrest⟩ := ih
    unfold Compact.spanDigits at hdigits hrest ⊢
    dsimp only at hdigits hrest ⊢
    rw [List.takeWhile_cons, List.takeWhile_cons, List.dropWhile_cons, List.dropWhile_cons]
    split_ifs
    · rw [hdigits]
      exact ⟨rfl, hrest⟩
    · exact ⟨rfl, .char c h⟩
  | @gap x y s t hx hlf hy hne h ih =>
    have hxne : x ≠ [] := by
      rintro rfl
      cases hlf
    rw [spanDigits_blanks hx s fun h => absurd h hxne, spanDigits_blanks hy t fun h => absurd h hne]
    exact ⟨rfl, .gap hx hlf hy hne h⟩

/-- The digits at the start and the rest make up the text. -/
theorem spanDigits_length (s : List Char) :
    (spanDigits s).1.length + (spanDigits s).2.length = s.length := by
  unfold spanDigits
  rw [← List.length_append, List.takeWhile_append_dropWhile]

/-- A number is kept with the text after it. -/
theorem Respaced.parseNat {s t : List Char} (h : Respaced s t) {n : ℕ} {r : List Char}
    (hs : parseNat s = some (n, r)) :
    ∃ r', Compact.parseNat t = some (n, r') ∧ Respaced r r' ∧ r'.length ≤ t.length := by
  obtain ⟨hdigits, hrest⟩ := h.spanDigits
  have hlen := spanDigits_length t
  unfold Compact.parseNat at hs ⊢
  generalize Compact.spanDigits s = p at hs hdigits hrest
  generalize Compact.spanDigits t = q at hdigits hrest hlen
  obtain ⟨ds, s'⟩ := p
  obtain ⟨ds', t'⟩ := q
  dsimp only at hdigits hrest hlen
  subst hdigits
  cases ds' with
  | nil => cases hs
  | cons d ds =>
    cases hs
    exact ⟨t', rfl, hrest, by omega⟩

/-- A respaced text starts with a blank, or as the text does. -/
theorem Respaced.head_of_head {s t : List Char} (h : Respaced s t) {c : Char} (hc : c ∈ t.head?) :
    isBlank c = true ∨ c ∈ s.head? := by
  cases h with
  | ends hx hy => exact .inl (hy c (List.mem_of_mem_head? hc))
  | char d h => exact .inr hc
  | @gap x y s t hx hlf hy hne h =>
    left
    obtain ⟨d, y, rfl⟩ := List.exists_cons_of_ne_nil hne
    cases hc
    exact hy c List.mem_cons_self

/-- A text without an exponent. -/
theorem parseExponent_of_head {s : List Char} (h : ∀ c ∈ s.head?, ¬ (c = 'e' ∨ c = 'E')) :
    parseExponent s = some (none, s) := by
  cases s with
  | nil => rfl
  | cons c s =>
    rw [parseExponent.eq_def]
    exact if_neg (h c rfl)

/-- A run of digits starts with a digit. -/
theorem parseNat_head {s : List Char} {p : ℕ × List Char} (h : parseNat s = some p) :
    ∃ c cs, s = c :: cs ∧ c.isDigit = true := by
  cases s with
  | nil => cases h
  | cons c cs =>
    refine ⟨c, cs, rfl, ?_⟩
    by_contra hc
    simp [parseNat, spanDigits, hc] at h

/-- An exponent without a sign. -/
theorem parseExponent_digit {c d : Char} (hc : c = 'e' ∨ c = 'E') (hd : d.isDigit = true)
    (s : List Char) : parseExponent (c :: d :: s) =
      (parseNat (d :: s)).map fun p => (some (p.1 : ℤ), p.2) := by
  rw [parseExponent, if_pos hc]
  · rintro _ h
    obtain ⟨rfl, -⟩ := List.cons.inj h
    cases hd
  · rintro _ h
    obtain ⟨rfl, -⟩ := List.cons.inj h
    cases hd

/-- An exponent is kept. -/
theorem Respaced.parseExponent {s t : List Char} (h : Respaced s t) {e : Option ℤ} {r : List Char}
    (hs : parseExponent s = some (e, r)) :
    ∃ r', Compact.parseExponent t = some (e, r') ∧ Respaced r r' ∧ r'.length ≤ t.length := by
  by_cases hhead : ∀ c ∈ s.head?, ¬ (c = 'e' ∨ c = 'E')
  · -- Blanks do not start an exponent either.
    have hhead' : ∀ c ∈ t.head?, ¬ (c = 'e' ∨ c = 'E') := by
      intro c hc
      rcases h.head_of_head hc with hblank | hc
      · rintro (rfl | rfl) <;> cases hblank
      · exact hhead c hc
    rw [parseExponent_of_head hhead] at hs
    cases hs
    exact ⟨t, parseExponent_of_head hhead', h, Nat.le_refl _⟩
  · simp only [not_forall, not_not] at hhead
    obtain ⟨c, hmem, hc⟩ := hhead
    cases s with
    | nil => cases hmem
    | cons c' s =>
      cases hmem
      have hcb : isBlank c = false := by rcases hc with rfl | rfl <;> rfl
      obtain ⟨t₁, rfl, h₁⟩ := h.head hcb
      -- The sign, if there is one, and the digits are kept.
      have hsigned {f : ℕ → ℤ} {s t : List Char} (h : Respaced s t)
          (hs : (Compact.parseNat s).map (fun p => (some (f p.1), p.2)) = some (e, r)) :
          ∃ r', (Compact.parseNat t).map (fun p => (some (f p.1), p.2)) = some (e, r') ∧
            Respaced r r' ∧ r'.length ≤ t.length := by
        obtain ⟨⟨n, r₀⟩, hn, heq⟩ := Option.map_eq_some_iff.mp hs
        cases heq
        obtain ⟨r', hr', hrest, hlen⟩ := h.parseNat hn
        exact ⟨r', by rw [hr']; rfl, hrest, hlen⟩
      rw [Compact.parseExponent.eq_def] at hs
      dsimp only at hs
      rw [if_pos hc] at hs
      split at hs
      · obtain ⟨t₂, rfl, h₂⟩ := h₁.head (by rfl)
        obtain ⟨r', hr', hrest, hlen⟩ := hsigned (f := fun n => -(n : ℤ)) h₂ hs
        refine ⟨r', ?_, hrest, ?_⟩
        · rw [Compact.parseExponent, if_pos hc, hr']
        · simp only [List.length_cons]
          omega
      · obtain ⟨t₂, rfl, h₂⟩ := h₁.head (by rfl)
        obtain ⟨r', hr', hrest, hlen⟩ := hsigned (f := fun n => (n : ℤ)) h₂ hs
        refine ⟨r', ?_, hrest, ?_⟩
        · rw [Compact.parseExponent, if_pos hc, hr']
        · simp only [List.length_cons]
          omega
      · obtain ⟨p, hp, -⟩ := Option.map_eq_some_iff.mp hs
        obtain ⟨d, ds, rfl, hd⟩ := parseNat_head hp
        obtain ⟨r', hr', hrest, hlen⟩ := hsigned (f := fun n => (n : ℤ)) h₁ hs
        have hdb : isBlank d = false := by
          by_contra hblank
          rw [isDigit_of_isBlank (by simpa using hblank)] at hd
          cases hd
        obtain ⟨t₂, rfl, -⟩ := h₁.head hdb
        refine ⟨r', ?_, hrest, ?_⟩
        · rw [parseExponent_digit hc hd, hr']
        · simp only [List.length_cons] at hlen ⊢
          omega

/-- What follows the first digits of a number. -/
def parseFraction (negative : Bool) (digits rest : List Char) : Option (Number × List Char) :=
  match rest with
  | '.' :: rest => do
    let (fraction, rest) := spanDigits rest
    if fraction = [] then none
    else
      let (exponent, rest) ← parseExponent rest
      return (.float negative (Nat.ofDigitChars 10 (digits ++ fraction) 0)
        (exponent.getD 0 - fraction.length), rest)
  | rest => do
    let (exponent, rest) ← parseExponent rest
    let n := Nat.ofDigitChars 10 digits 0
    return (match exponent with
      | some exponent => .float negative n exponent
      | none => if negative then (if n = 0 then .float true 0 0 else .negInt (n - 1))
        else .posInt n, rest)

/-- The fraction and the exponent of a number are kept. -/
theorem Respaced.parseFraction {negative : Bool} {digits s t : List Char} (h : Respaced s t)
    {x : Number} {r : List Char} (hs : parseFraction negative digits s = some (x, r)) :
    ∃ r', Compact.parseFraction negative digits t = some (x, r') ∧ Respaced r r' ∧
      r'.length ≤ t.length := by
  unfold Compact.parseFraction at hs
  split at hs
  · rename_i rest
    obtain ⟨t₁, rfl, h₁⟩ := h.head (by rfl)
    obtain ⟨hdigits, hrest⟩ := h₁.spanDigits
    have hlen := spanDigits_length t₁
    dsimp only at hs
    split_ifs at hs with hne
    simp only [Option.bind_eq_bind, Option.bind_eq_some_iff] at hs
    obtain ⟨⟨e, r₀⟩, he, hs⟩ := hs
    cases hs
    obtain ⟨r', hr', hrest', hlen'⟩ := hrest.parseExponent he
    refine ⟨r', ?_, hrest', ?_⟩
    · rw [Compact.parseFraction]
      dsimp only
      rw [hdigits, if_neg hne, hr']
      rfl
    · rw [List.length_cons]
      omega
  · rename_i hdot
    simp only [Option.bind_eq_bind, Option.bind_eq_some_iff] at hs
    obtain ⟨⟨e, r₀⟩, he, hs⟩ := hs
    cases hs
    obtain ⟨r', hr', hrest', hlen'⟩ := h.parseExponent he
    refine ⟨r', ?_, hrest', hlen'⟩
    -- Where the first text has no fraction, neither has the second.
    have hdot' : ∀ u, t = '.' :: u → False := by
      rintro u rfl
      rcases h.head_of_head (c := '.') rfl with hblank | hmem
      · cases hblank
      · exact hdot _ (List.eq_cons_of_mem_head? hmem)
    rw [Compact.parseFraction]
    · rw [hr']
      rfl
    · exact hdot'

/-- A number without leading zeros goes on after its first digits. -/
theorem parseMagnitude_of_digits (negative : Bool) {text : List Char}
    (hne : (spanDigits text).1 ≠ []) (hzero : ∀ d ds, (spanDigits text).1 ≠ '0' :: d :: ds) :
    parseMagnitude negative text =
      parseFraction negative (spanDigits text).1 (spanDigits text).2 := by
  unfold parseMagnitude
  split
  · rename_i heq
    rw [heq] at hne
    exact absurd rfl hne
  · rename_i heq
    rw [heq] at hzero
    exact absurd rfl (hzero _ _)
  · rename_i heq
    rw [heq]
    rfl

/-- A number has digits, and no leading zeros. -/
theorem digits_of_parseMagnitude {negative : Bool} {text : List Char} {p : Number × List Char}
    (h : parseMagnitude negative text = some p) :
    (spanDigits text).1 ≠ [] ∧ ∀ d ds, (spanDigits text).1 ≠ '0' :: d :: ds := by
  unfold parseMagnitude at h
  split at h
  · cases h
  · cases h
  · rename_i hne hzero heq
    rw [heq]
    exact ⟨fun h => hne h, fun d ds h => hzero d ds h⟩

/-- A number without its sign is read alike. -/
theorem reads_parseMagnitude (negative : Bool) : Reads (parseMagnitude negative) := by
  intro s t x r h hs
  obtain ⟨hdigits, hrest⟩ := h.spanDigits
  have hlen := spanDigits_length t
  obtain ⟨hne, hzero⟩ := digits_of_parseMagnitude hs
  rw [parseMagnitude_of_digits negative hne hzero] at hs
  rw [← hdigits] at hs hne hzero
  obtain ⟨r', hr', hrest', hlen'⟩ := hrest.parseFraction hs
  refine ⟨r', ?_, hrest', ?_⟩
  · rw [parseMagnitude_of_digits negative hne hzero, hr']
  · have := List.length_pos_of_ne_nil hne
    omega

/-- A number starts with a sign or a digit. -/
theorem parseNumber_head {s : List Char} {p : Number × List Char} (h : parseNumber s = some p) :
    ∃ c cs, s = c :: cs ∧ (c.isDigit = true ∨ c = '-') := by
  unfold parseNumber at h
  split at h
  · exact ⟨_, _, rfl, .inr rfl⟩
  · obtain ⟨hne, -⟩ := digits_of_parseMagnitude h
    cases s with
    | nil => exact absurd rfl hne
    | cons c cs =>
      refine ⟨c, cs, rfl, .inl ?_⟩
      by_contra hc
      exact hne (by simp [spanDigits, hc])

/-- A number is read alike. -/
theorem reads_parseNumber : Reads parseNumber := by
  intro s t x r h hs
  unfold parseNumber at hs
  split at hs
  · obtain ⟨t', rfl, h'⟩ := h.head (by rfl)
    obtain ⟨r', hr', hrest, hlen⟩ := reads_parseMagnitude true h' hs
    refine ⟨r', hr', hrest, ?_⟩
    rw [List.length_cons]
    omega
  · rename_i hminus
    obtain ⟨r', hr', hrest, hlen⟩ := reads_parseMagnitude false h hs
    refine ⟨r', ?_, hrest, hlen⟩
    rw [parseNumber, hr']
    rintro u rfl
    rcases h.head_of_head (c := '-') rfl with hblank | hmem
    · cases hblank
    · exact hminus _ (List.eq_cons_of_mem_head? hmem)

/-! ## Values -/

/-- A reader of bounded depth takes the same from the respaced text, under every bound that covers
what it takes. -/
def ReadsWithin {α : Type} (p : ℕ → List Char → Option (α × List Char)) (n : ℕ) : Prop :=
  ∀ {s t a r}, Respaced s t → p n s = some (a, r) →
    ∃ r', Respaced r r' ∧ r'.length < t.length ∧
      ∀ m, t.length ≤ m + r'.length → p m t = some (a, r')

/-- What starts with a digit or a sign is read as a number. -/
theorem parseValue_of_number (n : ℕ) {t : List Char} {c : Char} {cs : List Char}
    (ht : skipWs t = c :: cs) (hc : c.isDigit = true ∨ c = '-') :
    parseValue (n + 1) t = (parseNumber (c :: cs)).map fun p => (.number p.1, p.2) := by
  have hne : ∀ d : Char, d.isDigit = false → d ≠ '-' → c ≠ d := by
    rintro d hd hd' rfl
    rcases hc with hc | hc
    · rw [hd] at hc
      cases hc
    · exact hd' hc
  rw [parseValue, ht]
  split
  case h_7 => rfl
  all_goals
    rename_i heq
    exact absurd (List.cons.inj heq).1 (hne _ (by decide) (by decide))

/-- What is read after the bracket of an array. -/
def afterBracket (n : ℕ) : List Char → Option (Value × List Char)
  | ']' :: rest => some (.array [], rest)
  | rest => (parseItems n rest).map fun p => (.array p.1, p.2)

/-- What is read after the brace of an object. -/
def afterBrace (n : ℕ) : List Char → Option (Value × List Char)
  | '\x7d' :: rest => some (.object [], rest)
  | rest => (parseEntries n [] rest).map fun p => (.object p.1, p.2)

/-- What is read after the entries of an object so far. -/
def afterEntry (n : ℕ) (m : Map Value) : List Char → Option (Map Value × List Char)
  | ',' :: rest => parseEntries n m rest
  | '\x7d' :: rest => some (m, rest)
  | _ => none

/-- An array that has items. -/
theorem parseValue_array (n : ℕ) {t u : List Char} (ht : skipWs t = '[' :: u)
    (hu : ∀ cs, skipWs u = ']' :: cs → False) :
    parseValue (n + 1) t = (parseItems n (skipWs u)).map fun p => (.array p.1, p.2) := by
  have hvalue : parseValue (n + 1) t = afterBracket n (skipWs u) := by
    rw [parseValue, ht]
    rfl
  rw [hvalue, afterBracket]
  exact hu

/-- An object that has entries. -/
theorem parseValue_object (n : ℕ) {t u : List Char} (ht : skipWs t = '\x7b' :: u)
    (hu : ∀ cs, skipWs u = '\x7d' :: cs → False) :
    parseValue (n + 1) t = (parseEntries n [] (skipWs u)).map fun p => (.object p.1, p.2) := by
  have hvalue : parseValue (n + 1) t = afterBrace n (skipWs u) := by
    rw [parseValue, ht]
    rfl
  rw [hvalue, afterBrace]
  exact hu

/-- A character that does not follow the blanks of a text does not follow those of the other. -/
theorem Respaced.next_ne {s t : List Char} (h : Respaced s t) {c : Char} (hc : isBlank c = false)
    (hs : ∀ cs, Compact.skipWs s = c :: cs → False) :
    ∀ cs, Compact.skipWs t = c :: cs → False := by
  intro cs ht
  rcases h.skipWs.head_of_head (c := c) (by rw [ht]; rfl) with hblank | hmem
  · rw [hc] at hblank
    cases hblank
  · exact hs _ (List.eq_cons_of_mem_head? hmem)

/-- One level of a value, when the levels below it read the same. -/
theorem readsWithin_parseValue {n : ℕ} (hitems : ReadsWithin parseItems n)
    (hentries : ReadsWithin (fun m => parseEntries m []) n) :
    ReadsWithin parseValue (n + 1) := by
  intro s t v r h hs
  -- A bound that covers what is taken is not zero.
  have hbound {r' : List Char} (hlen : r'.length < t.length) {P : ℕ → Prop}
      (hP : ∀ k, t.length ≤ k + 1 + r'.length → P (k + 1)) :
      ∀ m, t.length ≤ m + r'.length → P m := by
    intro m hm
    cases m with
    | zero => omega
    | succ k => exact hP k hm
  rw [parseValue] at hs
  split at hs
  · rename_i rest heq
    obtain ⟨t₁, ht, h₁, hlen⟩ := h.next heq
    obtain ⟨t₂, rfl, h₂⟩ := h₁.head (by rfl)
    obtain ⟨t₃, rfl, h₃⟩ := h₂.head (by rfl)
    obtain ⟨t₄, rfl, h₄⟩ := h₃.head (by rfl)
    cases hs
    simp only [List.length_cons] at hlen
    have hlen' : t₄.length < t.length := by omega
    refine ⟨t₄, h₄, hlen', hbound hlen' fun k _ => ?_⟩
    rw [parseValue, ht]
    rfl
  · rename_i rest heq
    obtain ⟨t₁, ht, h₁, hlen⟩ := h.next heq
    obtain ⟨t₂, rfl, h₂⟩ := h₁.head (by rfl)
    obtain ⟨t₃, rfl, h₃⟩ := h₂.head (by rfl)
    obtain ⟨t₄, rfl, h₄⟩ := h₃.head (by rfl)
    cases hs
    simp only [List.length_cons] at hlen
    have hlen' : t₄.length < t.length := by omega
    refine ⟨t₄, h₄, hlen', hbound hlen' fun k _ => ?_⟩
    rw [parseValue, ht]
    rfl
  · rename_i rest heq
    obtain ⟨t₁, ht, h₁, hlen⟩ := h.next heq
    obtain ⟨t₂, rfl, h₂⟩ := h₁.head (by rfl)
    obtain ⟨t₃, rfl, h₃⟩ := h₂.head (by rfl)
    obtain ⟨t₄, rfl, h₄⟩ := h₃.head (by rfl)
    obtain ⟨t₅, rfl, h₅⟩ := h₄.head (by rfl)
    cases hs
    simp only [List.length_cons] at hlen
    have hlen' : t₅.length < t.length := by omega
    refine ⟨t₅, h₅, hlen', hbound hlen' fun k _ => ?_⟩
    rw [parseValue, ht]
    rfl
  · rename_i rest heq
    obtain ⟨t₁, ht, h₁, hlen⟩ := h.next heq
    obtain ⟨⟨cs, r₀⟩, hp, hs⟩ := Option.map_eq_some_iff.mp hs
    cases hs
    obtain ⟨r', hr', hrest, hlen'⟩ := reads_parseString h₁ hp
    refine ⟨r', hrest, by omega, hbound (by omega) fun k _ => ?_⟩
    rw [parseValue, ht]
    simp [hr']
  · rename_i rest heq
    obtain ⟨t₁, ht, h₁, hlen⟩ := h.next heq
    split at hs
    · rename_i rest' heq'
      obtain ⟨t₂, ht₁, h₂, hlen₁⟩ := h₁.next heq'
      cases hs
      refine ⟨t₂, h₂, by omega, hbound (by omega) fun k _ => ?_⟩
      rw [parseValue, ht]
      simp [ht₁]
    · rename_i hclose
      obtain ⟨⟨vs, r₀⟩, hp, hs⟩ := Option.map_eq_some_iff.mp hs
      cases hs
      obtain ⟨r', hrest, hlen', hread⟩ := hitems h₁.skipWs hp
      have hskip := skipWs_length_le t₁
      have hclose' := h₁.next_ne (c := ']') (by rfl) fun cs h => hclose cs h
      refine ⟨r', hrest, by omega, hbound (by omega) fun k hk => ?_⟩
      rw [parseValue_array k ht hclose', hread k (by omega)]
      rfl
  · rename_i rest heq
    obtain ⟨t₁, ht, h₁, hlen⟩ := h.next heq
    split at hs
    · rename_i rest' heq'
      obtain ⟨t₂, ht₁, h₂, hlen₁⟩ := h₁.next heq'
      cases hs
      refine ⟨t₂, h₂, by omega, hbound (by omega) fun k _ => ?_⟩
      rw [parseValue, ht]
      simp [ht₁]
    · rename_i hclose
      obtain ⟨⟨m, r₀⟩, hp, hs⟩ := Option.map_eq_some_iff.mp hs
      cases hs
      obtain ⟨r', hrest, hlen', hread⟩ := hentries h₁.skipWs hp
      have hskip := skipWs_length_le t₁
      have hclose' := h₁.next_ne (c := '\x7d') (by rfl) fun cs h => hclose cs h
      refine ⟨r', hrest, by omega, hbound (by omega) fun k hk => ?_⟩
      have hparsed := hread k (by omega)
      dsimp only at hparsed
      rw [parseValue_object k ht hclose', hparsed]
      rfl
  · obtain ⟨⟨x, r₀⟩, hp, hs⟩ := Option.map_eq_some_iff.mp hs
    cases hs
    obtain ⟨c, cs, hskip, hc⟩ := parseNumber_head hp
    obtain ⟨t₁, ht, h₁, hlen⟩ := h.next hskip
    obtain ⟨r', hr', hrest, hlen'⟩ := reads_parseNumber h.skipWs hp
    have hle := skipWs_length_le t
    refine ⟨r', hrest, by omega, hbound (by omega) fun k _ => ?_⟩
    rw [ht] at hr'
    rw [parseValue_of_number k ht hc, hr']
    rfl

/-- One item of an array and those after it. -/
theorem readsWithin_parseItems {n : ℕ} (hvalue : ReadsWithin parseValue n)
    (hitems : ReadsWithin parseItems n) : ReadsWithin parseItems (n + 1) := by
  intro s t vs r h hs
  rw [parseItems] at hs
  obtain ⟨⟨v, s₁⟩, hv, hs⟩ := Option.bind_eq_some_iff.mp hs
  obtain ⟨t₁, h₁, hlen₁, hread₁⟩ := hvalue h hv
  dsimp only at hs
  split at hs
  · rename_i rest heq
    obtain ⟨t₂, ht₁, h₂, hlen₂⟩ := h₁.next heq
    obtain ⟨⟨ws, r₀⟩, hp, hs⟩ := Option.map_eq_some_iff.mp hs
    cases hs
    obtain ⟨r', hrest, hlen', hread⟩ := hitems h₂ hp
    refine ⟨r', hrest, by omega, fun m hm => ?_⟩
    obtain ⟨k, rfl⟩ : ∃ k, m = k + 1 := ⟨m - 1, by omega⟩
    have htail := hread k (by omega)
    rw [parseItems, hread₁ k (by omega), Option.bind_some]
    dsimp only
    rw [ht₁]
    simp [htail]
  · rename_i rest heq
    obtain ⟨t₂, ht₁, h₂, hlen₂⟩ := h₁.next heq
    cases hs
    refine ⟨t₂, h₂, by omega, fun m hm => ?_⟩
    obtain ⟨k, rfl⟩ : ∃ k, m = k + 1 := ⟨m - 1, by omega⟩
    rw [parseItems, hread₁ k (by omega), Option.bind_some]
    dsimp only
    rw [ht₁]
    rfl
  · cases hs

/-- One entry of an object and those after it. -/
theorem readsWithin_parseEntries {n : ℕ} (hvalue : ReadsWithin parseValue n)
    (hentries : ∀ m, ReadsWithin (fun k => parseEntries k m) n) (m : Map Value) :
    ReadsWithin (fun k => parseEntries k m) (n + 1) := by
  intro s t es r h hs
  dsimp only at hs ⊢
  rw [parseEntries] at hs
  split at hs
  swap
  · cases hs
  rename_i rest heq
  obtain ⟨t₁, ht, h₁, hlen₁⟩ := h.next heq
  obtain ⟨⟨key, s₂⟩, hkey, hs⟩ := Option.bind_eq_some_iff.mp hs
  obtain ⟨t₂, ht₁, h₂, hlen₂⟩ := reads_parseString h₁ hkey
  dsimp only at hs
  split at hs
  swap
  · cases hs
  rename_i rest heq
  obtain ⟨t₃, ht₂, h₃, hlen₃⟩ := h₂.next heq
  obtain ⟨⟨v, s₄⟩, hv, hs⟩ := Option.bind_eq_some_iff.mp hs
  obtain ⟨t₄, h₄, hlen₄, hread⟩ := hvalue h₃ hv
  -- The key, the colon, and the value are read in the respaced text.
  have hentry {k : ℕ} (hk : t₃.length ≤ k + t₄.length) : parseEntries (k + 1) m t =
      afterEntry k (m.insert (String.ofList key) v) (skipWs t₄) := by
    have hcolon : (parseValue k t₃) = some (v, t₄) := hread k hk
    rw [parseEntries, ht]
    change (parseString t₁).bind _ = _
    rw [ht₁, Option.bind_some]
    dsimp only
    rw [ht₂]
    change (parseValue k t₃).bind _ = _
    rw [hcolon]
    rfl
  dsimp only at hs
  split at hs
  · rename_i rest heq
    obtain ⟨t₅, ht₄, h₅, hlen₅⟩ := h₄.next heq
    obtain ⟨r', hrest, hlen', hread'⟩ := hentries _ h₅ hs
    refine ⟨r', hrest, by omega, fun k hk => ?_⟩
    obtain ⟨k, rfl⟩ : ∃ j, k = j + 1 := ⟨k - 1, by omega⟩
    rw [hentry (by omega), ht₄]
    exact hread' k (by omega)
  · rename_i rest heq
    obtain ⟨t₅, ht₄, h₅, hlen₅⟩ := h₄.next heq
    cases hs
    refine ⟨t₅, h₅, by omega, fun k hk => ?_⟩
    obtain ⟨k, rfl⟩ : ∃ j, k = j + 1 := ⟨k - 1, by omega⟩
    rw [hentry (by omega), ht₄]
    rfl
  · cases hs

/-- Values, items, and entries are read the same at every depth. -/
theorem readsWithin (n : ℕ) : ReadsWithin parseValue n ∧ ReadsWithin parseItems n ∧
    ∀ m, ReadsWithin (fun k => parseEntries k m) n := by
  induction n with
  | zero =>
    refine ⟨?_, ?_, ?_⟩
    · intro s t v r _ hs
      cases hs
    · intro s t vs r _ hs
      cases hs
    · intro m s t es r _ hs
      cases hs
  | succ n ih =>
    obtain ⟨hvalue, hitems, hentries⟩ := ih
    exact ⟨readsWithin_parseValue hitems (hentries []), readsWithin_parseItems hvalue hitems,
      readsWithin_parseEntries hvalue hentries⟩

/-! ## Documents -/

/-- A document that is read at some depth is read from the respaced text under every bound that
covers the text. -/
theorem Respaced.parseValue {s t : List Char} (h : Respaced s t) {n : ℕ} {v : Value} {r : List Char}
    (hs : parseValue n s = some (v, r)) (hr : Compact.skipWs r = []) :
    ∃ r', Compact.skipWs r' = [] ∧ ∀ m, t.length ≤ m → Compact.parseValue m t = some (v, r') := by
  obtain ⟨r', hrest, -, hread⟩ := (readsWithin n).1 h hs
  exact ⟨r', hrest.skipWs_eq_nil hr, fun m hm => hread m (by omega)⟩

/-- A respaced document is the same document. -/
theorem Respaced.parse {s t : List Char} (h : Respaced s t) {v : Value} (hs : parse s = .ok v) :
    Compact.parse t = .ok v := by
  obtain ⟨u, r, hu, hr, hfit⟩ := parse_eq_ok.mp hs
  obtain ⟨r', hr', hread⟩ := h.parseValue hu hr
  exact parse_eq_ok.mpr ⟨u, r', hread _ (by omega), hr', hfit⟩

/-- Blanks before a document do not change it. -/
theorem parse_leading {x : List Char} (hx : Blanks x) (s : List Char) {v : Value} :
    parse (x ++ s) = .ok v ↔ parse s = .ok v := by
  have hvalue (n : ℕ) : parseValue n (x ++ s) = parseValue n s := by
    cases n with
    | zero => rfl
    | succ n => rw [Compact.parseValue, Compact.parseValue, skipWs_append hx]
  have hlen : s.length ≤ (x ++ s).length + 1 := by
    rw [List.length_append]
    omega
  rw [parse_eq_ok, parse_eq_ok]
  simp only [hvalue]
  constructor
  · rintro ⟨u, r, hu, hr, hfit⟩
    obtain ⟨r', hr', hread⟩ := (Respaced.refl s).parseValue hu hr
    exact ⟨u, r', hread _ (by omega), hr', hfit⟩
  · rintro ⟨u, r, hu, hr, hfit⟩
    obtain ⟨r', hr', hread⟩ := (Respaced.refl s).parseValue hu hr
    exact ⟨u, r', hread _ hlen, hr', hfit⟩

/-- Two results that succeed with the same documents. -/
theorem toOption_eq_of_ok_iff {a b : Except String Value} (h : ∀ v, a = .ok v ↔ b = .ok v) :
    a.toOption = b.toOption := by
  cases a with
  | ok v =>
    rw [(h v).mp rfl]
  | error e =>
    cases b with
    | ok v => exact absurd ((h v).mpr rfl) nofun
    | error e' => rfl

/-- The parser reads documents whatever blanks stand between their tokens. -/
theorem spaced : serde.Spaced where
  leading {x} s hx := by
    refine toOption_eq_of_ok_iff fun v => ?_
    simp only [serde, String.toList_append]
    exact parse_leading hx s.toList
  trailing s {x} hx := by
    refine toOption_eq_of_ok_iff fun v => ?_
    simp only [serde, String.toList_append]
    have hadd : Respaced s.toList (s.toList ++ x.toList) := by
      have := (Respaced.ends (x := []) (List.forall_mem_nil _) hx).append s.toList
      rwa [List.append_nil] at this
    have hdrop : Respaced (s.toList ++ x.toList) s.toList := by
      have := (Respaced.ends (y := []) hx (List.forall_mem_nil _)).append s.toList
      rwa [List.append_nil] at this
    exact ⟨hdrop.parse, hadd.parse⟩
  between {s x y t v} hx hlf hy hne h := by
    have hne' : y.toList ≠ [] := fun h => hne (String.toList_inj.mp (by rw [h]; rfl))
    simp only [serde, String.toList_append, List.append_assoc] at h ⊢
    exact ((Respaced.gap hx hlf hy hne' (.refl t.toList)).append s.toList).parse h

end MuseCodex.Json.Compact
