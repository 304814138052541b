import MuseCodex.Json.Serde

/-!
# A compact JSON printer and its parser

A `Serde` that computes: `Compact.serde` prints a document on one line without blanks, escaping
what JSON asks to escape, and parses the JSON grammar, including whitespace, all escapes, and
repeated keys, of which the last one counts. The grammar is read exactly (`parseValue`); an integer
that does not fit the words of the library then becomes a double (`fit`). Parsing undoes printing on
every document with sorted objects and integers that fit (`parse_print`), so the instance satisfies
the laws that the code relies on (`Compact.lawful`, `Compact.scalarsDistinct`).
-/

namespace MuseCodex.Json.Compact

/-! ## Printing -/

/-- A character inside a printed string. -/
def escape (c : Char) : List Char :=
  if c = '"' then ['\\', '"']
  else if c = '\\' then ['\\', '\\']
  else if c = '\n' then ['\\', 'n']
  else if c = '\r' then ['\\', 'r']
  else if c = '\t' then ['\\', 't']
  else if c = '\x08' then ['\\', 'b']
  else if c = '\x0c' then ['\\', 'f']
  else if c.toNat < 0x20 then
    ['\\', 'u', '0', '0', (c.toNat / 16).digitChar, (c.toNat % 16).digitChar]
  else [c]

/-- A printed string, from its opening quote to its closing one. -/
def printString (s : String) : List Char := '"' :: s.toList.flatMap escape ++ ['"']

/-- The decimal digits of a natural number. -/
def printNat (n : ℕ) : List Char := Nat.toDigits 10 n

/-- A printed number. A double is its digits and its exponent. -/
def printNumber : Number → List Char
  | .posInt n => printNat n
  | .negInt n => '-' :: printNat (n + 1)
  | .float negative significand exponent =>
    (if negative then ['-'] else []) ++ printNat significand ++ 'e' ::
      (if exponent < 0 then '-' :: printNat exponent.natAbs else printNat exponent.natAbs)

mutual

/-- A printed value. -/
def print : Value → List Char
  | .null => ['n', 'u', 'l', 'l']
  | .bool true => ['t', 'r', 'u', 'e']
  | .bool false => ['f', 'a', 'l', 's', 'e']
  | .number n => printNumber n
  | .string s => printString s
  | .array [] => ['[', ']']
  | .array (v :: vs) => '[' :: print v ++ printItems vs
  | .object [] => ['\x7b', '\x7d']
  | .object ((k, v) :: m) => '\x7b' :: printString k ++ ':' :: print v ++ printEntries m

/-- The items of a printed array after its first one, through its closing bracket. -/
def printItems : List Value → List Char
  | [] => [']']
  | v :: vs => ',' :: print v ++ printItems vs

/-- The entries of a printed object after its first one, through its closing brace. -/
def printEntries : List (String × Value) → List Char
  | [] => ['\x7d']
  | (k, v) :: m => ',' :: printString k ++ ':' :: print v ++ printEntries m

end

/-! ## Parsing -/

/-- The text after its leading whitespace. -/
def skipWs : List Char → List Char
  | [] => []
  | c :: cs => if c = ' ' ∨ c = '\t' ∨ c = '\n' ∨ c = '\r' then skipWs cs else c :: cs

/-- The value of a hexadecimal digit. -/
def hexVal (c : Char) : Option ℕ :=
  if c.isDigit then some (c.toNat - 48)
  else if 'a' ≤ c ∧ c ≤ 'f' then some (c.toNat - 87)
  else if 'A' ≤ c ∧ c ≤ 'F' then some (c.toNat - 55)
  else none

/-- The value of four hexadecimal digits. -/
def hex4 (a b c d : Char) : Option ℕ := do
  let a ← hexVal a
  let b ← hexVal b
  let c ← hexVal c
  let d ← hexVal d
  return ((a * 16 + b) * 16 + c) * 16 + d

/-- The character that a backslash and a letter denote. -/
def unescape : Char → Option Char
  | '"' => some '"'
  | '\\' => some '\\'
  | '/' => some '/'
  | 'n' => some '\n'
  | 'r' => some '\r'
  | 't' => some '\t'
  | 'b' => some '\x08'
  | 'f' => some '\x0c'
  | _ => none

/-- A string after its opening quote: its characters, and the text after its closing quote. A
surrogate escape stands only before the other half of its pair. -/
def parseString : List Char → Option (List Char × List Char)
  | [] => none
  | '"' :: rest => some ([], rest)
  | '\\' :: 'u' :: a :: b :: c :: d :: rest => do
    let hi ← hex4 a b c d
    if 0xd800 ≤ hi ∧ hi < 0xdc00 then
      match rest with
      | '\\' :: 'u' :: e :: f :: g :: h :: rest => do
        let lo ← hex4 e f g h
        if 0xdc00 ≤ lo ∧ lo < 0xe000 then
          let (cs, rest) ← parseString rest
          return (Char.ofNat (0x10000 + (hi - 0xd800) * 0x400 + (lo - 0xdc00)) :: cs, rest)
        else none
      | _ => none
    else if 0xdc00 ≤ hi ∧ hi < 0xe000 then none
    else
      let (cs, rest) ← parseString rest
      return (Char.ofNat hi :: cs, rest)
  | '\\' :: c :: rest => do
    let c ← unescape c
    let (cs, rest) ← parseString rest
    return (c :: cs, rest)
  | c :: rest =>
    if c = '\\' ∨ c.toNat < 0x20 then none
    else do
      let (cs, rest) ← parseString rest
      return (c :: cs, rest)

/-- The digits at the start of a text, and the text after them. -/
def spanDigits (text : List Char) : List Char × List Char :=
  (text.takeWhile Char.isDigit, text.dropWhile Char.isDigit)

/-- A nonempty run of digits as a number. -/
def parseNat (text : List Char) : Option (ℕ × List Char) :=
  match spanDigits text with
  | ([], _) => none
  | (digits, rest) => some (Nat.ofDigitChars 10 digits 0, rest)

/-- The exponent of a number, if it has one. -/
def parseExponent : List Char → Option (Option ℤ × List Char)
  | c :: text =>
    if c = 'e' ∨ c = 'E' then
      match text with
      | '-' :: text => (parseNat text).map fun p => (some (-(p.1 : ℤ)), p.2)
      | '+' :: text => (parseNat text).map fun p => (some (p.1 : ℤ), p.2)
      | text => (parseNat text).map fun p => (some (p.1 : ℤ), p.2)
    else some (none, c :: text)
  | [] => some (none, [])

/-- A number after its sign. -/
def parseMagnitude (negative : Bool) (text : List Char) : Option (Number × List Char) :=
  match spanDigits text with
  | ([], _) => none
  | ('0' :: _ :: _, _) => none
  | (digits, rest) =>
    match rest with
    | '.' :: rest => do
      let (fraction, rest) := spanDigits rest
      if fraction = [] then none
      else
        let (exponent, rest) ← parseExponent rest
        return (.float negative (Nat.ofDigitChars 10 (digits ++ fraction) 0)
          (exponent.getD 0 - fraction.length), rest)
    | rest => do
      let (exponent, rest) ← parseExponent rest
      let n := Nat.ofDigitChars 10 digits 0
      return (match exponent with
        | some exponent => .float negative n exponent
        | none => if negative then (if n = 0 then .float true 0 0 else .negInt (n - 1))
          else .posInt n, rest)

/-- A number. -/
def parseNumber : List Char → Option (Number × List Char)
  | '-' :: text => parseMagnitude true text
  | text => parseMagnitude false text

mutual

/-- A value, and the text after it. The first argument bounds the recursion; the length of the
text suffices. -/
def parseValue : ℕ → List Char → Option (Value × List Char)
  | 0, _ => none
  | n + 1, text =>
    match skipWs text with
    | 'n' :: 'u' :: 'l' :: 'l' :: rest => some (.null, rest)
    | 't' :: 'r' :: 'u' :: 'e' :: rest => some (.bool true, rest)
    | 'f' :: 'a' :: 'l' :: 's' :: 'e' :: rest => some (.bool false, rest)
    | '"' :: rest => (parseString rest).map fun p => (.string (String.ofList p.1), p.2)
    | '[' :: rest =>
      match skipWs rest with
      | ']' :: rest => some (.array [], rest)
      | rest => (parseItems n rest).map fun p => (.array p.1, p.2)
    | '\x7b' :: rest =>
      match skipWs rest with
      | '\x7d' :: rest => some (.object [], rest)
      | rest => (parseEntries n [] rest).map fun p => (.object p.1, p.2)
    | rest => (parseNumber rest).map fun p => (.number p.1, p.2)

/-- The items of an array that has some, through its closing bracket. -/
def parseItems : ℕ → List Char → Option (List Value × List Char)
  | 0, _ => none
  | n + 1, text =>
    (parseValue n text).bind fun p =>
      match skipWs p.2 with
      | ',' :: rest => (parseItems n rest).map fun q => (p.1 :: q.1, q.2)
      | ']' :: rest => some ([p.1], rest)
      | _ => none

/-- The entries of an object that has some, through its closing brace, added to those before
them. -/
def parseEntries : ℕ → Map Value → List Char → Option (Map Value × List Char)
  | 0, _, _ => none
  | n + 1, m, text =>
    match skipWs text with
    | '"' :: rest => (parseString rest).bind fun k =>
      match skipWs k.2 with
      | ':' :: rest => (parseValue n rest).bind fun p =>
        match skipWs p.2 with
        | ',' :: rest => parseEntries n (m.insert (String.ofList k.1) p.1) rest
        | '\x7d' :: rest => some (m.insert (String.ofList k.1) p.1, rest)
        | _ => none
      | _ => none
    | _ => none

end

/-- A number within the words of the library: an integer that does not fit is a double. -/
def fitNumber : Number → Number
  | .posInt n => if n < 2 ^ 64 then .posInt n else .float false n 0
  | .negInt n => if n < 2 ^ 63 then .negInt n else .float true (n + 1) 0
  | x => x

mutual

/-- A document within the words of the library. -/
def fit : Value → Value
  | .number x => .number (fitNumber x)
  | .array items => .array (fitItems items)
  | .object m => .object (fitEntries m)
  | v => v

/-- The items of an array within the words of the library. -/
def fitItems : List Value → List Value
  | [] => []
  | v :: vs => fit v :: fitItems vs

/-- The entries of an object within the words of the library. -/
def fitEntries : List (String × Value) → List (String × Value)
  | [] => []
  | (k, v) :: m => (k, fit v) :: fitEntries m

end

/-- The document that a whole text denotes. -/
def parse (text : List Char) : Except String Value :=
  match parseValue (text.length + 1) text with
  | some (v, rest) => if skipWs rest = [] then .ok (fit v) else .error "trailing characters"
  | none => .error "expected value"

/-- The printer and the parser as a JSON library. -/
def serde : Serde where
  fromStr text := parse text.toList
  toString v := String.ofList (print v)

/-! ## Strings read back -/

/-- A hexadecimal digit denotes itself. -/
theorem hexVal_digitChar : ∀ d < 16, hexVal d.digitChar = some d := by decide

/-- Reading an escaped character gives the character. -/
theorem parseString_escape (c : Char) (rest : List Char) :
    parseString (escape c ++ rest) = (parseString rest).map fun p => (c :: p.1, p.2) := by
  unfold escape
  split_ifs with h₁ h₂ h₃ h₄ h₅ h₆ h₇ h₈
  · subst h₁; cases h : parseString rest <;> simp [parseString, unescape, h]
  · subst h₂; cases h : parseString rest <;> simp [parseString, unescape, h]
  · subst h₃; cases h : parseString rest <;> simp [parseString, unescape, h]
  · subst h₄; cases h : parseString rest <;> simp [parseString, unescape, h]
  · subst h₅; cases h : parseString rest <;> simp [parseString, unescape, h]
  · subst h₆; cases h : parseString rest <;> simp [parseString, unescape, h]
  · subst h₇; cases h : parseString rest <;> simp [parseString, unescape, h]
  · -- A control character is printed by its two low hexadecimal digits.
    have hhi := hexVal_digitChar (c.toNat / 16) (by omega)
    have hlo := hexVal_digitChar (c.toNat % 16) (by omega)
    have h0 : hexVal '0' = some 0 := by decide
    have hval : hex4 '0' '0' (c.toNat / 16).digitChar (c.toNat % 16).digitChar
        = some c.toNat := by
      simp only [hex4, hhi, hlo, h0]
      simp only [Option.bind_eq_bind, Option.bind_some, Option.pure_def, Option.some.injEq]
      omega
    have hlt : ¬ (0xd800 ≤ c.toNat ∧ c.toNat < 0xdc00) := by omega
    have hlt' : ¬ (0xdc00 ≤ c.toNat ∧ c.toNat < 0xe000) := by omega
    cases h : parseString rest <;> simp [parseString, hval, hlt, hlt', h, Char.ofNat_toNat]
  · rw [List.singleton_append]
    rw [parseString.eq_def]
    split
    · simp_all
    · simp_all
    · simp_all
    · simp_all
    · rename_i heq
      cases heq
      rw [if_neg (by simp [h₂, h₈])]
      cases parseString rest <;> rfl

/-- Reading a printed string gives its characters and stops after its closing quote. -/
theorem parseString_print (cs rest : List Char) :
    parseString (cs.flatMap escape ++ '"' :: rest) = some (cs, rest) := by
  induction cs with
  | nil => simp [parseString]
  | cons c cs ih =>
    rw [List.flatMap_cons, List.append_assoc, parseString_escape, ih]
    rfl

/-! ## Numbers read back -/

/-- What may stand after a printed value: nothing, or the delimiter of its array or object. -/
def Delimited (rest : List Char) : Prop :=
  ∀ c cs, rest = c :: cs → c = ',' ∨ c = ']' ∨ c = '\x7d'

/-- The end of a text ends a number. -/
theorem delimited_nil : Delimited [] := by
  intro c cs h
  cases h

/-- So does what comes after an item of an array. -/
theorem delimited_printItems (vs : List Value) (r : List Char) :
    Delimited (printItems vs ++ r) := by
  intro c cs h
  cases vs with
  | nil =>
    simp only [printItems, List.cons_append, List.cons.injEq] at h
    exact .inr (.inl h.1.symm)
  | cons v vs =>
    simp only [printItems, List.cons_append, List.cons.injEq] at h
    exact .inl h.1.symm

/-- So does what comes after a member of an object. -/
theorem delimited_printEntries (m : List (String × Value)) (r : List Char) :
    Delimited (printEntries m ++ r) := by
  intro c cs h
  cases m with
  | nil =>
    simp only [printEntries, List.cons_append, List.cons.injEq] at h
    exact .inr (.inr h.1.symm)
  | cons e m =>
    simp only [printEntries, List.cons_append, List.cons.injEq] at h
    exact .inl h.1.symm

/-- The scanner takes the digits of a number and stops after them. -/
theorem spanDigits_append {digits rest : List Char} (hd : ∀ c ∈ digits, c.isDigit)
    (hr : ∀ c cs, rest = c :: cs → c.isDigit = false) :
    spanDigits (digits ++ rest) = (digits, rest) := by
  have hstop : rest.takeWhile Char.isDigit = [] ∧ rest.dropWhile Char.isDigit = rest := by
    cases rest with
    | nil => exact ⟨rfl, rfl⟩
    | cons c cs => simp [hr c cs rfl]
  rw [spanDigits, List.takeWhile_append_of_pos hd, List.dropWhile_append_of_pos hd, hstop.1,
    hstop.2, List.append_nil]

/-- A natural number is printed in digits. -/
theorem printNat_isDigit (n : ℕ) : ∀ c ∈ printNat n, c.isDigit := fun _ hc =>
  Nat.isDigit_of_mem_toDigits (by decide) (by decide) hc

/-- The digits of a positive number do not start with zero. -/
theorem printNat_head_ne (n : ℕ) (hn : 0 < n) : ∃ d ds, printNat n = d :: ds ∧ d ≠ '0' := by
  induction n using Nat.strong_induction_on with
  | _ n ih =>
    unfold printNat at ih ⊢
    by_cases h : n < 10
    · refine ⟨n.digitChar, [], Nat.toDigits_of_lt_base h, ?_⟩
      rw [Ne, Nat.digitChar_eq_zero]
      omega
    · obtain ⟨d, ds, hds, hd⟩ := ih (n / 10) (by omega) (by omega)
      refine ⟨d, ds ++ [(n % 10).digitChar], ?_, hd⟩
      rw [Nat.toDigits_of_base_le (by decide) (by omega), hds, List.cons_append]

/-- Printed digits have no superfluous leading zero. -/
theorem printNat_ne_zero_cons (n : ℕ) (d : Char) (ds : List Char) :
    printNat n ≠ '0' :: d :: ds := by
  intro h
  rcases Nat.eq_zero_or_pos n with rfl | hn
  · simp [printNat] at h
  · obtain ⟨d', ds', h', hd⟩ := printNat_head_ne n hn
    rw [h] at h'
    exact hd (List.cons.inj h').1.symm

/-- A text after a number does not continue its digits. -/
theorem Delimited.not_digit {rest : List Char} (h : Delimited rest) :
    ∀ c cs, rest = c :: cs → c.isDigit = false := by
  intro c cs hc
  rcases h c cs hc with rfl | rfl | rfl <;> decide

/-- A text after a number does not continue it with an exponent. -/
theorem parseExponent_delimited {rest : List Char} (h : Delimited rest) :
    parseExponent rest = some (none, rest) := by
  cases rest with
  | nil => rfl
  | cons c cs => rcases h c cs rfl with rfl | rfl | rfl <;> rfl

/-- A natural number is read back. -/
theorem parseNat_print (n : ℕ) {rest : List Char} (h : Delimited rest) :
    parseNat (printNat n ++ rest) = some (n, rest) := by
  unfold parseNat
  rw [spanDigits_append (printNat_isDigit n) h.not_digit]
  cases hn : printNat n with
  | nil => exact absurd hn Nat.toDigits_ne_nil
  | cons d ds =>
    dsimp only
    rw [← hn, printNat, Nat.ofDigitChars_ten_toDigits]

/-- Reading the digits of a number, without a fraction. -/
theorem parseMagnitude_print (negative : Bool) (n : ℕ) {rest : List Char}
    (hd : ∀ c cs, rest = c :: cs → c.isDigit = false) (hp : ∀ cs, rest ≠ '.' :: cs) :
    parseMagnitude negative (printNat n ++ rest) =
      (parseExponent rest).map fun p => (match p.1 with
        | some exponent => .float negative n exponent
        | none => if negative then (if n = 0 then .float true 0 0 else .negInt (n - 1))
          else .posInt n, p.2) := by
  unfold parseMagnitude
  rw [spanDigits_append (printNat_isDigit n) hd]
  split
  · rename_i heq
    exact absurd (Prod.mk.inj heq).1 Nat.toDigits_ne_nil
  · rename_i heq
    exact absurd (Prod.mk.inj heq).1 (printNat_ne_zero_cons n _ _)
  · rename_i digits rest' _ _ heq
    obtain ⟨rfl, rfl⟩ := Prod.mk.inj heq
    split
    · exact absurd rfl (hp _)
    · rw [show Nat.ofDigitChars 10 (printNat n) 0 = n from Nat.ofDigitChars_ten_toDigits]
      cases parseExponent rest <;> rfl

/-- The exponent of a printed double is read back. -/
theorem parseExponent_print (exponent : ℤ) {rest : List Char} (h : Delimited rest) :
    parseExponent ('e' :: (if exponent < 0 then '-' :: printNat exponent.natAbs
      else printNat exponent.natAbs) ++ rest) = some (some exponent, rest) := by
  simp only [List.cons_append, parseExponent, true_or, if_true]
  split_ifs with hneg
  · rw [List.cons_append]
    simp only [parseNat_print _ h, Option.map_some]
    congr 3
    omega
  · have hnat : ((exponent.natAbs : ℕ) : ℤ) = exponent := by omega
    have hdig := printNat_isDigit exponent.natAbs
    have hparse := parseNat_print exponent.natAbs h
    cases hds : printNat exponent.natAbs with
    | nil => exact absurd hds Nat.toDigits_ne_nil
    | cons d ds =>
      rw [hds] at hdig hparse
      have hd : d.isDigit := hdig d List.mem_cons_self
      split
      · rename_i heq
        cases heq
        exact absurd hd (by decide)
      · rename_i heq
        cases heq
        exact absurd hd (by decide)
      · rw [hparse, Option.map_some, hnat]

/-- Printed digits start with a digit, so not with a sign. -/
theorem parseNumber_digits (n : ℕ) (rest : List Char) :
    parseNumber (printNat n ++ rest) = parseMagnitude false (printNat n ++ rest) := by
  have hdig := printNat_isDigit n
  cases hds : printNat n with
  | nil => exact absurd hds Nat.toDigits_ne_nil
  | cons d ds =>
    rw [hds] at hdig
    have hd : d ≠ '-' := by
      rintro rfl
      exact absurd (hdig '-' List.mem_cons_self) (by decide)
    rw [List.cons_append, parseNumber.eq_def]
    split
    · rename_i heq
      exact absurd (List.cons.inj heq).1 hd
    · rfl

/-- Reading a printed number gives the number. -/
theorem parseNumber_print (x : Number) {rest : List Char} (h : Delimited rest) :
    parseNumber (printNumber x ++ rest) = some (x, rest) := by
  -- What follows a number does not go on with a fraction.
  have hpoint : ∀ cs, rest ≠ '.' :: cs := by
    rintro cs rfl
    rcases h _ _ rfl with h | h | h <;> exact absurd h (by decide)
  cases x with
  | posInt n =>
    rw [printNumber, parseNumber_digits, parseMagnitude_print false n h.not_digit hpoint,
      parseExponent_delimited h]
    rfl
  | negInt n =>
    rw [printNumber, List.cons_append, parseNumber,
      parseMagnitude_print true (n + 1) h.not_digit hpoint, parseExponent_delimited h]
    simp
  | float negative significand exponent =>
    have hexp := parseExponent_print exponent h
    have hmag : ∀ neg, parseMagnitude neg (printNat significand ++ ('e' ::
        (if exponent < 0 then '-' :: printNat exponent.natAbs
          else printNat exponent.natAbs) ++ rest)) =
        some (.float neg significand exponent, rest) := by
      intro neg
      rw [parseMagnitude_print neg significand, hexp]
      · rfl
      · rintro c cs hc
        rw [← (List.cons.inj hc).1]
        decide
      · rintro cs hc
        exact absurd (List.cons.inj hc).1 (by decide)
    cases negative with
    | true =>
      simp only [printNumber, if_true, List.append_assoc, List.cons_append, List.nil_append]
      rw [parseNumber, ← List.cons_append, hmag]
    | false =>
      simp only [printNumber, Bool.false_eq_true, if_false, List.append_assoc, List.nil_append]
      rw [parseNumber_digits, hmag]

/-! ## Values read back -/

/-- A character that is no blank is not skipped. -/
@[simp] theorem skipWs_cons {c : Char} (h : ¬ (c = ' ' ∨ c = '\t' ∨ c = '\n' ∨ c = '\r'))
    (cs : List Char) : skipWs (c :: cs) = c :: cs := by
  rw [skipWs, if_neg h]

/-- A number starts with a digit or a sign. -/
theorem printNumber_head (x : Number) :
    ∃ c cs, printNumber x = c :: cs ∧ (c.isDigit ∨ c = '-') := by
  have hnat : ∀ n, ∃ c cs, printNat n = c :: cs ∧ c.isDigit := by
    intro n
    have hdig := printNat_isDigit n
    cases hds : printNat n with
    | nil => exact absurd hds Nat.toDigits_ne_nil
    | cons d ds => exact ⟨d, ds, rfl, hdig d (by simp [hds])⟩
  cases x with
  | posInt n =>
    obtain ⟨c, cs, h, hc⟩ := hnat n
    exact ⟨c, cs, h, .inl hc⟩
  | negInt n => exact ⟨'-', _, rfl, .inr rfl⟩
  | float negative significand exponent =>
    cases negative with
    | true => exact ⟨'-', _, rfl, .inr rfl⟩
    | false =>
      obtain ⟨c, cs, h, hc⟩ := hnat significand
      exact ⟨c, _, by rw [printNumber, h]; rfl, .inl hc⟩

/-- Reading a printed number as a value gives the number. -/
theorem parseValue_number (x : Number) (n : ℕ) {rest : List Char} (h : Delimited rest) :
    parseValue (n + 1) (printNumber x ++ rest) = some (.number x, rest) := by
  have hparse := parseNumber_print x h
  obtain ⟨c, cs, hx, hc⟩ := printNumber_head x
  rw [hx, List.cons_append] at hparse ⊢
  have hne : ∀ d : Char, d.isDigit = false → d ≠ '-' → c ≠ d := by
    rintro d hd hd' rfl
    rcases hc with hc | hc
    · rw [hd] at hc; exact absurd hc (by decide)
    · exact hd' hc
  have hws : ¬ (c = ' ' ∨ c = '\t' ∨ c = '\n' ∨ c = '\r') := by
    rintro (h | h | h | h) <;> exact hne _ (by decide) (by decide) h
  rw [parseValue, skipWs_cons hws]
  -- No literal, string, array, or object starts with a digit or a sign.
  split
  case h_7 => rw [hparse]; rfl
  all_goals
    rename_i heq
    exact absurd (List.cons.inj heq).1 (hne _ (by decide) (by decide))

/-- A string is read back. -/
theorem parseValue_string (s : String) (n : ℕ) (rest : List Char) :
    parseValue (n + 1) (printString s ++ rest) = some (.string s, rest) := by
  have h := parseString_print s.toList rest
  simp only [printString, List.cons_append, List.append_assoc, List.nil_append, parseValue]
  rw [skipWs_cons (by decide)]
  simp [h]

/-- A printed value starts with a character that is neither whitespace nor a closing bracket. -/
theorem print_head (v : Value) :
    ∃ c cs, print v = c :: cs ∧ ¬ (c = ' ' ∨ c = '\t' ∨ c = '\n' ∨ c = '\r') ∧ c ≠ ']' := by
  cases v with
  | null => exact ⟨'n', _, rfl, by decide, by decide⟩
  | bool b => cases b <;> exact ⟨_, _, rfl, by decide, by decide⟩
  | number x =>
    obtain ⟨c, cs, h, hc⟩ := printNumber_head x
    refine ⟨c, cs, h, ?_, ?_⟩
    · rcases hc with hc | rfl
      · rintro (rfl | rfl | rfl | rfl) <;> exact absurd hc (by decide)
      · decide
    · rcases hc with hc | rfl
      · rintro rfl
        exact absurd hc (by decide)
      · decide
  | string s => exact ⟨'"', _, rfl, by decide, by decide⟩
  | array items => cases items <;> exact ⟨'[', _, rfl, by decide, by decide⟩
  | object m => cases m <;> exact ⟨'\x7b', _, rfl, by decide, by decide⟩

/-- Reading back a value, with the recursion bounded by the length of its text. -/
def ReadsBack (v : Value) : Prop :=
  ∀ n rest, (print v).length ≤ n → Delimited rest → parseValue n (print v ++ rest) = some (v, rest)

/-- The items of a printed array are read back when each of them is. -/
theorem parseItems_print (vs : List Value) : ∀ (v : Value) (n : ℕ) (rest : List Char),
    (∀ w ∈ v :: vs, ReadsBack w) → (print v).length + (printItems vs).length ≤ n →
    parseItems n (print v ++ (printItems vs ++ rest)) = some (v :: vs, rest) := by
  induction vs with
  | nil =>
    intro v n rest hv hn
    obtain ⟨n, rfl⟩ : ∃ k, n = k + 1 := ⟨n - 1, by simp [printItems] at hn; omega⟩
    have h := hv v List.mem_cons_self n (printItems [] ++ rest)
      (by simp [printItems] at hn; omega) (delimited_printItems _ _)
    rw [parseItems, h]
    simp only [Option.bind_some, printItems, List.cons_append, List.nil_append]
    rw [skipWs_cons (by decide)]
    rfl
  | cons w vs ih =>
    intro v n rest hv hn
    obtain ⟨n, rfl⟩ : ∃ k, n = k + 1 := ⟨n - 1, by simp [printItems] at hn; omega⟩
    have h := hv v List.mem_cons_self n (printItems (w :: vs) ++ rest)
      (by simp [printItems] at hn; omega) (delimited_printItems _ _)
    have htail := ih w n rest (fun u hu => hv u (List.mem_cons_of_mem _ hu))
      (by simp [printItems] at hn; omega)
    rw [parseItems, h]
    simp only [Option.bind_some, printItems, List.cons_append, List.append_assoc]
    rw [skipWs_cons (by decide)]
    simp [htail]

/-- The key of an entry after the entries before it, in sorted order, is inserted at the end. -/
theorem insert_of_sorted {m : Map Value} {k : String} {v : Value} {rest : Map Value}
    (h : Map.Sorted (m ++ (k, v) :: rest)) : m.insert k v = m ++ [(k, v)] := by
  induction m with
  | nil => rfl
  | cons e m ih =>
    obtain ⟨k₀, v₀⟩ := e
    obtain ⟨hlt, htail⟩ := List.pairwise_cons.mp h
    have hk : k₀ < k := hlt (k, v) (by simp)
    rw [Map.insert, if_neg (ne_of_gt hk), if_neg (lt_asymm hk), ih htail, List.cons_append]

/-- The entries of a printed object are read back when the value of each of them is. -/
theorem parseEntries_print (es : Map Value) : ∀ (m : Map Value) (k : String) (v : Value) (n : ℕ)
    (rest : List Char), Map.Sorted (m ++ (k, v) :: es) → (∀ e ∈ (k, v) :: es, ReadsBack e.2) →
    (print v).length + (printEntries es).length ≤ n →
    parseEntries n m (printString k ++ (':' :: (print v ++ (printEntries es ++ rest)))) =
      some (m ++ (k, v) :: es, rest) := by
  induction es with
  | nil =>
    intro m k v n rest hs hv hn
    obtain ⟨n, rfl⟩ : ∃ j, n = j + 1 := ⟨n - 1, by simp [printEntries] at hn; omega⟩
    have h : parseValue n (print v ++ (printEntries [] ++ rest)) =
        some (v, printEntries [] ++ rest) :=
      hv (k, v) List.mem_cons_self n _ (by simp [printEntries] at hn ⊢; omega)
        (delimited_printEntries _ _)
    simp only [printString, List.cons_append, List.append_assoc, List.nil_append, parseEntries]
    rw [skipWs_cons (by decide)]
    simp only [parseString_print, Option.bind_some]
    rw [skipWs_cons (by decide)]
    simp only [h, Option.bind_some]
    simp only [printEntries, List.cons_append, List.nil_append]
    rw [skipWs_cons (by decide)]
    simp [insert_of_sorted hs]
  | cons e es ih =>
    obtain ⟨k', v'⟩ := e
    intro m k v n rest hs hv hn
    obtain ⟨n, rfl⟩ : ∃ j, n = j + 1 := ⟨n - 1, by simp [printEntries] at hn; omega⟩
    have h : parseValue n (print v ++ (printEntries ((k', v') :: es) ++ rest)) =
        some (v, printEntries ((k', v') :: es) ++ rest) :=
      hv (k, v) List.mem_cons_self n _ (by simp [printEntries] at hn ⊢; omega)
        (delimited_printEntries _ _)
    have htail := ih (m ++ [(k, v)]) k' v' n rest (by simpa using hs)
      (fun u hu => hv u (List.mem_cons_of_mem _ hu)) (by simp [printEntries] at hn; omega)
    simp only [printString, List.cons_append, List.append_assoc, List.nil_append, parseEntries]
    rw [skipWs_cons (by decide)]
    simp only [parseString_print, Option.bind_some]
    rw [skipWs_cons (by decide)]
    simp only [h, Option.bind_some]
    simp only [printEntries, List.cons_append, List.append_assoc]
    rw [skipWs_cons (by decide)]
    simpa [insert_of_sorted hs] using htail

/-- Reading a printed document gives the document. -/
theorem parseValue_print {d : ℕ} {v : Value} (h : Plain d v) : ReadsBack v := by
  induction h with
  | null =>
    intro n rest hn _
    obtain ⟨n, rfl⟩ : ∃ k, n = k + 1 := ⟨n - 1, by simp [print] at hn; omega⟩
    simp [print, parseValue]
  | bool d b =>
    intro n rest hn _
    obtain ⟨n, rfl⟩ : ∃ k, n = k + 1 := ⟨n - 1, by cases b <;> simp [print] at hn <;> omega⟩
    cases b <;> simp [print, parseValue]
  | @posInt d x =>
    intro n rest hn hr
    obtain ⟨c, cs, hx, -⟩ := printNumber_head (.posInt x)
    obtain ⟨n, rfl⟩ : ∃ k, n = k + 1 := ⟨n - 1, by simp [print, hx] at hn; omega⟩
    exact parseValue_number _ n hr
  | @negInt d x =>
    intro n rest hn hr
    obtain ⟨c, cs, hx, -⟩ := printNumber_head (.negInt x)
    obtain ⟨n, rfl⟩ : ∃ k, n = k + 1 := ⟨n - 1, by simp [print, hx] at hn; omega⟩
    exact parseValue_number _ n hr
  | string d s =>
    intro n rest hn _
    obtain ⟨n, rfl⟩ : ∃ k, n = k + 1 := ⟨n - 1, by simp [print, printString] at hn; omega⟩
    exact parseValue_string s n rest
  | @array d items _ ih =>
    intro n rest hn _
    obtain ⟨n, rfl⟩ : ∃ k, n = k + 1 := ⟨n - 1, by cases items <;> simp [print] at hn <;> omega⟩
    cases items with
    | nil => simp [print, parseValue, skipWs]
    | cons v vs =>
      have hitems := parseItems_print vs v n rest ih (by simp [print] at hn; omega)
      obtain ⟨c, cs, hv, hws, hc⟩ := print_head v
      simp only [print, List.cons_append, List.append_assoc, parseValue]
      rw [skipWs_cons (by decide)]
      rw [hv, List.cons_append] at hitems ⊢
      simp only [skipWs_cons hws]
      split
      · -- A document does not start with the bracket that ends the array.
        rename_i heq
        exact absurd (List.cons.inj heq).1 hc
      · rw [hitems]; rfl
  | @object d m hs _ ih =>
    intro n rest hn _
    obtain ⟨n, rfl⟩ : ∃ k, n = k + 1 := ⟨n - 1, by cases m <;> simp [print] at hn <;> omega⟩
    cases m with
    | nil => simp [print, parseValue, skipWs]
    | cons e es =>
      obtain ⟨k, v⟩ := e
      have hentries := parseEntries_print es [] k v n rest hs ih (by simp [print] at hn; omega)
      simp only [print, List.cons_append, List.append_assoc, parseValue]
      rw [skipWs_cons (by decide)]
      simp only [printString, List.cons_append, List.append_assoc, List.nil_append] at hentries ⊢
      rw [skipWs_cons (by decide)]
      simp [hentries]

/-! ## The words of the library -/

mutual

/-- The integers of a fitted document fit the words of the library. -/
theorem inRange_fit : ∀ v : Value, InRange (fit v)
  | .null => .null
  | .bool b => .bool b
  | .number (.posInt n) => by
    rw [fit, fitNumber]
    split_ifs with h
    · exact .posInt h
    · exact .float _ _ _
  | .number (.negInt n) => by
    rw [fit, fitNumber]
    split_ifs with h
    · exact .negInt h
    · exact .float _ _ _
  | .number (.float _ _ _) => .float _ _ _
  | .string s => .string s
  | .array items => .array (inRange_fitItems items)
  | .object m => .object (inRange_fitEntries m)

/-- The items of a fitted array are in range. -/
theorem inRange_fitItems : ∀ vs : List Value, ∀ v ∈ fitItems vs, InRange v
  | [] => by
    intro v hv
    cases hv
  | w :: vs => by
    intro v hv
    rcases List.mem_cons.mp hv with rfl | hv
    · exact inRange_fit w
    · exact inRange_fitItems vs v hv

/-- The values of a fitted object are in range. -/
theorem inRange_fitEntries : ∀ m : List (String × Value), ∀ e ∈ fitEntries m, InRange e.2
  | [] => by
    intro e he
    cases he
  | (k, w) :: m => by
    intro e he
    rcases List.mem_cons.mp he with rfl | he
    · exact inRange_fit w
    · exact inRange_fitEntries m e he

end

/-- The items of an array are fitted one by one. -/
theorem fitItems_eq (vs : List Value) : fitItems vs = vs.map fit := by
  induction vs with
  | nil => rfl
  | cons v vs ih => rw [fitItems, ih, List.map_cons]

/-- The members of an object are fitted one by one. -/
theorem fitEntries_eq (m : List (String × Value)) :
    fitEntries m = m.map fun e => (e.1, fit e.2) := by
  induction m with
  | nil => rfl
  | cons e m ih => rw [fitEntries, ih, List.map_cons]

/-- A plain document fits as it is. -/
theorem fit_of_plain {d : ℕ} {v : Value} (h : Plain d v) : fit v = v := by
  induction h with
  | null | bool | string => rfl
  | posInt _ hn => rw [fit, fitNumber, if_pos hn]
  | negInt _ hn => rw [fit, fitNumber, if_pos hn]
  | @array _ items _ ih =>
    have hitems : items.map fit = items := (List.map_congr_left ih).trans (List.map_id _)
    rw [fit, fitItems_eq, hitems]
  | @object _ m _ _ ih =>
    have hsame : ∀ e ∈ m, (e.1, fit e.2) = id e := fun e he => Prod.ext rfl (ih e he)
    rw [fit, fitEntries_eq, List.map_congr_left hsame, List.map_id]

/-! ## The laws -/

/-- Parsing undoes printing. -/
theorem parse_print {d : ℕ} {v : Value} (h : Plain d v) : parse (print v) = .ok v := by
  have hread := parseValue_print h ((print v).length + 1) [] (by omega) delimited_nil
  rw [List.append_nil] at hread
  rw [parse, hread]
  exact congrArg Except.ok (fit_of_plain h)

/-- A text is a document exactly when a value is read from it and blanks follow. -/
theorem parse_eq_ok {s : List Char} {v : Value} : parse s = .ok v ↔
    ∃ u r, parseValue (s.length + 1) s = some (u, r) ∧ skipWs r = [] ∧ fit u = v := by
  unfold parse
  constructor
  · intro h
    split at h
    · rename_i u r hu
      split_ifs at h with hr
      exact ⟨u, r, hu, hr, Except.ok.inj h⟩
    · cases h
  · rintro ⟨u, r, hu, hr, rfl⟩
    rw [hu]
    exact if_pos hr

/-- What a text denotes is in range. -/
theorem parse_inRange {text : List Char} {v : Value} (h : parse text = .ok v) : InRange v := by
  obtain ⟨u, -, -, -, rfl⟩ := parse_eq_ok.mp h
  exact inRange_fit u

/-- The characters that end a line do not occur in a text. -/
def OneLine (text : List Char) : Prop := ∀ c ∈ text, c ≠ '\r' ∧ c ≠ '\n'

/-- It can be checked character by character that a text is one line. -/
instance (text : List Char) : Decidable (OneLine text) :=
  List.decidableBAll (fun c => c ≠ '\r' ∧ c ≠ '\n') text

/-- Two texts on one line are one. -/
theorem OneLine.append {a b : List Char} (ha : OneLine a) (hb : OneLine b) : OneLine (a ++ b) :=
  fun c hc => (List.mem_append.mp hc).elim (ha c) (hb c)

/-- A character that is no line end stays on the line. -/
theorem OneLine.cons {c : Char} {a : List Char} (hc : c ≠ '\r' ∧ c ≠ '\n') (ha : OneLine a) :
    OneLine (c :: a) := by
  intro d hd
  rcases List.mem_cons.mp hd with rfl | hd
  · exact hc
  · exact ha d hd

/-- An escaped character is on one line, since line ends are escaped. -/
theorem escape_oneLine (c : Char) : OneLine (escape c) := by
  have hdigit : ∀ n < 16, n.digitChar ≠ '\r' ∧ n.digitChar ≠ '\n' := by decide
  unfold escape
  split_ifs with h₁ h₂ h₃ h₄ h₅ h₆ h₇ h₈
  · decide
  · decide
  · decide
  · decide
  · decide
  · decide
  · decide
  · intro d hd
    simp only [List.mem_cons, List.not_mem_nil, or_false] at hd
    rcases hd with rfl | rfl | rfl | rfl | rfl | rfl
    · decide
    · decide
    · decide
    · decide
    · exact hdigit _ (by omega)
    · exact hdigit _ (by omega)
  · intro d hd
    rw [List.mem_singleton.mp hd]
    exact ⟨h₄, h₃⟩

/-- A string is printed on one line. -/
theorem printString_oneLine (s : String) : OneLine (printString s) := by
  refine .cons (by decide) (.append ?_ (by decide))
  intro d hd
  obtain ⟨c, -, hd⟩ := List.mem_flatMap.mp hd
  exact escape_oneLine c d hd

/-- A natural number is printed on one line. -/
theorem printNat_oneLine (n : ℕ) : OneLine (printNat n) := by
  intro c hc
  have := printNat_isDigit n c hc
  constructor <;> rintro rfl <;> exact absurd this (by decide)

/-- A number is printed on one line. -/
theorem printNumber_oneLine (x : Number) : OneLine (printNumber x) := by
  cases x with
  | posInt n => exact printNat_oneLine n
  | negInt n => exact .cons (by decide) (printNat_oneLine _)
  | float negative significand exponent =>
    refine .append (.append ?_ (printNat_oneLine _)) (.cons (by decide) ?_)
    · cases negative <;> decide
    · split_ifs
      · exact .cons (by decide) (printNat_oneLine _)
      · exact printNat_oneLine _

mutual

/-- A printed value is on one line. -/
theorem print_oneLine : ∀ v : Value, OneLine (print v)
  | .null => by decide
  | .bool true => by decide
  | .bool false => by decide
  | .number x => printNumber_oneLine x
  | .string s => printString_oneLine s
  | .array [] => by decide
  | .array (v :: vs) => .cons (by decide) (.append (print_oneLine v) (printItems_oneLine vs))
  | .object [] => by decide
  | .object ((k, v) :: m) =>
    .cons (by decide) (.append (.append (printString_oneLine k)
      (.cons (by decide) (print_oneLine v))) (printEntries_oneLine m))

/-- The items of an array are printed on one line. -/
theorem printItems_oneLine : ∀ vs : List Value, OneLine (printItems vs)
  | [] => by decide
  | v :: vs => .cons (by decide) (.append (print_oneLine v) (printItems_oneLine vs))

/-- The members of an object are printed on one line. -/
theorem printEntries_oneLine : ∀ m : List (String × Value), OneLine (printEntries m)
  | [] => by decide
  | (k, v) :: m =>
    .cons (by decide) (.append (.append (printString_oneLine k)
      (.cons (by decide) (print_oneLine v))) (printEntries_oneLine m))

end

/-- The printer and the parser satisfy the laws of the interface. -/
theorem lawful : serde.Lawful where
  fromStr_toString v h := by
    simp only [serde, String.toList_ofList]
    exact parse_print h
  fromStr_inRange s v h := parse_inRange h
  toString_line v := by
    simp only [serde, String.toList_ofList]
    exact print_oneLine v
  toString_object m := by
    simp only [serde, String.toList_ofList]
    cases m <;> rfl

/-- A printed scalar determines the scalar. -/
theorem scalarsDistinct : serde.ScalarsDistinct := by
  have hread : ∀ v : Value, v.isScalar → parseValue 1 (print v) = some (v, []) := by
    intro v hv
    cases v with
    | null => rfl
    | number x => simpa [print] using parseValue_number x 0 delimited_nil
    | string s => simpa [print] using parseValue_string s 0 []
    | bool _ | array _ | object _ => simp [Value.isScalar] at hv
  intro v w hv hw h
  have hprint : print v = print w := by
    have := congrArg String.toList h
    simpa [serde] using this
  have h1 := hread v hv
  rw [hprint, hread w hw] at h1
  exact (Prod.mk.inj (Option.some.inj h1)).1.symm

end MuseCodex.Json.Compact
