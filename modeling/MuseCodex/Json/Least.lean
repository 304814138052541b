import MuseCodex.Json.Size

/-!
# The least size of a document's text

However a document is written down, its text has the brackets of its arrays and objects, the quotes
of its strings, and at least one byte for each number. `Value.leastSize` adds these up.
`Serde.Spelled` states that no text with fewer bytes denotes the document, and `Compact.spelled`
proves it of the parser in `Compact.lean`. So what a document can hold is bounded by the bytes that
it was read from.
-/

namespace MuseCodex.Json

mutual

/-- The bytes that any text of a document has at least. Commas and blanks are not counted. -/
def Value.leastSize : Value → ℕ
  | .null | .bool _ => 4
  | .number _ => 1
  | .string s => s.utf8ByteSize + 2
  | .array items => itemsLeastSize items + 2
  | .object entries => entriesLeastSize entries + 2

/-- The bytes of the items of an array. -/
def itemsLeastSize : List Value → ℕ
  | [] => 0
  | v :: vs => v.leastSize + itemsLeastSize vs

/-- The bytes of the entries of an object, with a colon each. -/
def entriesLeastSize : List (String × Value) → ℕ
  | [] => 0
  | (k, v) :: m => k.utf8ByteSize + 3 + v.leastSize + entriesLeastSize m

end

/-- What the code relies on when it bounds what it holds by the bytes that it has read. -/
def Serde.Spelled (serde : Serde) : Prop :=
  ∀ text v, serde.fromStr text = .ok v → v.leastSize ≤ text.utf8ByteSize

/-! ## Parts of a document -/

/-- A document takes up a byte at least. -/
theorem leastSize_pos (v : Value) : 1 ≤ v.leastSize := by
  cases v <;> simp only [Value.leastSize] <;> omega

/-- An array has the bytes of each of its items. -/
theorem leastSize_le_of_mem {vs : List Value} {v : Value} (h : v ∈ vs) :
    v.leastSize ≤ itemsLeastSize vs := by
  induction vs with
  | nil => cases h
  | cons w vs ih =>
    rw [itemsLeastSize]
    rcases List.mem_cons.mp h with rfl | h
    · omega
    · have := ih h
      omega

/-- The entry of a key, and the entries of the other keys. -/
theorem entriesLeastSize_erase {m : Map Value} {k : String} {v : Value} (h : m.get k = some v) :
    k.utf8ByteSize + 3 + v.leastSize + entriesLeastSize (m.erase k) ≤ entriesLeastSize m := by
  have hle (m : Map Value) : entriesLeastSize (m.erase k) ≤ entriesLeastSize m := by
    induction m with
    | nil => exact Nat.le_refl _
    | cons e m ih =>
      obtain ⟨k', v'⟩ := e
      unfold Map.erase at ih ⊢
      rw [List.filter_cons, entriesLeastSize]
      split_ifs
      · rw [entriesLeastSize]
        omega
      · omega
  induction m with
  | nil => cases h
  | cons e m ih =>
    obtain ⟨k', v'⟩ := e
    rw [Map.get] at h
    unfold Map.erase at ih hle ⊢
    by_cases hk : k = k'
    · rw [if_pos hk] at h
      cases h
      have hrest := hle m
      rw [List.filter_cons_of_neg (by simp [hk]), entriesLeastSize, hk]
      rw [hk] at hrest
      omega
    · rw [if_neg hk] at h
      have hrest := ih h
      rw [List.filter_cons_of_pos (by simpa using Ne.symm hk), entriesLeastSize, entriesLeastSize]
      omega

/-- A member takes up its key, its value and three bytes more. -/
theorem entriesLeastSize_of_get {m : Map Value} {k : String} {v : Value} (h : m.get k = some v) :
    k.utf8ByteSize + 3 + v.leastSize ≤ entriesLeastSize m := by
  have := entriesLeastSize_erase h
  omega

/-- The bytes of the entry of a key, if there is one. -/
def memberLeastSize (m : Map Value) (k : String) : ℕ :=
  match m.get k with
  | some v => k.utf8ByteSize + 3 + v.leastSize
  | none => 0

/-- The entries of some keys do not overlap. -/
theorem memberLeastSize_sum_le (m : Map Value) {keys : List String} (h : keys.Nodup) :
    (keys.map (memberLeastSize m)).sum ≤ entriesLeastSize m := by
  induction keys generalizing m with
  | nil => exact Nat.zero_le _
  | cons k keys ih =>
    obtain ⟨hk, hkeys⟩ := List.nodup_cons.mp h
    rw [List.map_cons, List.sum_cons, memberLeastSize]
    cases hget : m.get k with
    | none =>
      have := ih m hkeys
      dsimp only
      omega
    | some v =>
      have hsame : keys.map (memberLeastSize (m.erase k)) = keys.map (memberLeastSize m) := by
        refine List.map_congr_left fun k' hk' => ?_
        have hne : k' ≠ k := fun heq => hk (heq ▸ hk')
        rw [memberLeastSize, memberLeastSize, Map.get_erase, if_neg hne]
      have hrest := ih (m.erase k) hkeys
      have herase := entriesLeastSize_erase hget
      rw [hsame] at hrest
      dsimp only
      omega

/-- A member of an object is smaller than the object, by its key and the braces. -/
theorem leastSize_of_get {v w : Value} {k : String} (h : v.get k = some w) :
    k.utf8ByteSize + 5 + w.leastSize ≤ v.leastSize := by
  cases v with
  | object m =>
    have hentry : Map.get m k = some w := h
    have := entriesLeastSize_of_get hentry
    rw [Value.leastSize]
    omega
  | null | bool | number | string | array => cases h

/-- Setting an entry adds at most its own bytes. -/
theorem entriesLeastSize_insert (m : Map Value) (k : String) (v : Value) :
    entriesLeastSize (m.insert k v) ≤
      entriesLeastSize m + (k.utf8ByteSize + 3 + v.leastSize) := by
  induction m with
  | nil => simp [Map.insert, entriesLeastSize]
  | cons entry m ih =>
    obtain ⟨k', v'⟩ := entry
    rw [Map.insert]
    split_ifs <;> simp only [entriesLeastSize] <;> omega

/-! ## The parser -/

namespace Compact

open String (utf8Len)

/-- No character is escaped with fewer bytes than it has. -/
theorem utf8Size_le_escapeSize (c : Char) : c.utf8Size ≤ escapeSize c := by
  have hfour := c.utf8Size_le_four
  unfold escapeSize
  split_ifs with hspecial hcontrol
  · have hone : c.utf8Size = 1 := by
      simp only [List.mem_cons, List.not_mem_nil, or_false] at hspecial
      obtain rfl | rfl | rfl | rfl | rfl | rfl | rfl := hspecial <;> rfl
    omega
  · omega
  · exact Nat.le_refl _

/-- A character is no longer than its escape. -/
theorem utf8Len_le_escapeSize (cs : List Char) : utf8Len cs ≤ (cs.map escapeSize).sum := by
  induction cs with
  | nil => exact Nat.le_refl _
  | cons c cs ih =>
    have hc := utf8Size_le_escapeSize c
    rw [String.utf8Len_cons, List.map_cons, List.sum_cons]
    omega

/-- A text after its opening quote has the bytes of the string, its closing quote, and the text
after it. -/
theorem parseString_least {text : List Char} {p : List Char × List Char}
    (h : parseString text = some p) :
    (String.ofList p.1).utf8ByteSize + 1 + utf8Len p.2 ≤ utf8Len text := by
  have hshortest := parseString_shortest h
  have hescape := utf8Len_le_escapeSize p.1
  rw [String.utf8ByteSize_ofList]
  omega

/-- Digits take up what is read of them. -/
theorem spanDigits_least (text : List Char) :
    utf8Len (spanDigits text).1 + utf8Len (spanDigits text).2 = utf8Len text := by
  rw [spanDigits, ← String.utf8Len_append, List.takeWhile_append_dropWhile]

/-- A natural number does not lengthen the text. -/
theorem parseNat_least {text : List Char} {p : ℕ × List Char} (h : parseNat text = some p) :
    utf8Len p.2 ≤ utf8Len text := by
  have hspan := spanDigits_least text
  unfold parseNat at h
  split at h
  · cases h
  · rename_i digits rest _ heq
    cases h
    rw [heq] at hspan
    dsimp only at hspan ⊢
    omega

/-- An exponent does not lengthen the text. -/
theorem parseExponent_least {text : List Char} {p : Option ℤ × List Char}
    (h : parseExponent text = some p) : utf8Len p.2 ≤ utf8Len text := by
  unfold parseExponent at h
  split at h
  · rename_i c text
    have hcons : utf8Len (c :: text) = utf8Len text + c.utf8Size := String.utf8Len_cons ..
    split_ifs at h
    · -- An exponent, with a sign or without.
      split at h
      all_goals obtain ⟨q, hq, heq⟩ := Option.map_eq_some_iff.mp h
      all_goals cases heq
      all_goals have hrest := parseNat_least hq
      all_goals simp only [String.utf8Len_cons] at hrest ⊢
      all_goals omega
    · cases h
      exact Nat.le_refl _
  · cases h
    exact Nat.le_refl _

/-- A number has at least a digit. -/
theorem parseMagnitude_least {negative : Bool} {text : List Char} {p : Number × List Char}
    (h : parseMagnitude negative text = some p) : 1 + utf8Len p.2 ≤ utf8Len text := by
  have hspan := spanDigits_least text
  unfold parseMagnitude at h
  split at h
  · cases h
  · cases h
  · rename_i digits rest hempty _ heq
    rw [heq] at hspan
    have hdigits : 1 ≤ utf8Len digits := by
      cases digits with
      | nil => exact absurd rfl hempty
      | cons d digits =>
        have := d.utf8Size_pos
        rw [String.utf8Len_cons]
        omega
    dsimp only at hspan
    split at h
    · -- A fraction.
      rename_i rest
      have hfraction := spanDigits_least rest
      dsimp only at h
      split_ifs at h
      simp only [Option.bind_eq_bind, Option.bind_eq_some_iff] at h
      obtain ⟨q, hq, h⟩ := h
      cases h
      have hrest := parseExponent_least hq
      simp only [String.utf8Len_cons] at hspan ⊢
      omega
    · simp only [Option.bind_eq_bind, Option.bind_eq_some_iff] at h
      obtain ⟨q, hq, h⟩ := h
      cases h
      have hrest := parseExponent_least hq
      dsimp only
      omega

/-- A number takes up a byte at least. -/
theorem parseNumber_least {text : List Char} {p : Number × List Char}
    (h : parseNumber text = some p) : 1 + utf8Len p.2 ≤ utf8Len text := by
  unfold parseNumber at h
  split at h
  · have := parseMagnitude_least h
    rw [String.utf8Len_cons]
    omega
  · exact parseMagnitude_least h

/-- What a parser has taken of a text is at least as long as what it has read, given the size of
that. -/
def Takes {α : Type} (size : α → ℕ) (parser : List Char → Option (α × List Char)) : Prop :=
  ∀ {text p}, parser text = some p → size p.1 + utf8Len p.2 ≤ utf8Len text

/-- The first character after blanks and the text after it. -/
theorem utf8Len_of_skipWs {text rest : List Char} {c : Char} (h : skipWs text = c :: rest) :
    utf8Len rest + 1 ≤ utf8Len text := by
  have hskip := utf8Len_skipWs text
  have hpos := c.utf8Size_pos
  rw [h, String.utf8Len_cons] at hskip
  omega

/-- The items of an array take up what they are, one fuel later. -/
theorem takes_parseItems {n : ℕ} (hvalue : Takes Value.leastSize (parseValue n))
    (hitems : Takes (fun vs => itemsLeastSize vs + 1) (parseItems n)) :
    Takes (fun vs => itemsLeastSize vs + 1) (parseItems (n + 1)) := by
  intro text p h
  rw [parseItems] at h
  obtain ⟨q, hq, h⟩ := Option.bind_eq_some_iff.mp h
  have hfirst := hvalue hq
  split at h
  · rename_i rest hcomma
    obtain ⟨r, hr, heq⟩ := Option.map_eq_some_iff.mp h
    cases heq
    have hskip := utf8Len_of_skipWs hcomma
    have hrest := hitems hr
    dsimp only at hrest ⊢
    rw [itemsLeastSize]
    omega
  · rename_i rest hclose
    cases h
    have hskip := utf8Len_of_skipWs hclose
    dsimp only
    rw [itemsLeastSize, itemsLeastSize]
    omega
  · cases h

/-- The entries are added to those that have been read before. -/
theorem takes_parseEntries {n : ℕ} (hvalue : Takes Value.leastSize (parseValue n))
    (hentries : ∀ m, Takes (fun m' => entriesLeastSize m' + 1 - entriesLeastSize m)
      (parseEntries n m)) (m : Map Value) :
    Takes (fun m' => entriesLeastSize m' + 1 - entriesLeastSize m) (parseEntries (n + 1) m) := by
  intro text p h
  rw [parseEntries] at h
  split at h
  · rename_i rest hquote
    obtain ⟨k, hk, h⟩ := Option.bind_eq_some_iff.mp h
    have hkey := parseString_least hk
    have hskip := utf8Len_of_skipWs hquote
    split at h
    · rename_i rest' hcolon
      obtain ⟨q, hq, h⟩ := Option.bind_eq_some_iff.mp h
      have hmember := hvalue hq
      have hskip' := utf8Len_of_skipWs hcolon
      have hinsert := entriesLeastSize_insert m (String.ofList k.1) q.1
      split at h
      · rename_i rest'' hcomma
        have hskip'' := utf8Len_of_skipWs hcomma
        have hrest := hentries _ h
        dsimp only at hrest ⊢
        omega
      · rename_i rest'' hclose
        cases h
        have hskip'' := utf8Len_of_skipWs hclose
        dsimp only
        omega
      · cases h
    · cases h
  · cases h

/-- A document takes up what it is, one fuel later. -/
theorem takes_parseValue {n : ℕ}
    (hitems : Takes (fun vs => itemsLeastSize vs + 1) (parseItems n))
    (hentries : ∀ m, Takes (fun m' => entriesLeastSize m' + 1 - entriesLeastSize m)
      (parseEntries n m)) : Takes Value.leastSize (parseValue (n + 1)) := by
  intro text p h
  have hskip := utf8Len_skipWs text
  have hletter (c : Char) : 1 ≤ c.utf8Size := c.utf8Size_pos
  rw [parseValue] at h
  split at h
  -- The literals.
  · rename_i rest hstart
    cases h
    have := hletter 'n'
    have := hletter 'u'
    have := hletter 'l'
    simp only [hstart, String.utf8Len_cons] at hskip
    dsimp only [Value.leastSize]
    omega
  · rename_i rest hstart
    cases h
    have := hletter 't'
    have := hletter 'r'
    have := hletter 'u'
    have := hletter 'e'
    simp only [hstart, String.utf8Len_cons] at hskip
    dsimp only [Value.leastSize]
    omega
  · rename_i rest hstart
    cases h
    have := hletter 'f'
    have := hletter 'a'
    have := hletter 'l'
    have := hletter 's'
    simp only [hstart, String.utf8Len_cons] at hskip
    dsimp only [Value.leastSize]
    omega
  · rename_i rest hstart
    obtain ⟨q, hq, heq⟩ := Option.map_eq_some_iff.mp h
    cases heq
    have hstring := parseString_least hq
    have hquote := utf8Len_of_skipWs hstart
    dsimp only [Value.leastSize]
    omega
  · rename_i rest hstart
    have hbracket := utf8Len_of_skipWs hstart
    split at h
    · rename_i rest' hclose
      cases h
      have hskip' := utf8Len_of_skipWs hclose
      dsimp only [Value.leastSize, itemsLeastSize]
      omega
    · obtain ⟨q, hq, heq⟩ := Option.map_eq_some_iff.mp h
      cases heq
      have hrest := hitems hq
      have hskip' := utf8Len_skipWs rest
      dsimp only [Value.leastSize] at hrest ⊢
      omega
  · rename_i rest hstart
    have hbrace := utf8Len_of_skipWs hstart
    split at h
    · rename_i rest' hclose
      cases h
      have hskip' := utf8Len_of_skipWs hclose
      dsimp only [Value.leastSize, entriesLeastSize]
      omega
    · obtain ⟨q, hq, heq⟩ := Option.map_eq_some_iff.mp h
      cases heq
      have hrest := hentries [] hq
      have hskip' := utf8Len_skipWs rest
      dsimp only [Value.leastSize, entriesLeastSize] at hrest ⊢
      omega
  · obtain ⟨q, hq, heq⟩ := Option.map_eq_some_iff.mp h
    cases heq
    have hnumber := parseNumber_least hq
    dsimp only [Value.leastSize]
    omega

/-- With any fuel, what is parsed takes up at least its size. -/
theorem takes (n : ℕ) : Takes Value.leastSize (parseValue n) ∧
    Takes (fun vs => itemsLeastSize vs + 1) (parseItems n) ∧
    ∀ m, Takes (fun m' => entriesLeastSize m' + 1 - entriesLeastSize m) (parseEntries n m) := by
  induction n with
  | zero =>
    refine ⟨?_, ?_, fun m => ?_⟩ <;> intro text p h <;> cases h
  | succ n ih =>
    obtain ⟨hvalue, hitems, hentries⟩ := ih
    exact ⟨takes_parseValue hitems hentries, takes_parseItems hvalue hitems,
      takes_parseEntries hvalue hentries⟩

mutual

/-- Fitting the numbers of a document leaves the least size of its text alone. -/
theorem leastSize_fit : ∀ v : Value, (fit v).leastSize = v.leastSize
  | .null | .bool _ | .number _ | .string _ => rfl
  | .array items => congrArg (· + 2) (itemsLeastSize_fitItems items)
  | .object m => congrArg (· + 2) (entriesLeastSize_fitEntries m)

/-- Fitting the items of an array leaves their least size alone. -/
theorem itemsLeastSize_fitItems : ∀ vs : List Value, itemsLeastSize (fitItems vs) =
    itemsLeastSize vs
  | [] => rfl
  | v :: vs => by
    rw [fitItems, itemsLeastSize, itemsLeastSize, leastSize_fit v, itemsLeastSize_fitItems vs]

/-- Fitting the entries of an object leaves their least size alone. -/
theorem entriesLeastSize_fitEntries : ∀ m : List (String × Value),
    entriesLeastSize (fitEntries m) = entriesLeastSize m
  | [] => rfl
  | (k, v) :: m => by
    rw [fitEntries, entriesLeastSize, entriesLeastSize, leastSize_fit v,
      entriesLeastSize_fitEntries m]

end

/-- A text has at least the bytes of the document that it denotes. -/
theorem spelled : serde.Spelled := by
  intro text v h
  obtain ⟨u, rest, hparse, -, rfl⟩ := parse_eq_ok.mp h
  have htakes := (takes _).1 hparse
  rw [leastSize_fit, ← String.utf8Len_toList]
  dsimp only at htakes
  omega

end Compact

end MuseCodex.Json
