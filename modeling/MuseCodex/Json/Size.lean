import Mathlib.Data.Nat.Digits.Defs
import MuseCodex.Json.Spacing

/-!
# The size of a printed document

A compact printer writes no blanks, and writes an integer with its decimal digits. So the text of a
document is no longer than `Value.sizeBy`, which adds up the parts of the document, given the size
of its strings. A byte of a string is escaped with at most six bytes, which bounds the text by
`Value.textSize`.

`Serde.Sized` and `Serde.Measured` state that of a library, and `Compact.sized` and
`Compact.measured` prove it of the printer in `Compact.lean`.
-/

namespace MuseCodex.Json

/-! ## A bound on the text of a document -/

/-- The digits and the sign of an integer. Doubles are left out, since `Plain` documents have
none. -/
def Number.textSize : Number → ℕ
  | .posInt n => (Nat.toDigits 10 n).length
  | .negInt n => (Nat.toDigits 10 (n + 1)).length + 1
  | .float _ _ _ => 0

/-- A bound on the bytes of a printed string: its quotes, and six bytes for each of its own. -/
def stringSize (s : String) : ℕ := 6 * s.utf8ByteSize + 2

mutual

/-- A bound on the bytes of the compact text of a document. -/
def Value.textSize : Value → ℕ
  | .null => 4
  | .bool _ => 5
  | .number n => n.textSize
  | .string s => stringSize s
  | .array items => itemsSize items + 2
  | .object entries => entriesSize entries + 2

/-- A bound on the bytes of the items of an array, with a comma each. -/
def itemsSize : List Value → ℕ
  | [] => 0
  | v :: vs => v.textSize + 1 + itemsSize vs

/-- A bound on the bytes of the entries of an object, with a colon and a comma each. -/
def entriesSize : List (String × Value) → ℕ
  | [] => 0
  | (k, v) :: m => stringSize k + v.textSize + 2 + entriesSize m

end

/-! ## Given the size of the strings -/

section

variable (size : String → ℕ)

mutual

/-- The bytes of the compact text of a document, at most. -/
def Value.sizeBy : Value → ℕ
  | .null => 4
  | .bool _ => 5
  | .number n => n.textSize
  | .string s => size s
  | .array items => itemsSizeBy items + 2
  | .object entries => entriesSizeBy entries + 2

/-- The bytes of the items of an array, with a comma each. -/
def itemsSizeBy : List Value → ℕ
  | [] => 0
  | v :: vs => v.sizeBy + 1 + itemsSizeBy vs

/-- The bytes of the entries of an object, with a colon and a comma each. -/
def entriesSizeBy : List (String × Value) → ℕ
  | [] => 0
  | (k, v) :: m => size k + v.sizeBy + 2 + entriesSizeBy m

end

/-- An insertion adds at most the size of its entry. -/
theorem entriesSizeBy_insert (m : Map Value) (k : String) (v : Value) :
    entriesSizeBy size (m.insert k v) ≤
      entriesSizeBy size m + (size k + v.sizeBy size + 2) := by
  induction m with
  | nil => simp [Map.insert, entriesSizeBy]
  | cons entry m ih =>
    obtain ⟨k', v'⟩ := entry
    rw [Map.insert]
    split_ifs <;> simp only [entriesSizeBy] <;> omega

/-- The entries that build an object bound its size. -/
theorem sizeBy_obj (entries : List (String × Value)) :
    (Value.obj entries).sizeBy size ≤ entriesSizeBy size entries + 2 := by
  have hfold (m : Map Value) :
      entriesSizeBy size (entries.foldl (fun (m : Map Value) e => m.insert e.1 e.2) m) ≤
        entriesSizeBy size m + entriesSizeBy size entries := by
    induction entries generalizing m with
    | nil => exact Nat.le_refl _
    | cons entry entries ih =>
      obtain ⟨k, v⟩ := entry
      have hinsert := entriesSizeBy_insert size m k v
      have hrest := ih (m.insert k v)
      rw [List.foldl_cons, entriesSizeBy]
      dsimp only
      omega
  have hnil := hfold []
  rw [entriesSizeBy, Nat.zero_add] at hnil
  exact Nat.add_le_add_right hnil 2

end

mutual

/-- The bound with six bytes for each byte of a string is the one that `stringSize` gives. -/
theorem sizeBy_stringSize : ∀ v : Value, v.sizeBy stringSize = v.textSize
  | .null | .bool _ | .number _ | .string _ => rfl
  | .array items => congrArg (· + 2) (itemsSizeBy_stringSize items)
  | .object entries => congrArg (· + 2) (entriesSizeBy_stringSize entries)

/-- The largest size of an array, item by item. -/
theorem itemsSizeBy_stringSize : ∀ vs : List Value, itemsSizeBy stringSize vs = itemsSize vs
  | [] => rfl
  | v :: vs => by
    rw [itemsSizeBy, itemsSize, sizeBy_stringSize v, itemsSizeBy_stringSize vs]

/-- The largest size of an object, member by member. -/
theorem entriesSizeBy_stringSize :
    ∀ m : List (String × Value), entriesSizeBy stringSize m = entriesSize m
  | [] => rfl
  | (k, v) :: m => by
    rw [entriesSizeBy, entriesSize, sizeBy_stringSize v, entriesSizeBy_stringSize m]

end

mutual

/-- The bound grows with the size of the strings. -/
theorem sizeBy_mono {size size' : String → ℕ} (h : ∀ s, size s ≤ size' s) :
    ∀ v : Value, v.sizeBy size ≤ v.sizeBy size'
  | .null | .bool _ | .number _ => Nat.le_refl _
  | .string s => h s
  | .array items => Nat.add_le_add_right (itemsSizeBy_mono h items) 2
  | .object entries => Nat.add_le_add_right (entriesSizeBy_mono h entries) 2

/-- Larger strings make a larger array. -/
theorem itemsSizeBy_mono {size size' : String → ℕ} (h : ∀ s, size s ≤ size' s) :
    ∀ vs : List Value, itemsSizeBy size vs ≤ itemsSizeBy size' vs
  | [] => Nat.le_refl _
  | v :: vs => by
    have hv := sizeBy_mono h v
    have hvs := itemsSizeBy_mono h vs
    rw [itemsSizeBy, itemsSizeBy]
    omega

/-- Larger strings make a larger object. -/
theorem entriesSizeBy_mono {size size' : String → ℕ} (h : ∀ s, size s ≤ size' s) :
    ∀ m : List (String × Value), entriesSizeBy size m ≤ entriesSizeBy size' m
  | [] => Nat.le_refl _
  | (k, v) :: m => by
    have hk := h k
    have hv := sizeBy_mono h v
    have hm := entriesSizeBy_mono h m
    rw [entriesSizeBy, entriesSizeBy]
    omega

end

/-- The entries that build an object bound the size of its text. -/
theorem textSize_obj (entries : List (String × Value)) :
    (Value.obj entries).textSize ≤ entriesSize entries + 2 := by
  rw [← sizeBy_stringSize, ← entriesSizeBy_stringSize]
  exact sizeBy_obj stringSize entries

/-- A 64-bit number has at most 20 digits. -/
theorem textSize_ofNat {n : ℕ} (h : n < 2 ^ 64) : (Value.ofNat n).textSize ≤ 20 :=
  Nat.toDigits_length 10 n 20 (by decide) (h.trans (by decide))

/-- The bytes of a character in a printed string: a short escape, an escape with the digits of the
character, or the character itself. -/
def escapeSize (c : Char) : ℕ :=
  if c ∈ ['"', '\\', '\n', '\r', '\t', '\x08', '\x0c'] then 2
  else if c.toNat < 0x20 then 6
  else c.utf8Size

/-- The bytes of a printed string. -/
def escapedSize (s : String) : ℕ := (s.toList.map escapeSize).sum + 2

/-- What the code relies on when it keeps the documents that it prints within a limit: the printer
is compact. -/
def Serde.Sized (serde : Serde) : Prop :=
  ∀ v, Plain 127 v → (serde.toString v).utf8ByteSize ≤ v.textSize

/-- The bytes of the text of a string. -/
def Serde.quotedSize (serde : Serde) (s : String) : ℕ := (serde.toString (.string s)).utf8ByteSize

/-- What the code relies on when it limits the text that it reads, and not the one that it prints of
what it read. -/
structure Serde.Measured (serde : Serde) : Prop where
  /-- The text of a document has the texts of its strings, and is compact otherwise. -/
  sizeBy : ∀ v, Plain 127 v → (serde.toString v).utf8ByteSize ≤ v.sizeBy serde.quotedSize
  /-- Only quotes, backslashes, and control characters are escaped. -/
  escaped : ∀ s, serde.quotedSize s ≤ escapedSize s
  /-- A string is printed with no more bytes than any text has that denotes it. -/
  shortest : ∀ text s, serde.fromStr text = .ok (.string s) →
    serde.quotedSize s ≤ text.utf8ByteSize

/-! ## The compact printer -/

namespace Compact

open String (utf8Len)

/-- The bytes of an escaped character. -/
theorem utf8Len_escape (c : Char) : utf8Len (escape c) = escapeSize c := by
  have hdigit : ∀ d < 16, d.digitChar.utf8Size = 1 := by decide
  unfold escape
  split_ifs with h₁ h₂ h₃ h₄ h₅ h₆ h₇ h₈
  · subst h₁
    decide
  · subst h₂
    decide
  · subst h₃
    decide
  · subst h₄
    decide
  · subst h₅
    decide
  · subst h₆
    decide
  · subst h₇
    decide
  · have hhigh := hdigit (c.toNat / 16) (by omega)
    have hlow := hdigit (c.toNat % 16) (by omega)
    have hfront : utf8Len ['\\', 'u', '0', '0'] = 4 := by decide
    have hsplit : utf8Len ['\\', 'u', '0', '0', (c.toNat / 16).digitChar,
        (c.toNat % 16).digitChar] = 4 + utf8Len [(c.toNat / 16).digitChar,
          (c.toNat % 16).digitChar] := by
      rw [← hfront, ← String.utf8Len_append]
      rfl
    rw [hsplit, escapeSize, if_neg (by simp [h₁, h₂, h₃, h₄, h₅, h₆, h₇]), if_pos h₈]
    simp only [String.utf8Len_cons, String.utf8Len_nil, hhigh, hlow]
  · rw [escapeSize, if_neg (by simp [h₁, h₂, h₃, h₄, h₅, h₆, h₇]), if_neg h₈]
    simp only [String.utf8Len_cons, String.utf8Len_nil]
    omega

/-- Digits take one byte each. -/
theorem utf8Len_printNat (n : ℕ) : utf8Len (printNat n) = (Nat.toDigits 10 n).length := by
  have hdigits (cs : List Char) (h : ∀ c ∈ cs, c.isDigit) : utf8Len cs = cs.length := by
    induction cs with
    | nil => rfl
    | cons c cs ih =>
      obtain ⟨hc, hcs⟩ := List.forall_mem_cons.mp h
      have hsize : c.utf8Size = 1 := by
        simp only [Char.isDigit, Bool.and_eq_true, decide_eq_true_eq, ge_iff_le] at hc
        have hle : c.val ≤ 0x7f := UInt32.le_trans hc.2 (by decide)
        simp [Char.utf8Size, hle]
      rw [String.utf8Len_cons, ih hcs, hsize, List.length_cons]
  exact hdigits _ (printNat_isDigit n)

/-- The bytes of a printed string. -/
def quoted (s : String) : ℕ := utf8Len (printString s)

/-- The printer writes a string with the escapes that are counted. -/
theorem quoted_eq_escapedSize (s : String) : quoted s = escapedSize s := by
  have hescaped (cs : List Char) : utf8Len (cs.flatMap escape) = (cs.map escapeSize).sum := by
    induction cs with
    | nil => rfl
    | cons c cs ih =>
      rw [List.flatMap_cons, String.utf8Len_append, utf8Len_escape, ih, List.map_cons,
        List.sum_cons]
  have hquote : utf8Len ['"'] = 1 := by decide
  rw [quoted, printString, ← List.singleton_append, List.append_assoc, String.utf8Len_append,
    String.utf8Len_append, hquote, hescaped, escapedSize]
  omega

/-- The items of an array after its first one. -/
theorem utf8Len_printItems {vs : List Value}
    (h : ∀ v ∈ vs, utf8Len (print v) ≤ v.sizeBy quoted) :
    utf8Len (printItems vs) ≤ itemsSizeBy quoted vs + 1 := by
  induction vs with
  | nil => decide
  | cons v vs ih =>
    obtain ⟨hv, hvs⟩ := List.forall_mem_cons.mp h
    have hrest := ih hvs
    have hcomma : ','.utf8Size = 1 := by decide
    rw [printItems, List.cons_append, String.utf8Len_cons, String.utf8Len_append, itemsSizeBy,
      hcomma]
    omega

/-- The entries of an object after its first one. -/
theorem utf8Len_printEntries {m : List (String × Value)}
    (h : ∀ e ∈ m, utf8Len (print e.2) ≤ e.2.sizeBy quoted) :
    utf8Len (printEntries m) ≤ entriesSizeBy quoted m + 1 := by
  induction m with
  | nil => decide
  | cons entry m ih =>
    obtain ⟨k, v⟩ := entry
    obtain ⟨hv, hm⟩ := List.forall_mem_cons.mp h
    have hrest := ih hm
    have hcomma : ','.utf8Size = 1 := by decide
    have hcolon : ':'.utf8Size = 1 := by decide
    simp only [printEntries, List.cons_append, List.append_assoc, String.utf8Len_cons,
      String.utf8Len_append, entriesSizeBy, quoted, hcomma, hcolon] at hv hrest ⊢
    omega

/-- The text of a document has the texts of its strings, and is compact otherwise. -/
theorem utf8Len_print {d : ℕ} {v : Value} (h : Plain d v) :
    utf8Len (print v) ≤ v.sizeBy quoted := by
  induction h with
  | null => decide
  | bool _ b => cases b <;> decide
  | @posInt _ n => exact le_of_eq (utf8Len_printNat n)
  | @negInt _ n =>
    have hsign : '-'.utf8Size = 1 := by decide
    rw [print, printNumber, String.utf8Len_cons, utf8Len_printNat, hsign]
    exact Nat.le_refl _
  | string _ s => exact Nat.le_refl _
  | array d h ih =>
    rename_i items
    cases items with
    | nil => decide
    | cons v vs =>
      obtain ⟨hv, hvs⟩ := List.forall_mem_cons.mp ih
      have hrest := utf8Len_printItems hvs
      have hbracket : '['.utf8Size = 1 := by decide
      rw [print, List.cons_append, String.utf8Len_cons, String.utf8Len_append, Value.sizeBy,
        itemsSizeBy, hbracket]
      omega
  | object d hs h ih =>
    rename_i m
    cases m with
    | nil => decide
    | cons entry m =>
      obtain ⟨k, v⟩ := entry
      obtain ⟨hv, hm⟩ := List.forall_mem_cons.mp ih
      have hrest := utf8Len_printEntries hm
      have hbrace : '\x7b'.utf8Size = 1 := by decide
      have hcolon : ':'.utf8Size = 1 := by decide
      simp only [print, List.cons_append, List.append_assoc, String.utf8Len_cons,
        String.utf8Len_append, Value.sizeBy, entriesSizeBy, quoted, hbrace, hcolon] at hv hrest ⊢
      omega

/-- The size of a printed document is that of its characters. -/
theorem utf8ByteSize_toString (v : Value) : (serde.toString v).utf8ByteSize = utf8Len (print v) :=
  String.utf8ByteSize_ofList _

/-- A character takes at most six bytes for each of its own. -/
theorem escapeSize_le (c : Char) : escapeSize c ≤ 6 * c.utf8Size := by
  have hpos := c.utf8Size_pos
  unfold escapeSize
  split_ifs <;> omega

/-- A string with its escapes is no longer than its bound. -/
theorem escapedSize_le_stringSize (s : String) : escapedSize s ≤ stringSize s := by
  have hchars (cs : List Char) : (cs.map escapeSize).sum ≤ 6 * utf8Len cs := by
    induction cs with
    | nil => exact Nat.le_refl _
    | cons c cs ih =>
      have hc := escapeSize_le c
      rw [List.map_cons, List.sum_cons, String.utf8Len_cons]
      omega
  have hs := hchars s.toList
  rw [String.utf8Len_toList] at hs
  exact Nat.add_le_add_right hs 2

/-- The printer is compact. -/
theorem sized : serde.Sized := by
  intro v h
  rw [utf8ByteSize_toString, ← sizeBy_stringSize]
  refine (utf8Len_print h).trans (sizeBy_mono (fun s => ?_) v)
  rw [quoted_eq_escapedSize]
  exact escapedSize_le_stringSize s

/-! ## The shortest text of a string -/

/-- An escape takes at most six bytes. -/
theorem escapeSize_le_six (c : Char) : escapeSize c ≤ 6 := by
  have hle := c.utf8Size_le_four
  unfold escapeSize
  split_ifs <;> omega

/-- A character that is not escaped in a text is not escaped in the printed one. -/
theorem escapeSize_of_raw {c : Char} (hquote : c ≠ '"') (h : ¬(c = '\\' ∨ c.toNat < 0x20)) :
    escapeSize c = c.utf8Size := by
  have hbackslash : c ≠ '\\' := fun hc => h (.inl hc)
  have hcontrol : ¬c.toNat < 0x20 := fun hc => h (.inr hc)
  have hne (d : Char) (hd : d.toNat < 0x20) : c ≠ d := by
    rintro rfl
    exact hcontrol hd
  rw [escapeSize, if_neg, if_neg hcontrol]
  simp [hquote, hbackslash, hne '\n' (by decide), hne '\r' (by decide), hne '\t' (by decide),
    hne '\x08' (by decide), hne '\x0c' (by decide)]

/-- A short escape takes two bytes, and what it stands for as many or fewer. -/
theorem escapeSize_unescape {c d : Char} (h : unescape c = some d) : escapeSize d ≤ 2 := by
  unfold unescape at h
  split at h
  all_goals first
    | (cases h; decide)
    | cases h

/-- A text after its opening quote has at least the bytes of the printed string, its closing quote,
and the text after it. -/
theorem parseString_shortest {text cs rest : List Char} (h : parseString text = some (cs, rest)) :
    (cs.map escapeSize).sum + 1 + utf8Len rest ≤ utf8Len text := by
  have hpos (c : Char) : 1 ≤ c.utf8Size := c.utf8Size_pos
  fun_induction parseString text generalizing cs rest with
  | case1 => cases h
  | case2 =>
    cases h
    have hquote : '"'.utf8Size = 1 := by decide
    simp only [List.map_nil, List.sum_nil, String.utf8Len_cons, hquote]
    omega
  | case3 a b c d rest' ih₁ ih₂ =>
    -- The escape has six characters, and a pair of them twelve.
    simp only [Option.bind_eq_bind, Option.bind_eq_some_iff] at h
    obtain ⟨hi, -, h⟩ := h
    have ha := hpos a
    have hb := hpos b
    have hc := hpos c
    have hd := hpos d
    have hescape := hpos '\\'
    have hu := hpos 'u'
    split_ifs at h with hsur hlow
    · split at h
      · rename_i e f g k rest''
        simp only [Option.bind_eq_some_iff] at h
        obtain ⟨lo, -, h⟩ := h
        split_ifs at h with hpair
        simp only [Option.bind_eq_some_iff] at h
        obtain ⟨p, hp, h⟩ := h
        cases h
        have hrest := ih₁ hp
        have hsix := escapeSize_le_six
          (Char.ofNat (0x10000 + (hi - 0xd800) * 0x400 + (lo - 0xdc00)))
        simp only [List.map_cons, List.sum_cons, String.utf8Len_cons]
        omega
      · cases h
    · simp only [Option.bind_eq_some_iff] at h
      obtain ⟨p, hp, h⟩ := h
      cases h
      have hrest := ih₂ hp
      have hsix := escapeSize_le_six (Char.ofNat hi)
      simp only [List.map_cons, List.sum_cons, String.utf8Len_cons]
      omega
  | case4 c rest' _ ih =>
    simp only [Option.bind_eq_bind, Option.bind_eq_some_iff] at h
    obtain ⟨d, hd, p, hp, h⟩ := h
    cases h
    have hrest := ih hp
    have htwo := escapeSize_unescape hd
    have hc := hpos c
    have hescape := hpos '\\'
    simp only [List.map_cons, List.sum_cons, String.utf8Len_cons]
    omega
  | case5 => cases h
  | case6 c rest' hquote _ _ hplain ih =>
    simp only [Option.bind_eq_bind, Option.bind_eq_some_iff] at h
    obtain ⟨p, hp, h⟩ := h
    cases h
    have hrest := ih hp
    have hraw := escapeSize_of_raw hquote hplain
    simp only [List.map_cons, List.sum_cons, String.utf8Len_cons]
    omega

/-- Skipping blanks does not lengthen a text. -/
theorem utf8Len_skipWs (text : List Char) : utf8Len (skipWs text) ≤ utf8Len text := by
  induction text with
  | nil => exact Nat.le_refl _
  | cons c text ih =>
    rw [skipWs]
    split_ifs
    · rw [String.utf8Len_cons]
      omega
    · exact Nat.le_refl _

/-- Only a string becomes a string when the numbers are fitted. -/
theorem fit_eq_string {v : Value} {s : String} (h : fit v = .string s) : v = .string s := by
  cases v with
  | string => exact h
  | null | bool | number | array | object => cases h

/-- A text that denotes a string has at least the bytes of the printed one. -/
theorem parse_shortest {text : List Char} {s : String} (h : parse text = .ok (.string s)) :
    quoted s ≤ utf8Len text := by
  obtain ⟨u, rest, hparse, -, hfit⟩ := parse_eq_ok.mp h
  obtain rfl := fit_eq_string hfit
  rw [parseValue] at hparse
  have hskip := utf8Len_skipWs text
  -- Only the branch for a quote reads a string.
  split at hparse
  · cases hparse
  · cases hparse
  · cases hparse
  · rename_i rest' hstart
    obtain ⟨p, hp, heq⟩ := Option.map_eq_some_iff.mp hparse
    cases heq
    have hstring := parseString_shortest hp
    have hquote : '"'.utf8Size = 1 := by decide
    rw [hstart, String.utf8Len_cons, hquote] at hskip
    rw [quoted_eq_escapedSize, escapedSize, String.toList_ofList]
    omega
  · split at hparse
    · cases hparse
    · obtain ⟨p, -, heq⟩ := Option.map_eq_some_iff.mp hparse
      cases heq
  · split at hparse
    · cases hparse
    · obtain ⟨p, -, heq⟩ := Option.map_eq_some_iff.mp hparse
      cases heq
  · obtain ⟨p, -, heq⟩ := Option.map_eq_some_iff.mp hparse
    cases heq

/-- The parser and the printer measure as the library does. -/
theorem measured : serde.Measured where
  sizeBy v h := by
    have hquoted : serde.quotedSize = quoted := funext fun s => utf8ByteSize_toString (.string s)
    rw [utf8ByteSize_toString, hquoted]
    exact utf8Len_print h
  escaped s := by
    have hquoted : serde.quotedSize s = quoted s := utf8ByteSize_toString (.string s)
    rw [hquoted, quoted_eq_escapedSize]
  shortest text s h := by
    have hquoted : serde.quotedSize s = quoted s := utf8ByteSize_toString (.string s)
    rw [hquoted, ← String.utf8Len_toList]
    exact parse_shortest h

end Compact

end MuseCodex.Json
