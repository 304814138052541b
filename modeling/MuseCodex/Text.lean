import Mathlib.Data.List.Basic
import Mathlib.Data.String.Basic

/-!
# Text and its bytes

The operations of a standard string library that a line-oriented protocol uses: UTF-8 encoding and
decoding, splitting into lines, prefixes, and the character classes. A text is a `String`, and
each operation is defined on its list of characters. `fromUtf8_toUtf8` says that decoding undoes
encoding, and the lemmas on `splitTerminator` cut a text whose lines are known.
-/

namespace MuseCodex.Text

/-- A sequence of bytes. -/
abbrev Bytes := List UInt8

/-- The line feed byte. -/
def LF : UInt8 := 0x0a

/-- The carriage return byte. -/
def CR : UInt8 := 0x0d

/-- The decimal digits of a number. -/
def decimal (n : ℕ) : String := String.ofList (Nat.toDigits 10 n)

/-! ## UTF-8 -/

/-- The UTF-8 bytes of a text. -/
def toUtf8 (s : String) : Bytes := s.toList.flatMap String.utf8EncodeChar

/-- The text that a sequence of bytes encodes, if it is valid UTF-8. -/
def fromUtf8 (bytes : Bytes) : Option String :=
  bytes.toByteArray.utf8Decode?.map fun chars => String.ofList chars.toList

/-- Decoding undoes encoding. -/
@[simp] theorem fromUtf8_toUtf8 (s : String) : fromUtf8 (toUtf8 s) = some s := by
  have h : (toUtf8 s).toByteArray.utf8Decode? = some s.toList.toArray :=
    List.utf8Decode?_utf8Encode
  simp [fromUtf8, h]

/-- The number of bytes that one replacement character stands for, at the start of bytes that encode
no character: the longest start of an encoding, or one byte. -/
def invalidLength : Bytes → ℕ
  | b₀ :: b₁ :: rest =>
    let continuation (b : UInt8) : Bool := 0x80 ≤ b && b ≤ 0xbf
    let three : Bool := (b₀ = 0xe0 && 0xa0 ≤ b₁ && b₁ ≤ 0xbf) ||
      (0xe1 ≤ b₀ && b₀ ≤ 0xef && b₀ ≠ 0xed && continuation b₁) ||
      (b₀ = 0xed && 0x80 ≤ b₁ && b₁ ≤ 0x9f)
    let four : Bool := (b₀ = 0xf0 && 0x90 ≤ b₁ && b₁ ≤ 0xbf) ||
      (0xf1 ≤ b₀ && b₀ ≤ 0xf3 && continuation b₁) || (b₀ = 0xf4 && 0x80 ≤ b₁ && b₁ ≤ 0x8f)
    if four && rest.head?.any continuation then 3 else if three || four then 2 else 1
  | _ => 1

/-- The text of bytes, with replacement characters for what encodes no character. -/
def fromUtf8Lossy (bytes : Bytes) : String :=
  go bytes.length bytes
where
  /-- Every round takes at least one byte. -/
  go : ℕ → Bytes → String
    | 0, _ => ""
    | _, [] => ""
    | fuel + 1, bytes => match bytes.toByteArray.utf8DecodeChar? 0 with
      | some c => String.singleton c ++ go fuel (bytes.drop c.utf8Size)
      | none => "\uFFFD" ++ go fuel (bytes.drop (invalidLength bytes))

/-- The bytes of two texts are those of the one and of the other. -/
theorem toUtf8_append (s t : String) : toUtf8 (s ++ t) = toUtf8 s ++ toUtf8 t := by
  simp [toUtf8, String.toList_append]

/-- Texts with the same bytes are equal. -/
theorem toUtf8_injective {s t : String} (h : toUtf8 s = toUtf8 t) : s = t := by
  have := congrArg fromUtf8 h
  simpa using this

/-- The number of bytes of a text. -/
theorem toUtf8_length (s : String) : (toUtf8 s).length = s.utf8ByteSize := by
  rw [← String.utf8Len_toList, toUtf8]
  induction s.toList with
  | nil => rfl
  | cons c cs ih =>
    rw [List.flatMap_cons, List.length_append, String.length_utf8EncodeChar, ih,
      String.utf8Len_cons, Nat.add_comm]

/-- A character takes at most four bytes. -/
theorem utf8ByteSize_le (s : String) : s.utf8ByteSize ≤ 4 * s.toList.length := by
  rw [← String.utf8Len_toList]
  induction s.toList with
  | nil => simp
  | cons c cs ih =>
    have := c.utf8Size_le_four
    rw [String.utf8Len_cons, List.length_cons]
    omega

/-- A byte below 128 in the encoding of a character is the character itself. -/
theorem toNat_of_mem_utf8EncodeChar {c : Char} {b : UInt8} (hb : b ∈ String.utf8EncodeChar c)
    (h : b.toNat < 128) : c.toNat = b.toNat := by
  have hc : c.toNat = c.val.toNat := rfl
  unfold String.utf8EncodeChar at hb
  dsimp only at hb
  -- Every byte of a longer encoding has its highest bit set.
  split_ifs at hb with h₁ h₂ h₃
  · simp only [List.mem_cons, List.not_mem_nil, or_false] at hb
    subst hb
    simp only [UInt8.toNat_ofNat'] at h ⊢
    omega
  · simp only [List.mem_cons, List.not_mem_nil, or_false] at hb
    rcases hb with rfl | rfl <;> simp at h <;> omega
  · simp only [List.mem_cons, List.not_mem_nil, or_false] at hb
    rcases hb with rfl | rfl | rfl <;> simp at h <;> omega
  · simp only [List.mem_cons, List.not_mem_nil, or_false] at hb
    rcases hb with rfl | rfl | rfl | rfl <;> simp at h <;> omega

/-- Only the encoding of a text denotes it. -/
theorem fromUtf8_eq_some {bytes : Bytes} {s : String} (h : fromUtf8 bytes = some s) :
    bytes = toUtf8 s := by
  unfold fromUtf8 at h
  obtain ⟨chars, hchars, rfl⟩ := Option.map_eq_some_iff.mp h
  have hsome : bytes.toByteArray.utf8Decode?.isSome = true := by rw [hchars]; rfl
  have hencode := ByteArray.utf8Encode_get_utf8Decode? (h := hsome)
  simp only [hchars, Option.get_some] at hencode
  have hdata := congrArg (·.data.toList) hencode
  simpa [toUtf8, List.utf8Encode] using hdata.symm

/-- The encoding of an ASCII character is one byte, and no other encoding starts with it. -/
theorem utf8EncodeChar_ascii {c : Char} (hc : c.toNat < 128) :
    ∃ b : UInt8, b.toNat < 128 ∧ String.utf8EncodeChar c = [b] := by
  have hval : c.val.toNat = c.toNat := rfl
  unfold String.utf8EncodeChar
  dsimp only
  rw [if_pos (by omega)]
  refine ⟨_, ?_, rfl⟩
  simp only [UInt8.toNat_ofNat']
  omega

/-- The encoding of a text starts with that of an ASCII text if the text does. -/
theorem toUtf8_prefix_iff {start s : String} (hstart : ∀ c ∈ start.toList, c.toNat < 128) :
    toUtf8 start <+: toUtf8 s ↔ start.toList <+: s.toList := by
  unfold toUtf8
  generalize start.toList = cs at hstart
  generalize s.toList = ds
  induction cs generalizing ds with
  | nil => simp
  | cons c cs ih =>
    obtain ⟨hc, hcs⟩ := List.forall_mem_cons.mp hstart
    obtain ⟨b, hb, hencode⟩ := utf8EncodeChar_ascii hc
    cases ds with
    | nil =>
      rw [List.flatMap_cons, hencode]
      simp
    | cons d ds =>
      rw [List.flatMap_cons, List.flatMap_cons, List.cons_prefix_cons, ← ih hcs]
      constructor
      · intro hstarts
        -- The first byte is that of the first character.
        have hmem : b ∈ String.utf8EncodeChar d := by
          rw [hencode, List.singleton_append] at hstarts
          cases hd : String.utf8EncodeChar d with
          | nil =>
            have hlength := String.length_utf8EncodeChar d
            have hpos := d.utf8Size_pos
            rw [hd, List.length_nil] at hlength
            omega
          | cons b' bs =>
            rw [hd, List.cons_append, List.cons_prefix_cons] at hstarts
            rw [hstarts.1]
            exact List.mem_cons_self
        have hmem' : b ∈ String.utf8EncodeChar c := by
          rw [hencode]
          exact List.mem_singleton_self b
        have heq : c = d := by
          rw [← Char.toNat_inj, toNat_of_mem_utf8EncodeChar hmem' hb,
            toNat_of_mem_utf8EncodeChar hmem hb]
        rw [heq] at hstarts
        exact ⟨heq, (List.prefix_append_right_inj _).mp hstarts⟩
      · rintro ⟨rfl, hstarts⟩
        exact (List.prefix_append_right_inj _).mpr hstarts

/-- A text without a line break. -/
def OneLine (s : String) : Prop := ∀ c ∈ s.toList, c ≠ '\r' ∧ c ≠ '\n'

/-- It can be checked character by character that a text is one line. -/
instance (s : String) : Decidable (OneLine s) :=
  List.decidableBAll (fun c => c ≠ '\r' ∧ c ≠ '\n') s.toList

/-- Two texts on one line are one. -/
theorem OneLine.append {s t : String} (hs : OneLine s) (ht : OneLine t) : OneLine (s ++ t) := by
  intro c hc
  rw [String.toList_append, List.mem_append] at hc
  exact hc.elim (hs c) (ht c)

/-- The encoding of a text without a line break has none either. -/
theorem OneLine.toUtf8 {s : String} (h : OneLine s) {b : UInt8} (hb : b ∈ toUtf8 s) :
    b ≠ LF ∧ b ≠ CR := by
  obtain ⟨c, hc, hb⟩ := List.mem_flatMap.mp hb
  obtain ⟨hcr, hlf⟩ := h c hc
  constructor
  · rintro rfl
    exact hlf (Char.toNat_inj.mp (toNat_of_mem_utf8EncodeChar hb (by decide)))
  · rintro rfl
    exact hcr (Char.toNat_inj.mp (toNat_of_mem_utf8EncodeChar hb (by decide)))

/-! ## Character classes -/

/-- A control character (the Unicode category `Cc`). -/
def isControl (c : Char) : Bool :=
  c.toNat ≤ 0x1f || (0x7f ≤ c.toNat && c.toNat ≤ 0x9f)

/-- A whitespace character (the Unicode property `White_Space`). -/
def isWhitespace (c : Char) : Bool :=
  (0x09 ≤ c.toNat && c.toNat ≤ 0x0d) || c.toNat = 0x20 || c.toNat = 0x85 || c.toNat = 0xa0 ||
    c.toNat = 0x1680 || (0x2000 ≤ c.toNat && c.toNat ≤ 0x200a) || c.toNat = 0x2028 ||
    c.toNat = 0x2029 || c.toNat = 0x202f || c.toNat = 0x205f || c.toNat = 0x3000

/-- An ASCII letter or digit. -/
def isAsciiAlphanumeric (c : Char) : Bool :=
  (0x30 ≤ c.toNat && c.toNat ≤ 0x39) || (0x41 ≤ c.toNat && c.toNat ≤ 0x5a) ||
    (0x61 ≤ c.toNat && c.toNat ≤ 0x7a)

/-- The ASCII whitespace bytes: tab, line feed, form feed, carriage return, and space. -/
def isAsciiWhitespace (b : UInt8) : Bool :=
  b = 0x09 || b = 0x0a || b = 0x0c || b = 0x0d || b = 0x20

/-- The lower-case form of an ASCII letter; any other character is unchanged. -/
def toAsciiLower (c : Char) : Char :=
  if 0x41 ≤ c.toNat ∧ c.toNat ≤ 0x5a then Char.ofNat (c.toNat + 0x20) else c

/-- Equality of texts up to the case of ASCII letters. -/
def eqIgnoreAsciiCase (s t : String) : Bool :=
  s.toList.map toAsciiLower = t.toList.map toAsciiLower

/-- The text without its leading and trailing whitespace. -/
def trim (s : String) : String :=
  String.ofList (((s.toList.dropWhile isWhitespace).reverse.dropWhile isWhitespace).reverse)

/-! ## Prefixes and separators -/

/-- The text after a leading character, if it starts with that character. -/
def stripPrefix (c : Char) (s : String) : Option String :=
  match s.toList with
  | [] => none
  | d :: cs => if d = c then some (String.ofList cs) else none

/-- The text after a leading text, if it starts with that text. -/
def stripText (start s : String) : Option String :=
  if start.toList.isPrefixOf s.toList then some (String.ofList (s.toList.drop start.toList.length))
  else none

/-- Whether the text starts with a character. -/
def startsWith (c : Char) (s : String) : Bool := s.toList.head? = some c

/-- The characters before and after the first occurrence of a separator. -/
def splitOnceChars (c : Char) : List Char → Option (List Char × List Char)
  | [] => none
  | d :: cs => if d = c then some ([], cs) else (splitOnceChars c cs).map fun p => (d :: p.1, p.2)

/-- The text before and after the first occurrence of a separator. -/
def splitOnce (c : Char) (s : String) : Option (String × String) :=
  (splitOnceChars c s.toList).map fun p => (String.ofList p.1, String.ofList p.2)

/-- The pieces between the characters that satisfy `p`. -/
def splitChars (p : Char → Bool) : List Char → List (List Char)
  | [] => [[]]
  | c :: cs =>
    if p c then [] :: splitChars p cs
    else match splitChars p cs with
      | [] => [[c]]
      | piece :: pieces => (c :: piece) :: pieces

/-- The pieces between the characters that satisfy `p`, without the piece after the last of them
when it is empty. -/
def splitTerminator (p : Char → Bool) (s : String) : List String :=
  let pieces := splitChars p s.toList
  (if pieces.getLast? = some [] then pieces.dropLast else pieces).map String.ofList

/-- The lines of a text: its pieces between line feeds, without the last one when it is empty,
and each without a carriage return before its line feed. -/
def lines (s : String) : List String :=
  let pieces := splitChars (· = '\n') s.toList
  let strip (piece : List Char) :=
    if piece.getLast? = some '\r' then piece.dropLast else piece
  let ended := pieces.dropLast.map strip
  let last := pieces.getLast?.getD []
  (if last = [] then ended else ended ++ [last]).map String.ofList

/-! ## Cutting a text whose lines are known -/

/-- A text that is split has a first part. -/
theorem splitChars_ne_nil (p : Char → Bool) (cs : List Char) : splitChars p cs ≠ [] := by
  cases cs with
  | nil => simp [splitChars]
  | cons c cs =>
    simp only [splitChars]
    split_ifs
    · simp
    · split <;> simp

/-- A piece without a separator, then a separator, is the first piece. -/
theorem splitChars_append {p : Char → Bool} {line : List Char} (h : ∀ c ∈ line, p c = false)
    {c : Char} (hc : p c = true) (rest : List Char) :
    splitChars p (line ++ c :: rest) = line :: splitChars p rest := by
  induction line with
  | nil => simp [splitChars, hc]
  | cons d line ih =>
    have hd : p d = false := h d List.mem_cons_self
    have := ih fun e he => h e (List.mem_cons_of_mem _ he)
    simp [splitChars, hd, this]

/-- Splitting at two classes of characters is splitting at one and then at the other. -/
theorem splitChars_or (p q : Char → Bool) (cs : List Char) :
    splitChars (fun c => p c || q c) cs = (splitChars q cs).flatMap (splitChars p) := by
  induction cs with
  | nil => rfl
  | cons c cs ih =>
    obtain ⟨piece, pieces, hq⟩ := List.exists_cons_of_ne_nil (splitChars_ne_nil q cs)
    obtain ⟨line, lines, hp⟩ := List.exists_cons_of_ne_nil (splitChars_ne_nil p piece)
    rw [hq, List.flatMap_cons] at ih
    rw [splitChars, splitChars, ih, hq]
    by_cases hcq : q c = true
    · simp [hcq, splitChars]
    by_cases hcp : p c = true
    · simp [hcp, hcq, splitChars]
    · simp [hcp, hcq, splitChars, hp]

/-- The first piece of a text, and what follows it: nothing, or a separator. What follows is made
of separators and of the other pieces. -/
theorem splitChars_head {p : Char → Bool} {cs line : List Char} {lines : List (List Char)}
    (h : splitChars p cs = line :: lines) :
    ∃ tail, cs = line ++ tail ∧ (∀ c ∈ line, p c = false) ∧ (∀ c ∈ tail.head?, p c = true) ∧
      ∀ c ∈ tail, p c = true ∨ ∃ l ∈ lines, c ∈ l := by
  induction cs generalizing line lines with
  | nil =>
    cases h
    exact ⟨[], rfl, nofun, nofun, nofun⟩
  | cons c cs ih =>
    obtain ⟨piece, pieces, hcs⟩ := List.exists_cons_of_ne_nil (splitChars_ne_nil p cs)
    obtain ⟨tail, htail, hpiece, hhead, hmem⟩ := ih hcs
    rw [splitChars, hcs] at h
    split_ifs at h with hc
    · cases h
      refine ⟨c :: cs, rfl, nofun, ?_, ?_⟩
      · intro d hd
        cases hd
        exact hc
      · intro d hd
        rcases List.mem_cons.mp hd with rfl | hd
        · exact .inl hc
        rw [htail, List.mem_append] at hd
        rcases hd with hd | hd
        · exact .inr ⟨piece, List.mem_cons_self, hd⟩
        · obtain hd | ⟨l, hl, hd⟩ := hmem d hd
          · exact .inl hd
          · exact .inr ⟨l, List.mem_cons_of_mem _ hl, hd⟩
    · cases h
      refine ⟨tail, by rw [htail]; rfl, ?_, hhead, hmem⟩
      exact List.forall_mem_cons.mpr ⟨by simpa using hc, hpiece⟩

/-- The first separator splits a text at the end of a prefix that does not contain it. -/
theorem splitOnceChars_append {c : Char} {before : List Char} (h : c ∉ before)
    (after : List Char) : splitOnceChars c (before ++ c :: after) = some (before, after) := by
  induction before with
  | nil => simp [splitOnceChars]
  | cons d before ih =>
    rw [List.mem_cons, not_or] at h
    simp [splitOnceChars, Ne.symm h.1, ih h.2]

/-- Where the first separator splits a text. -/
theorem splitOnce_eq_some {c : Char} {s before after : String} :
    splitOnce c s = some (before, after) ↔
      s.toList = before.toList ++ c :: after.toList ∧ c ∉ before.toList := by
  have hchars : ∀ cs q, splitOnceChars c cs = some q → cs = q.1 ++ c :: q.2 ∧ c ∉ q.1 := by
    intro cs
    induction cs with
    | nil => exact fun q hq => nomatch hq
    | cons d cs ih =>
      intro q hq
      rw [splitOnceChars] at hq
      split_ifs at hq with hd
      · cases hq
        exact ⟨by rw [hd]; rfl, by simp⟩
      · obtain ⟨q', hq', rfl⟩ := Option.map_eq_some_iff.mp hq
        obtain ⟨hcs, hnot⟩ := ih q' hq'
        refine ⟨by rw [hcs]; rfl, ?_⟩
        rw [List.mem_cons, not_or]
        exact ⟨fun h => hd h.symm, hnot⟩
  constructor
  · intro h
    obtain ⟨p, hp, heq⟩ := Option.map_eq_some_iff.mp h
    cases heq
    rw [String.toList_ofList, String.toList_ofList]
    exact hchars _ p hp
  · rintro ⟨hs, hnot⟩
    rw [splitOnce, hs, splitOnceChars_append hnot]
    simp

/-- The text after a leading text. -/
theorem stripText_eq_some {start s rest : String} :
    stripText start s = some rest ↔ s = start ++ rest := by
  unfold stripText
  rw [← String.toList_inj, String.toList_append]
  split_ifs with h
  · obtain ⟨cs, hcs⟩ := List.isPrefixOf_iff_prefix.mp h
    rw [← hcs, List.drop_left, List.append_cancel_left_eq, Option.some.injEq, ← String.toList_inj,
      String.toList_ofList]
  · refine iff_of_false nofun fun hs => h ?_
    rw [hs]
    exact List.isPrefixOf_iff_prefix.mpr (List.prefix_append _ _)

/-- The first separator splits off a name exactly when the text starts with that name and the
separator. -/
theorem splitOnce_eq_some_iff_stripText {c : Char} {name s rest : String} (h : c ∉ name.toList) :
    splitOnce c s = some (name, rest) ↔ stripText (name ++ String.singleton c) s = some rest := by
  rw [splitOnce_eq_some, stripText_eq_some, ← String.toList_inj]
  simp [h]

/-- There is nothing to strip from a text that starts with another character. -/
theorem stripPrefix_of_head {c : Char} {s : String} (h : s.toList.head? ≠ some c) :
    (stripPrefix c s).getD s = s := by
  unfold stripPrefix
  cases hs : s.toList with
  | nil => rfl
  | cons d cs =>
    have hd : d ≠ c := fun hd => h (by rw [hs, hd]; rfl)
    simp [hd]

/-- What follows a text does not change its leading character. -/
theorem stripPrefix_append {c : Char} {s : String} (t : String)
    (h : s ≠ "" ∨ t.toList.head? ≠ some c) :
    (stripPrefix c (s ++ t)).getD (s ++ t) = (stripPrefix c s).getD s ++ t := by
  unfold stripPrefix
  rw [String.toList_append]
  cases hs : s.toList with
  | nil =>
    have hnil : s = "" := String.toList_inj.mp (by rw [hs]; rfl)
    have ht := h.resolve_left (fun h => h hnil)
    subst hnil
    cases hcs : t.toList with
    | nil => simp
    | cons d cs =>
      rw [hcs] at ht
      have hne : d ≠ c := fun hd => ht (by rw [hd]; rfl)
      simp [hne]
  | cons d cs =>
    simp only [List.cons_append]
    split_ifs
    · simp
    · simp

end MuseCodex.Text
