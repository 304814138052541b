import Mathlib.Data.List.DropRight
import MuseCodex.Text

/-!
# The API key on its way to the gateway

The launcher reads an API key from the environment or from its standard input
(`SecretInput::parse` of `crates/muse-codex/src/lib.rs`), and hands it over on the standard input
of the gateway, with a line feed after it. The gateway reads it from there (`read_secret_line` of
`crates/muse-codex-gateway/src/main.rs`), and the transport checks it once more
(`validate_api_key` of `crates/codex-transport/src/auth.rs`). All three have the same limit, but
the gateway counts the line feed: a key that uses up the limit of the launcher is refused by the
gateway, and all others arrive as they are (`parse_handedOver`).
-/

namespace MuseCodex.Launcher

open Text

/-- The largest API key, in bytes. -/
def MAX_API_KEY_BYTES : ℕ := 16 * 1024

/-- A character that ends a line. -/
def isLineEnd (c : Char) : Bool := c = '\r' || c = '\n'

/-- The text without the line ends at its end. -/
def trimLineEnds (s : String) : String := String.ofList (s.toList.rdropWhile isLineEnd)

/-! ## The launcher -/

namespace SecretInput

/-- The API key that some bytes hold. -/
def parse (bytes : Bytes) : Except String Bytes :=
  if MAX_API_KEY_BYTES < bytes.length then .error "API key input exceeds the 16384-byte limit"
  else match fromUtf8 bytes with
    | none => .error "API key input must be UTF-8"
    | some text =>
      let value := trimLineEnds text
      if value = "" || value.toList.any fun c => isWhitespace c || isControl c then
        .error "API key input must be non-empty and contain no whitespace"
      else .ok (toUtf8 value)

/-- The API key of an environment variable; an empty one counts as unset. -/
def fromEnvironment (value : Option Bytes) : Except String (Option Bytes) :=
  match value with
  | none => .ok none
  | some value => if value = [] then .ok none else (parse value).map some

/-- A key from the environment is one that `parse` accepts; it does not accept an empty one. -/
theorem fromEnvironment_eq_some {value : Option Bytes} {key : Bytes} :
    fromEnvironment value = .ok (some key) ↔ ∃ bytes, value = some bytes ∧ parse bytes = .ok key := by
  cases value with
  | none => exact iff_of_false nofun fun ⟨_, h, _⟩ => nomatch h
  | some bytes =>
    rw [fromEnvironment]
    split_ifs with hempty
    · refine iff_of_false nofun ?_
      rintro ⟨_, ⟨⟩, h⟩
      have hrefused : (parse []).toOption = none := by decide
      rw [← hempty, h] at hrefused
      cases hrefused
    · cases hparse : parse bytes with
      | error reason => exact iff_of_false nofun (by simp [hparse])
      | ok key' => simp [Except.map, hparse]

/-- The API key that a reader provides. No more is read than shows that there is too much. -/
def fromReader (input : Bytes) : Except String Bytes := parse (input.take (16 * 1024 + 1))

/-- Not reading to the end makes no difference. -/
theorem fromReader_eq_parse (input : Bytes) : fromReader input = parse input := by
  unfold fromReader
  by_cases hlong : 16 * 1024 + 1 ≤ input.length
  · have hinput : MAX_API_KEY_BYTES < input.length := hlong
    have htake : MAX_API_KEY_BYTES < (input.take (16 * 1024 + 1)).length := by
      rw [List.length_take, MAX_API_KEY_BYTES]
      omega
    rw [parse, parse, if_pos htake, if_pos hinput]
  · rw [List.take_of_length_le (by omega)]

end SecretInput

/-- What the launcher writes to the standard input of the gateway. -/
def deliveredKey (key : Bytes) : Bytes := key ++ toUtf8 "\n"

/-! ## The gateway and the transport -/

/-- Reads an API key from the standard input of the gateway. -/
def readSecretLine (input : Bytes) : Except String String :=
  let bytes := input.take (MAX_API_KEY_BYTES + 1)
  if MAX_API_KEY_BYTES < bytes.length then .error "API key stdin exceeds 16384 bytes"
  else match fromUtf8 bytes with
    | none => .error "API key stdin is not UTF-8"
    | some text =>
      let value := trimLineEnds text
      if value = "" then .error "API key stdin was empty"
      else if value.toList.any isWhitespace then .error "API key stdin contains whitespace"
      else if value.toList.any isControl then .error "API key stdin contains control characters"
      else .ok value

/-- The errors of an API key. -/
inductive ApiKeyError where
  | emptyApiKey
  | apiKeyTooLong (limit : ℕ)
  | apiKeyContainsWhitespace
  | apiKeyContainsControlCharacters
deriving DecidableEq

/-- Checks an API key before it is used. -/
def validateApiKey (apiKey : String) : Except ApiKeyError Unit :=
  if apiKey = "" then .error .emptyApiKey
  else if MAX_API_KEY_BYTES < apiKey.utf8ByteSize then .error (.apiKeyTooLong MAX_API_KEY_BYTES)
  else if apiKey.toList.any isWhitespace then .error .apiKeyContainsWhitespace
  else if apiKey.toList.any isControl then .error .apiKeyContainsControlCharacters
  else .ok ()

/-! ## What is accepted -/

/-- A text that can be an API key. -/
structure Acceptable (key : String) : Prop where
  nonempty : key ≠ ""
  visible : ∀ c ∈ key.toList, isWhitespace c = false ∧ isControl c = false

/-- The check of a key accepts what is acceptable. -/
theorem acceptable_iff (key : String) :
    (key = "" || key.toList.any fun c => isWhitespace c || isControl c) = false ↔
      Acceptable key := by
  simp only [Bool.or_eq_false_iff, decide_eq_false_iff_not, List.any_eq_false, Bool.not_eq_true]
  exact ⟨fun ⟨hne, hall⟩ => ⟨hne, hall⟩, fun ⟨hne, hall⟩ => ⟨hne, hall⟩⟩

namespace Acceptable

variable {key : String}

/-- An acceptable key has no whitespace. -/
theorem not_whitespace (h : Acceptable key) : key.toList.any isWhitespace = false := by
  rw [List.any_eq_false]
  exact fun c hc => by simp [(h.visible c hc).1]

/-- An acceptable key has no control characters. -/
theorem not_control (h : Acceptable key) : key.toList.any isControl = false := by
  rw [List.any_eq_false]
  exact fun c hc => by simp [(h.visible c hc).2]

/-- A line end is whitespace, so it is not in a key. -/
theorem lineEnd (h : Acceptable key) {c : Char} (hc : c ∈ key.toList) :
    isLineEnd c = false := by
  have hvisible := (h.visible c hc).1
  rw [isLineEnd, Bool.or_eq_false_iff, decide_eq_false_iff_not, decide_eq_false_iff_not]
  constructor
  · rintro rfl
    revert hvisible
    decide
  · rintro rfl
    revert hvisible
    decide

/-- The line feed after a key is trimmed, and nothing else. -/
theorem trimLineEnds_append (h : Acceptable key) : trimLineEnds (key ++ "\n") = key := by
  have hself : key.toList.rdropWhile isLineEnd = key.toList := by
    rw [List.rdropWhile_eq_self_iff]
    intro hne
    rw [h.lineEnd (List.getLast_mem hne)]
    exact Bool.false_ne_true
  have hchars : (key ++ "\n").toList = key.toList ++ ['\n'] := String.toList_append
  rw [trimLineEnds, hchars, List.rdropWhile_concat_pos _ _ _ (by decide), hself,
    String.ofList_toList]

/-- The transport accepts a key within the limit. -/
theorem validateApiKey (h : Acceptable key) (hlen : key.utf8ByteSize ≤ MAX_API_KEY_BYTES) :
    validateApiKey key = .ok () := by
  rw [Launcher.validateApiKey, if_neg h.nonempty, if_neg (by omega),
    if_neg (by simp [h.not_whitespace]), if_neg (by simp [h.not_control])]

/-- The gateway reads a key when there is room for the line feed. -/
theorem readSecretLine (h : Acceptable key) (hlen : key.utf8ByteSize < MAX_API_KEY_BYTES) :
    readSecretLine (deliveredKey (toUtf8 key)) = .ok key := by
  have hbytes : deliveredKey (toUtf8 key) = toUtf8 (key ++ "\n") := (toUtf8_append key "\n").symm
  have hlength : (toUtf8 (key ++ "\n")).length = key.utf8ByteSize + 1 := by
    rw [toUtf8_append, List.length_append, toUtf8_length]
    rfl
  unfold Launcher.readSecretLine
  dsimp only
  rw [hbytes, List.take_of_length_le (by omega), if_neg (by omega), fromUtf8_toUtf8]
  dsimp only
  rw [h.trimLineEnds_append, if_neg h.nonempty, if_neg (by simp [h.not_whitespace]),
    if_neg (by simp [h.not_control])]

end Acceptable

/-- What the launcher accepts: a text within the limit that is a key before its line ends. -/
theorem SecretInput.parse_eq_ok {bytes key : Bytes} :
    parse bytes = .ok key ↔ bytes.length ≤ MAX_API_KEY_BYTES ∧ ∃ text,
      fromUtf8 bytes = some text ∧ Acceptable (trimLineEnds text) ∧
        key = toUtf8 (trimLineEnds text) := by
  unfold parse
  by_cases hlong : MAX_API_KEY_BYTES < bytes.length
  · rw [if_pos hlong]
    exact iff_of_false nofun fun h => absurd h.1 (by omega)
  · rw [if_neg hlong]
    have hle : bytes.length ≤ MAX_API_KEY_BYTES := by omega
    cases fromUtf8 bytes with
    | none => exact iff_of_false nofun fun ⟨_, _, h, _⟩ => nomatch h
    | some text =>
      dsimp only
      cases hkey : (trimLineEnds text = "" || (trimLineEnds text).toList.any fun c =>
          isWhitespace c || isControl c) with
      | true =>
        rw [if_pos rfl]
        refine iff_of_false nofun ?_
        rintro ⟨-, _, ⟨⟩, haccept, -⟩
        rw [(acceptable_iff _).mpr haccept] at hkey
        cases hkey
      | false =>
        rw [if_neg Bool.false_ne_true]
        constructor
        · rintro ⟨⟩
          exact ⟨hle, text, rfl, (acceptable_iff _).mp hkey, rfl⟩
        · rintro ⟨-, _, ⟨⟩, -, rfl⟩
          rfl

/-! ## The hand-over -/

/-- The gateway reads the key that the launcher delivers, and the transport accepts it. -/
def HandedOver (key : Bytes) : Prop :=
  ∃ secret, readSecretLine (deliveredKey key) = .ok secret ∧ toUtf8 secret = key ∧
    validateApiKey secret = .ok ()

/-- An input that uses up the limit and has no line end that will be trimmed. -/
def FillsLimit (bytes : Bytes) : Prop :=
  bytes.length = MAX_API_KEY_BYTES ∧ ∀ b ∈ bytes.getLast?, b ≠ CR ∧ b ≠ LF

/-- This can be decided. -/
instance (bytes : Bytes) : Decidable (FillsLimit bytes) := inferInstanceAs (Decidable (_ ∧ _))

/-- The last byte of a text is that of a line end when its last character is one. -/
theorem getLast_toUtf8 {s : String} {c : Char} (h : s.toList.getLast? = some c) :
    (∀ b ∈ (toUtf8 s).getLast?, b ≠ CR ∧ b ≠ LF) ↔ isLineEnd c = false := by
  obtain ⟨before, hs⟩ := List.getLast?_eq_some_iff.mp h
  have hlast : (toUtf8 s).getLast? = (String.utf8EncodeChar c).getLast? := by
    rw [toUtf8, hs, List.flatMap_append, List.flatMap_singleton]
    exact List.getLast?_append_of_ne_nil _ (String.utf8EncodeChar_ne_nil)
  rw [hlast]
  constructor
  · intro hall
    rw [isLineEnd, Bool.or_eq_false_iff, decide_eq_false_iff_not, decide_eq_false_iff_not]
    constructor
    · rintro rfl
      exact (hall CR (by decide)).1 rfl
    · rintro rfl
      exact (hall LF (by decide)).2 rfl
  · intro hc b hb
    rw [isLineEnd, Bool.or_eq_false_iff, decide_eq_false_iff_not, decide_eq_false_iff_not] at hc
    have hmem := List.mem_of_getLast? hb
    constructor
    · rintro rfl
      exact hc.1 (Char.toNat_inj.mp (toNat_of_mem_utf8EncodeChar hmem (by decide)))
    · rintro rfl
      exact hc.2 (Char.toNat_inj.mp (toNat_of_mem_utf8EncodeChar hmem (by decide)))

/-- The bytes of a text are those of the trimmed text and of the line ends. -/
theorem toUtf8_trimLineEnds (s : String) : ∃ ends : List Char,
    s.toList = (trimLineEnds s).toList ++ ends ∧
      (toUtf8 s).length = (toUtf8 (trimLineEnds s)).length + ends.length ∧
      ∀ c ∈ ends, isLineEnd c = true := by
  refine ⟨s.toList.rtakeWhile isLineEnd, ?_, ?_, ?_⟩
  · rw [trimLineEnds, String.toList_ofList, List.rdropWhile_append_rtakeWhile]
  · have hends : ∀ cs : List Char, (∀ c ∈ cs, isLineEnd c = true) →
        (cs.flatMap String.utf8EncodeChar).length = cs.length := by
      intro cs hcs
      induction cs with
      | nil => rfl
      | cons c cs ih =>
        have hone : (String.utf8EncodeChar c).length = 1 := by
          have hc := hcs c List.mem_cons_self
          rw [isLineEnd, Bool.or_eq_true, decide_eq_true_eq, decide_eq_true_eq] at hc
          rcases hc with rfl | rfl <;> decide
        rw [List.flatMap_cons, List.length_append, hone,
          ih fun d hd => hcs d (List.mem_cons_of_mem _ hd), List.length_cons, Nat.add_comm]
    calc (toUtf8 s).length
        = ((s.toList.rdropWhile isLineEnd ++
            s.toList.rtakeWhile isLineEnd).flatMap
              String.utf8EncodeChar).length := by
          rw [List.rdropWhile_append_rtakeWhile]
          rfl
      _ = _ := by
          rw [List.flatMap_append, List.length_append, hends _ fun c hc =>
            List.mem_rtakeWhile_imp hc, toUtf8, trimLineEnds, String.toList_ofList]
  · exact fun c hc => List.mem_rtakeWhile_imp hc

/-- The key is within the limit, and uses it up exactly when the input does without a line end. -/
theorem parse_length {bytes key : Bytes} (h : SecretInput.parse bytes = .ok key) :
    key.length ≤ MAX_API_KEY_BYTES ∧ (key.length = MAX_API_KEY_BYTES ↔ FillsLimit bytes) := by
  obtain ⟨hlen, text, htext, haccept, rfl⟩ := SecretInput.parse_eq_ok.mp h
  obtain rfl := fromUtf8_eq_some htext
  obtain ⟨ends, hchars, hlength, hends⟩ := toUtf8_trimLineEnds text
  refine ⟨by omega, ?_⟩
  rcases List.eq_nil_or_concat' ends with rfl | ⟨ends, c, rfl⟩
  · -- Nothing was trimmed, so the last character is one of the key.
    rw [List.append_nil] at hchars
    rw [List.length_nil, Nat.add_zero] at hlength
    obtain ⟨c, hc⟩ : ∃ c, text.toList.getLast? = some c := by
      rw [← Option.isSome_iff_exists, List.getLast?_isSome, hchars]
      exact fun hnil => haccept.nonempty (String.toList_injective hnil)
    have hlast := (getLast_toUtf8 hc).mpr (haccept.lineEnd (hchars ▸ List.mem_of_getLast? hc))
    rw [FillsLimit, hlength]
    exact ⟨fun heq => ⟨heq, hlast⟩, fun hfills => hfills.1⟩
  · -- A line end was trimmed, and it is the last character.
    have hc : text.toList.getLast? = some c := by
      rw [hchars, ← List.append_assoc, List.getLast?_concat]
    rw [List.length_append, List.length_singleton] at hlength
    refine iff_of_false (by omega) fun hfills => ?_
    have hnot := (getLast_toUtf8 hc).mp hfills.2
    rw [hends c (List.mem_append_right _ List.mem_cons_self)] at hnot
    cases hnot

/-- A key that the launcher accepts is handed over exactly when the input does not use up the limit
without a line end. -/
theorem parse_handedOver (bytes key : Bytes) (h : SecretInput.parse bytes = .ok key) :
    HandedOver key ↔ ¬ FillsLimit bytes := by
  obtain ⟨hle, hfull⟩ := parse_length h
  rw [← hfull]
  obtain ⟨-, text, -, haccept, rfl⟩ := SecretInput.parse_eq_ok.mp h
  have hsize := toUtf8_length (trimLineEnds text)
  constructor
  · rintro ⟨secret, hread, -, -⟩ heq
    -- With the line feed there is one byte more than the gateway accepts.
    have hlong : MAX_API_KEY_BYTES < ((deliveredKey (toUtf8 (trimLineEnds text))).take
        (MAX_API_KEY_BYTES + 1)).length := by
      have hfeed : (toUtf8 "\n").length = 1 := rfl
      rw [deliveredKey, List.length_take, List.length_append, hfeed]
      omega
    rw [readSecretLine, if_pos hlong] at hread
    cases hread
  · intro hne
    exact ⟨_, haccept.readSecretLine (by omega), rfl, haccept.validateApiKey (by omega)⟩

/-- A short key is handed over. -/
theorem parse_handedOver_short : HandedOver (toUtf8 "sk") :=
  (parse_handedOver (toUtf8 "sk\n") (toUtf8 "sk") (by decide)).mpr (by decide)

/-- A key of one letter, repeated. -/
def repeatedKey (n : ℕ) : String := String.ofList (List.replicate n 'x')

/-- Such a key is accepted when it is within the limit. -/
theorem parse_repeatedKey {n : ℕ} (hpos : 0 < n) (hle : n ≤ MAX_API_KEY_BYTES) :
    SecretInput.parse (toUtf8 (repeatedKey n)) = .ok (toUtf8 (repeatedKey n)) ∧
      (toUtf8 (repeatedKey n)).length = n := by
  have hlength : (toUtf8 (repeatedKey n)).length = n := by
    have hone : 'x'.utf8Size = 1 := by decide
    simp [toUtf8, repeatedKey, hone]
  have htrim : trimLineEnds (repeatedKey n) = repeatedKey n := by
    have hself : (List.replicate n 'x').rdropWhile isLineEnd =
        List.replicate n 'x' := by
      rw [List.rdropWhile_eq_self_iff]
      intro hne
      rw [List.eq_of_mem_replicate (List.getLast_mem hne)]
      decide
    rw [trimLineEnds, repeatedKey, String.toList_ofList, hself]
  refine ⟨SecretInput.parse_eq_ok.mpr ⟨by omega, _, fromUtf8_toUtf8 _, ?_, by rw [htrim]⟩, hlength⟩
  rw [htrim]
  refine ⟨fun hnil => ?_, fun c hc => ?_⟩
  · rw [hnil] at hlength
    exact absurd hlength.symm (Nat.ne_of_gt hpos)
  · rw [repeatedKey, String.toList_ofList] at hc
    rw [List.eq_of_mem_replicate hc]
    decide

/-- The launcher accepts a key that uses up the limit, and the gateway does not. -/
theorem parse_handedOver_full :
    SecretInput.parse (toUtf8 (repeatedKey 16384)) = .ok (toUtf8 (repeatedKey 16384)) ∧
      ¬ HandedOver (toUtf8 (repeatedKey 16384)) := by
  obtain ⟨hparse, hlength⟩ := parse_repeatedKey (n := 16384) (by decide) (by decide)
  refine ⟨hparse, ?_⟩
  rintro ⟨secret, hread, -, -⟩
  have hlong : MAX_API_KEY_BYTES < ((deliveredKey (toUtf8 (repeatedKey 16384))).take
      (MAX_API_KEY_BYTES + 1)).length := by
    have hfeed : (toUtf8 "\n").length = 1 := rfl
    rw [deliveredKey, List.length_take, List.length_append, hfeed, hlength]
    decide
  rw [readSecretLine, if_pos hlong] at hread
  cases hread

end MuseCodex.Launcher
