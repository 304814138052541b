import Mathlib.Data.List.DropRight
import MuseCodex.Text

/-!
# Base64 for URLs

Bytes as text, six bits a symbol, in the alphabet that needs no escaping in a URL. The encoder
writes no padding. A decoder takes either no padding (`decodeNoPad`) or exactly the padding that
makes the length a multiple of four (`decodePadded`), and neither takes bits behind the last byte.
-/

namespace MuseCodex.Base64

open Text

/-- The symbols in the order of what they stand for. -/
def alphabet : List Char :=
  "ABCDEFGHIJKLMNOPQRSTUVWXYZabcdefghijklmnopqrstuvwxyz0123456789-_".toList

/-- The symbol of six bits. -/
def symbol (n : ℕ) : Char := alphabet.getD n 'A'

/-- The six bits of a symbol. -/
def digit (c : Char) : Option ℕ := alphabet.idxOf? c

/-- The symbols of bytes, three bytes at a time. -/
def encodeChars : Bytes → List Char
  | a :: b :: c :: bytes =>
    symbol (a.toNat / 4) :: symbol (a.toNat % 4 * 16 + b.toNat / 16) ::
      symbol (b.toNat % 16 * 4 + c.toNat / 64) :: symbol (c.toNat % 64) :: encodeChars bytes
  | [a, b] => [symbol (a.toNat / 4), symbol (a.toNat % 4 * 16 + b.toNat / 16),
      symbol (b.toNat % 16 * 4)]
  | [a] => [symbol (a.toNat / 4), symbol (a.toNat % 4 * 16)]
  | [] => []

/-- The encoding of bytes without padding. -/
def encode (bytes : Bytes) : String := String.ofList (encodeChars bytes)

/-- The bytes of groups of six bits, four groups at a time. -/
def decodeDigits : List ℕ → Option Bytes
  | p :: q :: r :: s :: digits => (decodeDigits digits).map
      ([UInt8.ofNat (p * 4 + q / 16), UInt8.ofNat (q % 16 * 16 + r / 4),
        UInt8.ofNat (r % 4 * 64 + s)] ++ ·)
  | [p, q, r] =>
    if r % 4 = 0 then some [UInt8.ofNat (p * 4 + q / 16), UInt8.ofNat (q % 16 * 16 + r / 4)]
    else none
  | [p, q] => if q % 16 = 0 then some [UInt8.ofNat (p * 4 + q / 16)] else none
  | [_] => none
  | [] => some []

/-- The bytes of symbols. -/
def decodeChars (symbols : List Char) : Option Bytes := (symbols.mapM digit).bind decodeDigits

/-- The bytes of a text without padding. -/
def decodeNoPad (text : String) : Option Bytes := decodeChars text.toList

/-- The bytes of a text with padding. -/
def decodePadded (text : String) : Option Bytes :=
  let symbols := text.toList.rdropWhile (· = '=')
  if text.toList.length % 4 = 0 ∧ text.toList.length ≤ symbols.length + 2 then decodeChars symbols
  else none

/-- A symbol stands for its digit. -/
theorem digit_symbol {n : ℕ} (h : n < 64) : digit (symbol n) = some n := by
  revert n
  decide

/-- A byte is determined by its number. -/
theorem ofNat_toNat_of_eq {b : UInt8} {n : ℕ} (h : n = b.toNat) : UInt8.ofNat n = b := by
  rw [h, UInt8.ofNat_toNat]

/-- The symbols of bytes denote the bytes. -/
theorem decodeChars_encodeChars (bytes : Bytes) : decodeChars (encodeChars bytes) = some bytes := by
  fun_induction encodeChars bytes with
  | case1 a b c bytes ih =>
    have ha := a.toNat_lt
    have hb := b.toNat_lt
    have hc := c.toNat_lt
    obtain ⟨digits, hdigits, hrest⟩ := Option.bind_eq_some_iff.mp ih
    rw [decodeChars, List.mapM_cons, digit_symbol (by omega), List.mapM_cons,
      digit_symbol (by omega), List.mapM_cons, digit_symbol (by omega), List.mapM_cons,
      digit_symbol (by omega), hdigits]
    simp only [Option.pure_def, Option.bind_eq_bind, Option.bind_some, decodeDigits, hrest,
      Option.map_some, List.cons_append, List.nil_append]
    rw [ofNat_toNat_of_eq (b := a) (by omega), ofNat_toNat_of_eq (b := b) (by omega),
      ofNat_toNat_of_eq (b := c) (by omega)]
  | case2 a b =>
    have ha := a.toNat_lt
    have hb := b.toNat_lt
    rw [decodeChars, List.mapM_cons, digit_symbol (by omega), List.mapM_cons,
      digit_symbol (by omega), List.mapM_cons, digit_symbol (by omega), List.mapM_nil]
    simp only [Option.pure_def, Option.bind_eq_bind, Option.bind_some, decodeDigits]
    rw [if_pos (by omega), ofNat_toNat_of_eq (b := a) (by omega),
      ofNat_toNat_of_eq (b := b) (by omega)]
  | case3 a =>
    have ha := a.toNat_lt
    rw [decodeChars, List.mapM_cons, digit_symbol (by omega), List.mapM_cons,
      digit_symbol (by omega), List.mapM_nil]
    simp only [Option.pure_def, Option.bind_eq_bind, Option.bind_some, decodeDigits]
    rw [if_pos (by omega), ofNat_toNat_of_eq (b := a) (by omega)]
  | case4 => rfl

/-- Decoding undoes encoding. -/
theorem decodeNoPad_encode (bytes : Bytes) : decodeNoPad (encode bytes) = some bytes := by
  rw [decodeNoPad, encode, String.toList_ofList, decodeChars_encodeChars]

end MuseCodex.Base64
