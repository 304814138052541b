import MuseCodex.Json.Value
import MuseCodex.Text

/-!
# The interface of a JSON library

The verified code reads and writes JSON through a library that is not part of it. `Serde` is that
library as a parameter: a parser that returns a document or the text of its error, and a compact
printer. What the code relies on is stated by the laws of this module (`Serde.Lawful`,
`Serde.ScalarsDistinct`, `Serde.Spaced`), and, where sizes count, by `Serde.Sized` and
`Serde.Measured` (`Json/Size.lean`), `Serde.Itemized` (`Json/Resize.lean`), and `Serde.Spelled`
(`Json/Least.lean`). They are as the library documents it: its integers are words of 64 bits, and
the text of a larger one is read as a double; the parser has a nesting limit of 128, so a printed
document is read back only when it is nested less deeply; and the digits of a double may be rounded
when they are read, so nothing is assumed of reading one back.
-/

namespace MuseCodex.Json

open Text

/-- A JSON parser and a compact JSON printer. -/
structure Serde where
  /-- The document that a text denotes, or the text of the error. -/
  fromStr : String → Except String Value
  /-- The compact text of a document. -/
  toString : Value → String

namespace Serde

variable (serde : Serde)

/-- The document that a sequence of bytes denotes. Only UTF-8 bytes denote one. -/
def fromSlice (bytes : Bytes) : Option Value :=
  (fromUtf8 bytes).bind fun text => (serde.fromStr text).toOption

/-- The bytes of the compact text of a document. -/
def toVec (v : Value) : Bytes := toUtf8 (serde.toString v)

/-- What the code relies on when it prints documents that it has built. -/
structure Lawful : Prop where
  /-- Parsing undoes printing, as long as the integers are words of 64 bits. -/
  fromStr_toString : ∀ v, Plain 127 v → serde.fromStr (serde.toString v) = .ok v
  /-- The integers of a parsed document are words of 64 bits. -/
  fromStr_inRange : ∀ s v, serde.fromStr s = .ok v → InRange v
  /-- A printed document is on one line. -/
  toString_line : ∀ v, ∀ c ∈ (serde.toString v).toList, c ≠ '\r' ∧ c ≠ '\n'
  /-- A printed object starts with its brace. -/
  toString_object : ∀ m, (serde.toString (.object m)).toList.head? = some '\x7b'

variable {serde}

/-- The bytes of a document are read as the document. -/
theorem Lawful.fromSlice_toVec (h : serde.Lawful) {v : Value} (hv : Plain 127 v) :
    serde.fromSlice (serde.toVec v) = some v := by
  rw [fromSlice, toVec, fromUtf8_toUtf8, Option.bind_some, h.fromStr_toString v hv]
  rfl

end Serde

/-- A string, a number, or null. -/
def Value.isScalar : Value → Bool
  | .string _ | .number _ | .null => true
  | _ => false

/-- What the code relies on when it uses the text of a scalar as a key. -/
def Serde.ScalarsDistinct (serde : Serde) : Prop :=
  ∀ v w : Value, v.isScalar → w.isScalar → serde.toString v = serde.toString w → v = w

/-- A character that JSON allows between two tokens. -/
def isBlank (c : Char) : Bool := c = ' ' || c = '\t' || c = '\n' || c = '\r'

/-- A text of blanks only. -/
def Blank (s : String) : Prop := ∀ c ∈ s.toList, isBlank c = true

/-- This can be checked character by character. -/
instance (s : String) : Decidable (Blank s) :=
  List.decidableBAll (fun c => isBlank c = true) s.toList

/-- What the code relies on when it reads documents whose lines may be ended in several ways. -/
structure Serde.Spaced (serde : Serde) : Prop where
  /-- Blanks before a document do not change it. -/
  leading : ∀ {x : String} (s), Blank x → (serde.fromStr (x ++ s)).toOption =
    (serde.fromStr s).toOption
  /-- Blanks after a document do not change it. -/
  trailing : ∀ (s) {x : String}, Blank x → (serde.fromStr (s ++ x)).toOption =
    (serde.fromStr s).toOption
  /-- A line feed stands only between two tokens of a document, where any blanks may stand. -/
  between : ∀ {s x y t : String} {v}, Blank x → '\n' ∈ x.toList → Blank y → y ≠ "" →
    serde.fromStr (s ++ x ++ t) = .ok v → serde.fromStr (s ++ y ++ t) = .ok v

end MuseCodex.Json
