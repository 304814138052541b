import MuseCodex.Text

/-!
# The first blank line of a buffer

The lines of a buffer of bytes, by their positions. A line ends with CRLF, LF, or CR, and a CR ends
a line only when a further byte shows whether an LF belongs to it. `FirstBlankLine` says where the
first blank line of a buffer ends.

`Scanned` is what a scanner knows that reads a buffer once from its start: where the current line
starts, and that no blank line came before it. The lemmas on it are the steps of such a scanner.
-/

namespace MuseCodex.Text

variable {b : Bytes}

/-- A line ends at the first position, and the next one starts at the second. -/
inductive LineEndAt (b : Bytes) : ℕ → ℕ → Prop where
  | crlf {i : ℕ} (h : b[i]? = some CR) (hnext : b[i + 1]? = some LF) : LineEndAt b i (i + 2)
  /-- An LF after a CR belongs to it. -/
  | lf {i : ℕ} (h : b[i]? = some LF) (hbefore : ∀ j, i = j + 1 → b[j]? ≠ some CR) :
      LineEndAt b i (i + 1)
  | cr {i : ℕ} {byte : UInt8} (h : b[i]? = some CR) (hnext : b[i + 1]? = some byte)
      (hlf : byte ≠ LF) : LineEndAt b i (i + 1)

/-- A line starts at the start of the buffer, and where the line before it ends. -/
def LineStart (b : Bytes) (s : ℕ) : Prop := s = 0 ∨ ∃ i, LineEndAt b i s

/-- The line that starts at the first position is blank, and ends before the second. -/
def BlankLine (b : Bytes) (s n : ℕ) : Prop := LineStart b s ∧ LineEndAt b s n

/-- The first blank line of a buffer ends before a position. -/
def FirstBlankLine (b : Bytes) (n : ℕ) : Prop :=
  ∃ s, BlankLine b s n ∧ ∀ s' n', BlankLine b s' n' → s ≤ s'

namespace LineEndAt

variable {i e e' : ℕ}

/-- A line end is not empty. -/
theorem lt (h : LineEndAt b i e) : i < e := by
  cases h <;> omega

/-- A line ends with a CR or an LF. -/
theorem byte (h : LineEndAt b i e) : b[i]? = some CR ∨ b[i]? = some LF := by
  cases h with
  | crlf h | cr h => exact .inl h
  | lf h => exact .inr h

/-- A line end starts within the bytes. -/
theorem lt_length (h : LineEndAt b i e) : i < b.length := by
  rcases h.byte with h | h <;> exact (List.getElem?_eq_some_iff.mp h).1

/-- The end of a line is of one kind. -/
theorem unique (h : LineEndAt b i e) (h' : LineEndAt b i e') : e = e' := by
  have hne : CR ≠ LF := by decide
  cases h with
  | crlf h hnext =>
    cases h' with
    | crlf => rfl
    | lf h' => simp_all
    | cr _ hnext' hlf => simp_all
  | lf h =>
    cases h' with
    | crlf h' => simp_all
    | lf => rfl
    | cr => rfl
  | cr h hnext hlf =>
    cases h' with
    | crlf _ hnext' => simp_all
    | lf => rfl
    | cr => rfl

/-- Lines do not overlap. -/
theorem le_of_lt {i' : ℕ} (h : LineEndAt b i e) (h' : LineEndAt b i' e') (hlt : i < i') :
    e ≤ i' := by
  cases h with
  | crlf h hnext =>
    -- The LF of a CRLF is no end of its own.
    have hne : i' ≠ i + 1 := by
      rintro rfl
      cases h' with
      | crlf h' | cr h' => simp [hnext, LF, CR] at h'
      | lf _ hbefore => exact hbefore i rfl h
    omega
  | lf | cr => omega

end LineEndAt

/-- What is known of a buffer that was read up to an index without finding a blank line. -/
structure Scanned (b : Bytes) (lineStart index : ℕ) : Prop where
  start : LineStart b lineStart
  le : lineStart ≤ index
  /-- Every end of a line lies before the current line or is still to come. -/
  ends : ∀ {i e}, LineEndAt b i e → e ≤ lineStart ∨ index ≤ i
  /-- No line before the current one is blank. -/
  blank : ∀ {s n}, BlankLine b s n → lineStart ≤ s
  /-- A CR before the index ended a line, and no LF follows it. -/
  before : ∀ j, index = j + 1 → b[j]? = some CR → ∃ byte, b[index]? = some byte ∧ byte ≠ LF

namespace Scanned

variable {lineStart index e n : ℕ}

/-- Nothing is scanned at first. -/
theorem zero : Scanned b 0 0 where
  start := .inl rfl
  le := le_rfl
  ends _ := .inr (Nat.zero_le _)
  blank _ := Nat.zero_le _
  before j hj := by cases hj

/-- Only the current line may start at the index. -/
theorem eq_of_lineStart (h : Scanned b lineStart index) (hstart : LineStart b index) :
    index = lineStart := by
  have hle := h.le
  rcases hstart with rfl | ⟨i, hend⟩
  · omega
  · have hlt := hend.lt
    rcases h.ends hend with hbefore | hafter <;> omega

/-- An LF at the index ends a line. -/
theorem lf (h : Scanned b lineStart index) (hbyte : b[index]? = some LF) :
    LineEndAt b index (index + 1) := by
  refine .lf hbyte fun j hj hcr => ?_
  obtain ⟨byte, hnext, hne⟩ := h.before j hj hcr
  rw [hbyte, Option.some_inj] at hnext
  exact hne hnext.symm

/-- Another byte belongs to the current line. -/
theorem byte (h : Scanned b lineStart index) (hlf : b[index]? ≠ some LF)
    (hcr : b[index]? ≠ some CR) : Scanned b lineStart (index + 1) where
  start := h.start
  le := Nat.le_succ_of_le h.le
  ends {i e} hend := by
    refine (h.ends hend).imp_right fun hle => Nat.lt_of_le_of_ne hle ?_
    rintro rfl
    exact hend.byte.elim hcr hlf
  blank := h.blank
  before j hj hbyte := by
    rw [← Nat.succ.inj hj] at hbyte
    exact absurd hbyte hcr

/-- After a line that is not blank the next one starts. -/
theorem next (h : Scanned b lineStart index) (hend : LineEndAt b index e)
    (hne : index ≠ lineStart) : Scanned b e e where
  start := .inr ⟨index, hend⟩
  le := le_rfl
  ends {i e'} hend' := by
    have hle := h.le
    have hlt := hend.lt
    rcases h.ends hend' with hbefore | hafter
    · exact .inl (by omega)
    · rcases Nat.eq_or_lt_of_le hafter with rfl | hlater
      · exact .inl (hend'.unique hend).le
      · exact .inr (hend.le_of_lt hend' hlater)
  blank {s n} hblank := by
    have hlt := hblank.2.lt
    have hle := h.blank hblank
    have hs : index ≠ s := by
      rintro rfl
      exact hne (h.eq_of_lineStart hblank.1)
    rcases h.ends hblank.2 with hbefore | hafter
    · omega
    · exact hend.le_of_lt hblank.2 (Nat.lt_of_le_of_ne hafter hs)
  before j hj hbyte := by
    cases hend with
    | crlf _ hnext =>
      rw [← Nat.succ.inj hj, hnext] at hbyte
      simp [LF, CR] at hbyte
    | lf hlf =>
      rw [← Nat.succ.inj hj, hlf] at hbyte
      simp [LF, CR] at hbyte
    | cr _ hnext hlf => exact ⟨_, hnext, hlf⟩

/-- An end of a line at its start makes it the first blank line. -/
theorem found (h : Scanned b index index) (hend : LineEndAt b index e) :
    FirstBlankLine b n ↔ n = e := by
  constructor
  · rintro ⟨s, hblank, hfirst⟩
    have hs : s = index := Nat.le_antisymm (hfirst index e ⟨h.start, hend⟩) (h.blank hblank)
    exact (hs ▸ hblank.2).unique hend
  · rintro rfl
    exact ⟨index, ⟨h.start, hend⟩, fun _ _ hblank => h.blank hblank⟩

/-- Without a further end of a line there is no blank line. -/
theorem none (h : Scanned b lineStart index) (hnone : ∀ i e, index ≤ i → ¬LineEndAt b i e) :
    ¬FirstBlankLine b n := by
  rintro ⟨s, hblank, -⟩
  have hlt := hblank.2.lt
  have hle := h.blank hblank
  rcases h.ends hblank.2 with hbefore | hafter
  · omega
  · exact hnone s n hafter hblank.2

end Scanned

end MuseCodex.Text
