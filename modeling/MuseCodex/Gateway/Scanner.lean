import MuseCodex.Framing
import MuseCodex.Text

/-!
# The frame scanner of the gateway

`complete_frame_len` of `crates/muse-codex-gateway/src/sse.rs` returns the length of a buffer
through its first blank line. Lines end with LF, CRLF, or CR, and a CR at the end of the buffer
leaves the answer open, since an LF may follow it. That one byte of lookahead makes the scanner
stable in the sense of `Framing.lean` (`scanner_stable`): more input never moves a blank line that
was found, and one that is found later ends at or after the end of the earlier buffer.
-/

namespace MuseCodex.Gateway

open Text Framing

/-- The loop of `complete_frame_len`, at `index`, on the bytes of the buffer from there on. The
current line starts at `lineStart`. -/
def completeFrameLenFrom (lineStart index : ℕ) : Bytes → Option ℕ
  | [] => none
  | byte :: rest =>
    if byte = LF then
      if index = lineStart then some (index + 1)
      else completeFrameLenFrom (index + 1) (index + 1) rest
    else if byte = CR then
      match rest with
      | [] => none
      | next :: rest' =>
        if next = LF then
          if index = lineStart then some (index + 2)
          else completeFrameLenFrom (index + 2) (index + 2) rest'
        else
          if index = lineStart then some (index + 1)
          else completeFrameLenFrom (index + 1) (index + 1) (next :: rest')
    else completeFrameLenFrom lineStart (index + 1) rest

/-- The length of a buffer through its first blank line. -/
def completeFrameLen (buffer : Bytes) : Option ℕ := completeFrameLenFrom 0 0 buffer

section

variable (lineStart index : ℕ) (rest : Bytes)

/-- The scan at a line feed. -/
theorem completeFrameLenFrom_lf : completeFrameLenFrom lineStart index (LF :: rest) =
    if index = lineStart then some (index + 1)
    else completeFrameLenFrom (index + 1) (index + 1) rest := by
  rw [completeFrameLenFrom.eq_def]
  simp

/-- The scan at a carriage return with a line feed. -/
theorem completeFrameLenFrom_crlf : completeFrameLenFrom lineStart index (CR :: LF :: rest) =
    if index = lineStart then some (index + 2)
    else completeFrameLenFrom (index + 2) (index + 2) rest := by
  rw [completeFrameLenFrom.eq_def]
  simp [LF, CR]

/-- The scan at a carriage return alone. -/
theorem completeFrameLenFrom_cr {next : UInt8} (h : next ≠ LF) :
    completeFrameLenFrom lineStart index (CR :: next :: rest) =
      if index = lineStart then some (index + 1)
      else completeFrameLenFrom (index + 1) (index + 1) (next :: rest) := by
  rw [completeFrameLenFrom.eq_def]
  simp only [if_neg (show CR ≠ LF by decide), if_true, if_neg h]

/-- The scan at any other byte. -/
theorem completeFrameLenFrom_byte {byte : UInt8} (hlf : byte ≠ LF) (hcr : byte ≠ CR) :
    completeFrameLenFrom lineStart index (byte :: rest) =
      completeFrameLenFrom lineStart (index + 1) rest := by
  rw [completeFrameLenFrom.eq_def]
  simp only [if_neg hlf, if_neg hcr]

end

/-- A frame is not empty and lies within the buffer. -/
theorem completeFrameLenFrom_bounds {lineStart index n : ℕ} {b : Bytes}
    (h : completeFrameLenFrom lineStart index b = some n) : index < n ∧ n ≤ index + b.length := by
  fun_induction completeFrameLenFrom lineStart index b with
  | case1 | case4 => cases h
  | case2 | case5 | case7 => cases h; simp only [List.length_cons]; omega
  | case3 _ _ _ _ ih | case6 _ _ _ _ _ ih | case8 _ _ _ _ _ _ _ ih
  | case9 _ _ _ _ _ _ ih =>
    have := ih h
    simp only [List.length_cons] at this ⊢
    omega

/-- More input does not move the first blank line. -/
theorem completeFrameLenFrom_append {lineStart index n : ℕ} {b : Bytes}
    (h : completeFrameLenFrom lineStart index b = some n) (t : Bytes) :
    completeFrameLenFrom lineStart index (b ++ t) = some n := by
  fun_induction completeFrameLenFrom lineStart index b with
  | case1 | case4 => cases h
  | case2 index rest => rw [List.cons_append, completeFrameLenFrom_lf, if_pos rfl, h]
  | case3 lineStart index rest hne ih =>
    rw [List.cons_append, completeFrameLenFrom_lf, if_neg hne, ih h]
  | case5 index rest =>
    rw [List.cons_append, List.cons_append, completeFrameLenFrom_crlf, if_pos rfl, h]
  | case6 lineStart index rest hne _ ih =>
    rw [List.cons_append, List.cons_append, completeFrameLenFrom_crlf, if_neg hne, ih h]
  | case7 index next rest hlf =>
    rw [List.cons_append, List.cons_append, completeFrameLenFrom_cr _ _ _ hlf, if_pos rfl, h]
  | case8 lineStart index next rest hlf hne _ ih =>
    rw [List.cons_append, List.cons_append, completeFrameLenFrom_cr _ _ _ hlf, if_neg hne]
    exact ih h
  | case9 lineStart index byte rest hlf hcr ih =>
    rw [List.cons_append, completeFrameLenFrom_byte _ _ _ hlf hcr, ih h]

/-- A blank line that more input ends does not end before that input, except that the CR at the
end of the earlier buffer may turn out to end it. -/
theorem completeFrameLenFrom_length_le {lineStart index n : ℕ} {b : Bytes}
    (h : completeFrameLenFrom lineStart index b = none) {t : Bytes}
    (h' : completeFrameLenFrom lineStart index (b ++ t) = some n) : index + b.length ≤ n := by
  fun_induction completeFrameLenFrom lineStart index b with
  | case1 => exact le_of_lt (completeFrameLenFrom_bounds h').1
  | case4 => exact (completeFrameLenFrom_bounds h').1
  | case2 | case5 | case7 => cases h
  | case3 lineStart index rest hne ih =>
    rw [List.cons_append, completeFrameLenFrom_lf, if_neg hne] at h'
    have := ih h h'
    simp only [List.length_cons]
    omega
  | case6 lineStart index rest hne _ ih =>
    rw [List.cons_append, List.cons_append, completeFrameLenFrom_crlf, if_neg hne] at h'
    have := ih h h'
    simp only [List.length_cons]
    omega
  | case8 lineStart index next rest hlf hne _ ih =>
    rw [List.cons_append, List.cons_append, completeFrameLenFrom_cr _ _ _ hlf, if_neg hne] at h'
    have := ih h h'
    simp only [List.length_cons] at this ⊢
    omega
  | case9 lineStart index byte rest hlf hcr ih =>
    rw [List.cons_append, completeFrameLenFrom_byte _ _ _ hlf hcr] at h'
    have := ih h h'
    simp only [List.length_cons]
    omega

/-- `complete_frame_len` as a scanner. -/
def scanner : Scanner UInt8 where
  scan := completeFrameLen
  pos h := (completeFrameLenFrom_bounds h).1
  le_length h := by simpa using (completeFrameLenFrom_bounds h).2

/-- The answers of `complete_frame_len` hold as more input arrives. -/
theorem scanner_stable : scanner.Stable where
  append h t := completeFrameLenFrom_append h t
  length_le h _ _ h' := by simpa using completeFrameLenFrom_length_le h h'

end MuseCodex.Gateway
