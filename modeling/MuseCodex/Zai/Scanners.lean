import MuseCodex.BlankLine
import MuseCodex.Gateway.Scanner
import MuseCodex.Zai.Stream

/-!
# The two frame scanners

`complete_frame_len` is written twice, in `crates/muse-codex-gateway/src/sse.rs` and in
`crates/codex-transport/src/zai/stream.rs`. Both read a buffer once and look one byte ahead for the
LF of a CRLF, and both find the first blank line of the buffer in the sense of `BlankLine.lean`.
They differ on a CR at the end of the buffer: the gateway waits for a further byte, and the
synthesizer takes it for the end of a line (`completeFrameLen_blankLine`).
-/

namespace MuseCodex

open Text

variable {b rest : Bytes} {lineStart index n : ℕ}

/-- The bytes of a buffer from an index on. -/
theorem drop_eq_cons {byte : UInt8} (hrest : b.drop index = byte :: rest) :
    b[index]? = some byte ∧ b.drop (index + 1) = rest := by
  constructor
  · rw [← List.head?_drop, hrest, List.head?_cons]
  · rw [← List.tail_drop, hrest, List.tail_cons]

/-- No line ends after the end of the buffer. -/
theorem not_lineEndAt_of_drop_nil (hrest : b.drop index = []) {i e : ℕ} (hi : index ≤ i) :
    ¬LineEndAt b i e := by
  intro hend
  have hlt := hend.lt_length
  have hle := List.drop_eq_nil_iff.mp hrest
  omega

/-- A CR at the end of the buffer does not end a line yet. -/
theorem not_lineEndAt_of_drop_cr (hrest : b.drop index = [CR]) {i e : ℕ} (hi : index ≤ i) :
    ¬LineEndAt b i e := by
  obtain ⟨hbyte, hnil⟩ := drop_eq_cons hrest
  have hlength : b.length ≤ index + 1 := List.drop_eq_nil_iff.mp hnil
  have hnext : b[index + 1]? = none := List.getElem?_eq_none_iff.mpr hlength
  intro hend
  have hlt := hend.lt_length
  obtain rfl : i = index := by omega
  cases hend with
  | crlf _ h | cr _ h => simp [hnext] at h
  | lf h => simp [hbyte, LF, CR] at h

/-! ## The gateway -/

namespace Gateway

/-- From a state of the loop, the scanner finds the first blank line. -/
theorem completeFrameLenFrom_eq_some_iff (hrest : b.drop index = rest)
    (h : Scanned b lineStart index) :
    completeFrameLenFrom lineStart index rest = some n ↔ FirstBlankLine b n := by
  fun_induction completeFrameLenFrom lineStart index rest with
  | case1 =>
    exact iff_of_false (Option.some_ne_none _).symm (h.none fun i e hi => not_lineEndAt_of_drop_nil hrest hi)
  | case2 index rest =>
    rw [h.found (h.lf (drop_eq_cons hrest).1), Option.some_inj, eq_comm]
  | case3 lineStart index rest hne ih =>
    obtain ⟨hbyte, hdrop⟩ := drop_eq_cons hrest
    exact ih hdrop (h.next (h.lf hbyte) hne)
  | case4 =>
    exact iff_of_false (Option.some_ne_none _).symm (h.none fun i e hi => not_lineEndAt_of_drop_cr hrest hi)
  | case5 index rest =>
    obtain ⟨hbyte, hdrop⟩ := drop_eq_cons hrest
    rw [h.found (.crlf hbyte (drop_eq_cons hdrop).1), Option.some_inj, eq_comm]
  | case6 lineStart index rest hne _ ih =>
    obtain ⟨hbyte, hdrop⟩ := drop_eq_cons hrest
    obtain ⟨hnext, hdrop⟩ := drop_eq_cons hdrop
    exact ih hdrop (h.next (.crlf hbyte hnext) hne)
  | case7 index next rest hlf =>
    obtain ⟨hbyte, hdrop⟩ := drop_eq_cons hrest
    rw [h.found (.cr hbyte (drop_eq_cons hdrop).1 hlf), Option.some_inj, eq_comm]
  | case8 lineStart index next rest hlf hne _ ih =>
    obtain ⟨hbyte, hdrop⟩ := drop_eq_cons hrest
    exact ih hdrop (h.next (.cr hbyte (drop_eq_cons hdrop).1 hlf) hne)
  | case9 lineStart index byte rest hlf hcr ih =>
    obtain ⟨hbyte, hdrop⟩ := drop_eq_cons hrest
    exact ih hdrop (h.byte (by simpa [hbyte] using hlf) (by simpa [hbyte] using hcr))

/-- The scanner of the gateway finds the first blank line. -/
theorem completeFrameLen_eq_some_iff (b : Bytes) (n : ℕ) :
    completeFrameLen b = some n ↔ FirstBlankLine b n :=
  completeFrameLenFrom_eq_some_iff rfl .zero

end Gateway

/-! ## The synthesizer -/

/-- The buffer ends with a CR at the start of a line. -/
def TrailingCr (b : Bytes) (n : ℕ) : Prop :=
  n = b.length ∧ ∃ s, n = s + 1 ∧ LineStart b s ∧ b[s]? = some CR

namespace Zai

/-- What the scanner finds where the loop stands at the end of a blank line. -/
theorem found_iff {e : ℕ} (h : Scanned b index index) (hend : LineEndAt b index e) :
    some e = some n ↔ FirstBlankLine b n ∨ (∀ m, ¬FirstBlankLine b m) ∧ TrailingCr b n := by
  rw [or_iff_left fun hnone => hnone.1 e ((h.found hend).mpr rfl), h.found hend, Option.some_inj,
    eq_comm]

/-- From a state of the loop, the scanner finds the first blank line, or a CR at the end of the
buffer when there is none. -/
theorem completeFrameLenFrom_eq_some_iff (hrest : b.drop index = rest) (hle : index ≤ b.length)
    (h : Scanned b lineStart index) :
    completeFrameLenFrom lineStart index rest = some n ↔
      FirstBlankLine b n ∨ (∀ m, ¬FirstBlankLine b m) ∧ TrailingCr b n := by
  have hlt {i : ℕ} {byte : UInt8} (hbyte : b[i]? = some byte) : i + 1 ≤ b.length :=
    (List.getElem?_eq_some_iff.mp hbyte).1
  fun_induction completeFrameLenFrom lineStart index rest with
  | case1 lineStart index =>
    -- A CR before the end of the buffer would have a byte after it.
    refine iff_of_false (Option.some_ne_none _).symm ?_
    rintro (hfirst | ⟨-, hn, s, rfl, -, hcr⟩)
    · exact h.none (fun i e hi => not_lineEndAt_of_drop_nil hrest hi) hfirst
    · have hlength := List.drop_eq_nil_iff.mp hrest
      obtain ⟨byte, hbyte, -⟩ := h.before s (by omega) hcr
      have hend := hlt hbyte
      omega
  | case2 lineStart index byte rest hbyte ih =>
    obtain ⟨hindex, hdrop⟩ := drop_eq_cons hrest
    exact ih hdrop (hlt hindex)
      (h.byte (by simpa [hindex] using hbyte.1) (by simpa [hindex] using hbyte.2))
  | case3 index byte rest hbyte hcrlf =>
    obtain ⟨rfl, hhead⟩ := hcrlf
    obtain ⟨hindex, hdrop⟩ := drop_eq_cons hrest
    have hnext : b[index + 1]? = some LF := by rw [← List.head?_drop, hdrop, hhead]
    exact found_iff h (.crlf hindex hnext)
  | case4 lineStart index byte rest hbyte hcrlf hne ih =>
    obtain ⟨rfl, hhead⟩ := hcrlf
    obtain ⟨hindex, hdrop⟩ := drop_eq_cons hrest
    have hnext : b[index + 1]? = some LF := by rw [← List.head?_drop, hdrop, hhead]
    refine ih ?_ (hlt hnext) (h.next (.crlf hindex hnext) hne)
    rw [← List.tail_drop, hdrop]
  | case5 index byte rest hbyte hcrlf =>
    obtain ⟨hindex, hdrop⟩ := drop_eq_cons hrest
    by_cases hcr : byte = CR
    · subst hcr
      cases rest with
      | nil =>
        -- The CR at the end of the buffer is taken for the end of a line.
        have hlength := List.drop_eq_nil_iff.mp hdrop
        have hend := hlt hindex
        have hnone (m : ℕ) : ¬FirstBlankLine b m :=
          h.none fun i e hi => not_lineEndAt_of_drop_cr hrest hi
        rw [or_iff_right (hnone n), and_iff_right hnone, Option.some_inj]
        constructor
        · rintro rfl
          exact ⟨by omega, index, rfl, h.start, hindex⟩
        · rintro ⟨hn, -⟩
          omega
      | cons next rest =>
        have hlf : next ≠ LF := by simpa using hcrlf
        exact found_iff h (.cr hindex (drop_eq_cons hdrop).1 hlf)
    · have hlf : byte = LF := by simpa [hcr] using hbyte
      rw [hlf] at hindex
      exact found_iff h (h.lf hindex)
  | case6 lineStart index byte rest hbyte hcrlf hne ih =>
    obtain ⟨hindex, hdrop⟩ := drop_eq_cons hrest
    by_cases hcr : byte = CR
    · subst hcr
      cases rest with
      | nil =>
        -- The CR at the end of the buffer ends a line that is not blank.
        have hlength := List.drop_eq_nil_iff.mp hdrop
        have hend := hlt hindex
        rw [completeFrameLenFrom]
        refine iff_of_false (Option.some_ne_none _).symm ?_
        rintro (hfirst | ⟨-, hn, s, rfl, hstart, -⟩)
        · exact h.none (fun i e hi => not_lineEndAt_of_drop_cr hrest hi) hfirst
        · obtain rfl : s = index := by omega
          exact hne (h.eq_of_lineStart hstart)
      | cons next rest =>
        have hlf : next ≠ LF := by simpa using hcrlf
        exact ih hdrop (hlt hindex) (h.next (.cr hindex (drop_eq_cons hdrop).1 hlf) hne)
    · have hlf : byte = LF := by simpa [hcr] using hbyte
      rw [hlf] at hindex
      exact ih hdrop (hlt hindex) (h.next (h.lf hindex) hne)

/-- The scanner of the synthesizer finds the first blank line, or a CR at the end of the buffer
when there is none. -/
theorem completeFrameLen_eq_some_iff (b : Bytes) (n : ℕ) :
    completeFrameLen b = some n ↔
      FirstBlankLine b n ∨ (∀ m, ¬FirstBlankLine b m) ∧ TrailingCr b n :=
  completeFrameLenFrom_eq_some_iff rfl (Nat.zero_le _) .zero

/-- Both scanners find the first blank line of a buffer. What the gateway finds lies within the
buffer and stays where it is as more bytes arrive. The synthesizer also takes a CR at the end of the
buffer for a blank line, if it stands at the start of a line and there is no blank line. -/
theorem completeFrameLen_blankLine (b : Bytes) (n : ℕ) :
    (Gateway.completeFrameLen b = some n ↔ FirstBlankLine b n) ∧
      (Gateway.completeFrameLen b = some n → 1 ≤ n ∧ n ≤ b.length ∧
        ∀ s, Gateway.completeFrameLen (b ++ s) = some n) ∧
      (Gateway.completeFrameLen b = some n → completeFrameLen b = some n) ∧
      (Gateway.completeFrameLen b = none → completeFrameLen b = some n →
        n = b.length ∧ LineStart b (n - 1) ∧ b[n - 1]? = some CR) := by
  refine ⟨Gateway.completeFrameLen_eq_some_iff b n, fun h => ?_, fun h => ?_, fun hnone h => ?_⟩
  · obtain ⟨hpos, hle⟩ := Gateway.completeFrameLenFrom_bounds h
    rw [Nat.zero_add] at hle
    exact ⟨hpos, hle, Gateway.completeFrameLenFrom_append h⟩
  · exact (completeFrameLen_eq_some_iff b n).mpr
      (.inl ((Gateway.completeFrameLen_eq_some_iff b n).mp h))
  · rcases (completeFrameLen_eq_some_iff b n).mp h with hfirst | ⟨-, hn, s, rfl, hstart, hcr⟩
    · rw [(Gateway.completeFrameLen_eq_some_iff b n).mpr hfirst] at hnone
      cases hnone
    · exact ⟨hn, hstart, hcr⟩

end Zai

end MuseCodex
