import Mathlib.Data.List.Basic

/-!
# Buffered readers

A reader shows what it has buffered (`fillBuf`) and is told how much of that was used (`consume`).
How much it shows at a time is up to the reader. `BufRead.Delivers` says which stream it stands for:
a relation between its states and the elements that are still to come. So what is proved from
`Delivers` holds however a stream is cut into buffers. `fragments` is the reader that shows the
fragments of a list one after the other, and it delivers their concatenation.
-/

namespace MuseCodex.Buffered

/-- A buffered reader with states in `σ`, errors in `ε`, and elements in `α`. -/
structure BufRead (σ ε α : Type) where
  /-- What is buffered, after more was read if nothing was. Nothing is shown at the end only. -/
  fillBuf : σ → Except ε (List α × σ)
  /-- Passes over some elements of what was shown. -/
  consume : ℕ → σ → σ

variable {σ ε α : Type}

/-- A reader whose states hold a stream. -/
structure BufRead.Delivers (reader : BufRead σ ε α) (holds : σ → List α → Prop) : Prop where
  /-- What is shown is a start of the stream, and it is empty at the end only. -/
  fill : ∀ {r stream}, holds r stream → ∃ available r',
    reader.fillBuf r = .ok (available, r') ∧ holds r' stream ∧ available <+: stream ∧
      (available = [] → stream = []) ∧
      ∀ n ≤ available.length, holds (reader.consume n r') (stream.drop n)

/-- The reader that shows one fragment after the other. -/
def fragments : BufRead (List (List α)) ε α where
  fillBuf fs := .ok (fs.headD [], fs)
  consume
    | _, [] => []
    | n, f :: fs => if f.length ≤ n then fs else f.drop n :: fs

/-- Fragments of a stream, none of them empty. -/
def Fragmented (fs : List (List α)) (stream : List α) : Prop :=
  (∀ f ∈ fs, f ≠ []) ∧ fs.flatten = stream

/-- Fragments deliver what they hold. -/
theorem fragments_delivers : (fragments : BufRead (List (List α)) ε α).Delivers Fragmented where
  fill {fs stream} h := by
    refine ⟨fs.headD [], fs, rfl, h, ?_, ?_, ?_⟩
    · cases fs with
      | nil => exact List.nil_prefix
      | cons f fs =>
        rw [← h.2, List.flatten_cons]
        exact List.prefix_append f fs.flatten
    · cases fs with
      | nil => exact fun _ => h.2.symm
      | cons f fs => exact fun hf => absurd hf (h.1 f List.mem_cons_self)
    · intro n hn
      cases fs with
      | nil => exact ⟨h.1, by rw [← h.2]; simp [fragments]⟩
      | cons f fs =>
        obtain ⟨hne, rfl⟩ := h
        have hfs : ∀ g ∈ fs, g ≠ [] := fun g hg => hne g (List.mem_cons_of_mem f hg)
        rw [List.headD_cons] at hn
        simp only [fragments]
        split_ifs with hle
        · have heq : n = f.length := Nat.le_antisymm hn hle
          refine ⟨hfs, ?_⟩
          rw [List.flatten_cons, heq, List.drop_left]
        · refine ⟨fun g hg => ?_, ?_⟩
          · rcases List.mem_cons.mp hg with rfl | hg
            · rw [ne_eq, List.drop_eq_nil_iff]
              exact hle
            · exact hfs g hg
          · rw [List.flatten_cons, List.flatten_cons, List.drop_append_of_le_length hn]

end MuseCodex.Buffered
