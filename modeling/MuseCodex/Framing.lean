import Mathlib.Data.List.Basic

/-!
# Cutting a stream into frames

A scanner looks at what has arrived of a stream and says where its first frame ends, if it does.
`cut` cuts a whole stream with it: the frames in order, and the bytes after the last of them. The
scanner is stable when more input never moves the end of a frame that it has found, and when a
frame that it finds later reaches at least to the end of what had arrived. Then what arrived without
ending a frame lies within the next one (`Stable.length_le_head`).
-/

namespace MuseCodex.Framing

variable {α : Type}

/-- A function that finds the end of the first frame of a list. -/
structure Scanner (α : Type) where
  /-- The length of the first frame, if it is complete. -/
  scan : List α → Option ℕ
  /-- A frame is not empty. -/
  pos : ∀ {b n}, scan b = some n → 0 < n
  /-- A frame lies within the list. -/
  le_length : ∀ {b n}, scan b = some n → n ≤ b.length

namespace Scanner

variable (s : Scanner α)

/-- The frames of a list, and what follows the last of them. -/
def cut (b : List α) : List (List α) × List α :=
  match _h : s.scan b with
  | none => ([], b)
  | some n => (b.take n :: (cut (b.drop n)).1, (cut (b.drop n)).2)
termination_by b.length
decreasing_by
  all_goals
    have := s.pos _h
    have := s.le_length _h
    rw [List.length_drop]
    omega

/-- The frames of a list. -/
def frames (b : List α) : List (List α) := (s.cut b).1

/-- What follows the last frame of a list. -/
def rest (b : List α) : List α := (s.cut b).2

variable {s}

/-- Without a frame at the start there are none. -/
theorem frames_of_none {b : List α} (h : s.scan b = none) : s.frames b = [] := by
  rw [frames, cut]
  split
  · rfl
  · rename_i heq
    rw [h] at heq
    cases heq

/-- Without a frame at the start all of it is left. -/
theorem rest_of_none {b : List α} (h : s.scan b = none) : s.rest b = b := by
  rw [rest, cut]
  split
  · rfl
  · rename_i heq
    rw [h] at heq
    cases heq

/-- The frame at the start is the first one. -/
theorem frames_of_some {b : List α} {n : ℕ} (h : s.scan b = some n) :
    s.frames b = b.take n :: s.frames (b.drop n) := by
  rw [frames, cut]
  split
  · rename_i heq
    rw [h] at heq
    cases heq
  · rename_i heq
    rw [h] at heq
    cases heq
    rfl

/-- What is left is what is left after the frame at the start. -/
theorem rest_of_some {b : List α} {n : ℕ} (h : s.scan b = some n) :
    s.rest b = s.rest (b.drop n) := by
  rw [rest, cut]
  split
  · rename_i heq
    rw [h] at heq
    cases heq
  · rename_i heq
    rw [h] at heq
    cases heq
    rfl

/-- Induction on the frames of a list. -/
theorem cut_induction {P : List α → Prop} (none : ∀ b, s.scan b = none → P b)
    (some : ∀ b n, s.scan b = some n → P (b.drop n) → P b) (b : List α) : P b := by
  induction hl : b.length using Nat.strongRecOn generalizing b with
  | _ l ih =>
    cases h : s.scan b with
    | none => exact none b h
    | some n =>
      have := s.pos h
      have := s.le_length h
      exact some b n h (ih _ (by rw [List.length_drop]; omega) _ rfl)

/-- The frames and what follows them make up the list. -/
theorem frames_flatten_rest (b : List α) : (s.frames b).flatten ++ s.rest b = b := by
  induction b using cut_induction (s := s) with
  | none b h => rw [frames_of_none h, rest_of_none h]; rfl
  | some b n h ih =>
    rw [frames_of_some h, rest_of_some h, List.flatten_cons, List.append_assoc, ih,
      List.take_append_drop]

/-- A frame is one that the scanner finds the end of. -/
theorem exists_scan_of_mem_frames {b f : List α} (h : f ∈ s.frames b) :
    ∃ t, s.scan (f ++ t) = some f.length := by
  induction b using cut_induction (s := s) with
  | none b hb =>
    rw [frames_of_none hb] at h
    cases h
  | some b n hb ih =>
    rw [frames_of_some hb] at h
    rcases List.mem_cons.mp h with rfl | h
    · refine ⟨b.drop n, ?_⟩
      rw [List.take_append_drop, List.length_take, Nat.min_eq_left (s.le_length hb), hb]
    · exact ih h

/-- Frames that end where the scanner says, before those that follow them, are what it cuts. -/
theorem cut_of_chained {fs : List (List α)} {r : List α} (hr : s.scan r = none)
    (h : ∀ before f after, fs = before ++ f :: after →
      s.scan (f ++ (after.flatten ++ r)) = some f.length) :
    s.frames (fs.flatten ++ r) = fs ∧ s.rest (fs.flatten ++ r) = r := by
  induction fs with
  | nil => exact ⟨frames_of_none hr, rest_of_none hr⟩
  | cons f fs ih =>
    obtain ⟨h₁, h₂⟩ := ih fun before g after hfs => h (f :: before) g after (by rw [hfs]; rfl)
    have hf := h [] f fs rfl
    rw [List.flatten_cons, List.append_assoc, frames_of_some hf, rest_of_some hf]
    rw [List.take_left, List.drop_left, h₁, h₂]
    exact ⟨rfl, rfl⟩

/-- Frames that end where the scanner says, whatever follows them, are what it cuts. -/
theorem cut_of_delimited {fs : List (List α)}
    (h : ∀ f ∈ fs, ∀ t, s.scan (f ++ t) = some f.length) {r : List α} (hr : s.scan r = none) :
    s.frames (fs.flatten ++ r) = fs ∧ s.rest (fs.flatten ++ r) = r := by
  refine cut_of_chained hr fun before f after hfs => h f ?_ _
  rw [hfs]
  exact List.mem_append_right _ List.mem_cons_self

/-- A scanner whose answers hold as more input arrives. -/
structure Stable (s : Scanner α) : Prop where
  /-- More input does not move the end of a frame. -/
  append : ∀ {b n}, s.scan b = some n → ∀ t, s.scan (b ++ t) = some n
  /-- A frame that more input ends reaches at least to the end of what had arrived. -/
  length_le : ∀ {b}, s.scan b = none → ∀ {t n}, s.scan (b ++ t) = some n → b.length ≤ n

variable (hs : s.Stable)
include hs

/-- What arrived without ending a frame lies within the next frame, or within what follows the
last one. -/
theorem Stable.length_le_head {b : List α} (h : s.scan b = none) (t : List α) :
    b.length ≤ ((s.frames (b ++ t)).headD (s.rest (b ++ t))).length := by
  cases h' : s.scan (b ++ t) with
  | none =>
    rw [frames_of_none h', rest_of_none h', List.headD_nil, List.length_append]
    omega
  | some n =>
    have hn := hs.length_le h h'
    have hle := s.le_length h'
    rw [frames_of_some h', List.headD_cons, List.length_take]
    omega

end Scanner

end MuseCodex.Framing
