import Mathlib.Data.List.Basic
import Mathlib.Data.List.Nodup

/-!
# Logs that open and close keys

A log is a list of marks: a mark opens a key, uses it, closes it, or concerns none. In a
well-bracketed log a key is opened at most once, and only a key that is open is used or closed.
The keys that are open at the end of such a log are `live`; when there is none, every key that was
opened has been closed exactly once (`WellBracketed.count_closed`). A log grows at its end, so each
notion comes with the rule for one more mark.
-/

namespace MuseCodex.Bracketing

variable {κ : Type} [DecidableEq κ]

/-- What one entry of a log does to a key. -/
inductive Mark (κ : Type) where
  | opens (key : κ)
  | uses (key : κ)
  | closes (key : κ)
  | neutral

/-- The keys that a log opens, in order. -/
def opened (log : List (Mark κ)) : List κ :=
  log.filterMap fun
    | .opens key => some key
    | _ => none

/-- The keys that a log closes, in order. -/
def closed (log : List (Mark κ)) : List κ :=
  log.filterMap fun
    | .closes key => some key
    | _ => none

/-- The keys that are open at the end of a log. -/
def live (log : List (Mark κ)) : List κ := (opened log).filter (· ∉ closed log)

/-- Whether a mark may follow a log. -/
def Admits (log : List (Mark κ)) : Mark κ → Prop
  | .opens key => key ∉ opened log
  | .uses key | .closes key => key ∈ live log
  | .neutral => True

/-- Every mark of the log may follow those before it. -/
inductive WellBracketed : List (Mark κ) → Prop where
  | nil : WellBracketed []
  | concat {log : List (Mark κ)} {mark : Mark κ} : WellBracketed log → Admits log mark →
      WellBracketed (log ++ [mark])

/-! ## One more mark -/

omit [DecidableEq κ] in
/-- What two logs open, one after the other. -/
@[simp] theorem opened_append (log log' : List (Mark κ)) :
    opened (log ++ log') = opened log ++ opened log' := by
  rw [opened, List.filterMap_append]
  rfl

omit [DecidableEq κ] in
/-- What two logs close, one after the other. -/
@[simp] theorem closed_append (log log' : List (Mark κ)) :
    closed (log ++ log') = closed log ++ closed log' := by
  rw [closed, List.filterMap_append]
  rfl

/-- A key is live when it is opened and not closed. -/
theorem mem_live {log : List (Mark κ)} {key : κ} :
    key ∈ live log ↔ key ∈ opened log ∧ key ∉ closed log := by
  simp [live]

/-- A use leaves the open keys as they are. -/
theorem live_concat_uses (log : List (Mark κ)) (key : κ) :
    live (log ++ [.uses key]) = live log := by
  simp [live, opened, closed]

/-- A neutral mark opens and closes nothing. -/
theorem live_concat_neutral (log : List (Mark κ)) : live (log ++ [.neutral]) = live log := by
  simp [live, opened, closed]

/-- A closed key is no longer open. -/
theorem live_concat_closes (log : List (Mark κ)) (key : κ) :
    live (log ++ [.closes key]) = (live log).filter (· ≠ key) := by
  have hopened : opened (log ++ [Mark.closes key]) = opened log := by simp [opened]
  have hclosed : closed (log ++ [Mark.closes key]) = closed log ++ [key] := by simp [closed]
  rw [live, live, hopened, hclosed, List.filter_filter]
  refine List.filter_congr fun x _ => ?_
  by_cases hx : x ∈ closed log <;> by_cases hk : x = key <;> simp [hx, hk]

namespace WellBracketed

variable {log : List (Mark κ)} (h : WellBracketed log)
include h

/-- Only keys that were opened are closed, and no key is opened or closed twice. -/
theorem closed_subset_nodup :
    closed log ⊆ opened log ∧ (opened log).Nodup ∧ (closed log).Nodup := by
  induction h with
  | nil => simp [opened, closed]
  | @concat log mark _ hmark ih =>
    obtain ⟨hsub, hopened, hclosed⟩ := ih
    cases mark with
    | opens key =>
      have hnew : key ∉ opened log := hmark
      refine ⟨?_, ?_, ?_⟩
      · intro x hx
        have hx' : x ∈ closed log := by simpa [closed] using hx
        rw [opened_append]
        exact List.mem_append_left _ (hsub hx')
      · rw [opened_append]
        refine List.nodup_append.mpr ⟨hopened, by simp [opened], ?_⟩
        intro x hx y hy
        have hy' : y = key := by simpa [opened] using hy
        rintro rfl
        exact hnew (hy' ▸ hx)
      · simpa [closed] using hclosed
    | closes key =>
      obtain ⟨hkey, hnot⟩ := mem_live.mp hmark
      refine ⟨?_, by simpa [opened] using hopened, ?_⟩
      · intro x hx
        rw [closed_append, List.mem_append] at hx
        rw [opened_append]
        rcases hx with hx | hx
        · exact List.mem_append_left _ (hsub hx)
        · have hx' : x = key := by simpa [closed] using hx
          exact List.mem_append_left _ (hx' ▸ hkey)
      · rw [closed_append]
        refine List.nodup_append.mpr ⟨hclosed, by simp [closed], ?_⟩
        intro x hx y hy
        have hy' : y = key := by simpa [closed] using hy
        rintro rfl
        exact hnot (hy' ▸ hx)
    | uses key => simpa [opened, closed] using ⟨hsub, hopened, hclosed⟩
    | neutral => simpa [opened, closed] using ⟨hsub, hopened, hclosed⟩

/-- A key that is opened is open. -/
theorem live_concat_opens {key : κ} (hkey : key ∉ opened log) :
    live (log ++ [.opens key]) = live log ++ [key] := by
  have hnot : key ∉ closed log := fun hc => hkey (h.closed_subset_nodup.1 hc)
  have hopened : opened (log ++ [Mark.opens key]) = opened log ++ [key] := by simp [opened]
  have hclosed : closed (log ++ [Mark.opens key]) = closed log := by simp [closed]
  rw [live, live, hopened, hclosed, List.filter_append]
  simp [hnot]

/-- Every mark of the log may follow those before it. -/
theorem admits {pre post : List (Mark κ)} {mark : Mark κ} (heq : log = pre ++ mark :: post) :
    Admits pre mark := by
  induction h generalizing post with
  | nil => simp at heq
  | @concat log mark' _ hmark ih =>
    rcases List.eq_nil_or_concat post with rfl | ⟨post, last, rfl⟩
    · obtain ⟨rfl, hlast⟩ := List.append_inj' heq rfl
      cases hlast
      exact hmark
    · rw [List.concat_eq_append, ← List.cons_append, ← List.append_assoc] at heq
      exact ih (List.append_inj' heq rfl).1

/-- When no key is open, every key that was opened has been closed exactly once. -/
theorem count_closed [BEq κ] [LawfulBEq κ] (hlive : live log = []) {key : κ}
    (hkey : key ∈ opened log) : (closed log).count key = 1 := by
  have hclosed : key ∈ closed log := by
    by_contra hnot
    have := mem_live.mpr ⟨hkey, hnot⟩
    rw [hlive] at this
    cases this
  exact List.count_eq_one_of_mem h.closed_subset_nodup.2.2 hclosed

end WellBracketed

end MuseCodex.Bracketing
