import Mathlib.Algebra.GroupWithZero.Nat
import Mathlib.Data.List.Basic

/-!
# Loops that return

A loop whose body is a function of the state: each turn leaves a record of what it did and either
starts over from a new state or returns. `Runs` is its meaning, the records of the turns up to the
one that returns. `run` computes it within a number of turns.

A loop returns when a bound on its turns goes down with each of them (`exists_runs`), and what every
turn preserves holds of the whole run (by induction on `Runs`). A loop over a list always returns;
what it adds to a potential of the state is at most the charges of its turns (`foldl_le_charges`).
-/

namespace MuseCodex.Looping

variable {σ ω ρ : Type}

/-- How a turn ends: the loop starts over, or it returns. -/
inductive Next (σ ρ : Type) where
  | again (s : σ)
  | done (result : ρ)

variable (turn : σ → ω × Next σ ρ)

/-- The loop, for at most `fuel` turns: the records of its turns, and what it returns. -/
def run : ℕ → σ → Option (List ω × ρ)
  | 0, _ => none
  | fuel + 1, s =>
    match turn s with
    | (record, .done result) => some ([record], result)
    | (record, .again s) => (run fuel s).map fun (records, result) => (record :: records, result)

/-- From the state, the loop returns the result after turns with these records. -/
inductive Runs : σ → List ω → ρ → Prop where
  | done {s : σ} {record : ω} {result : ρ} (h : turn s = (record, .done result)) :
      Runs s [record] result
  | again {s s' : σ} {record : ω} {records : List ω} {result : ρ}
      (h : turn s = (record, .again s')) (hrest : Runs s' records result) :
      Runs s (record :: records) result

variable {turn}

/-- A run that returns is computed, given a turn for each of its records. -/
theorem Runs.run_eq {s : σ} {records : List ω} {result : ρ} (h : Runs turn s records result) :
    ∀ {fuel : ℕ}, records.length ≤ fuel → run turn fuel s = some (records, result) := by
  induction h with
  | @done s record result h =>
    intro fuel hfuel
    obtain ⟨fuel, rfl⟩ : ∃ n, fuel = n + 1 := ⟨fuel - 1, by simp at hfuel; omega⟩
    simp only [run, h]
  | @again s s' record records result h _ ih =>
    intro fuel hfuel
    rw [List.length_cons] at hfuel
    obtain ⟨fuel, rfl⟩ : ∃ n, fuel = n + 1 := ⟨fuel - 1, by omega⟩
    have hrest := ih (show records.length ≤ fuel by omega)
    simp only [run, h, hrest, Option.map_some]

/-- A loop returns from every state that has a bound on its turns, if each turn that starts over
lowers the bound. -/
theorem exists_runs {B : ℕ → σ → Prop}
    (hturn : ∀ {n s record s'}, B n s → turn s = (record, .again s') → ∃ m, m < n ∧ B m s') :
    ∀ {n s}, B n s → ∃ records result, Runs turn s records result ∧ records.length ≤ n + 1 := by
  intro n
  induction n using Nat.strongRecOn with
  | ind n ih =>
    intro s hs
    rcases hrecord : turn s with ⟨record, s' | result⟩
    · obtain ⟨m, hm, hs'⟩ := hturn hs hrecord
      obtain ⟨records, result, hrest, hlength⟩ := ih m hm hs'
      refine ⟨record :: records, result, .again hrecord hrest, ?_⟩
      rw [List.length_cons]
      omega
    · exact ⟨[record], result, .done hrecord, by simp⟩

/-- A loop over a list raises a potential by no more than all charges, if no turn raises it by more
than its own. -/
theorem foldl_le_charges {α : Type} {step : σ → α → σ} {potential : σ → ℕ} {charge : α → ℕ}
    (hstep : ∀ s a, potential (step s a) ≤ potential s + charge a) (as : List α) (s : σ) :
    potential (as.foldl step s) ≤ potential s + (as.map charge).sum := by
  induction as generalizing s with
  | nil => exact Nat.le_refl _
  | cons a as ih =>
    have hfirst := hstep s a
    have hrest := ih (step s a)
    rw [List.foldl_cons, List.map_cons, List.sum_cons]
    omega

end MuseCodex.Looping
