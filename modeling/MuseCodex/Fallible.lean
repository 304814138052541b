import Mathlib.Control.Monad.Basic
import Mathlib.Data.List.Basic
import Mathlib.Data.List.Forall2

/-!
# Runs of fallible steps

Computations that fail with an error, and runs of a fallible step over a list. A run that succeeds
is related to its start by whatever relates the ends of each step (`foldlM_rel`), and a run whose
steps cannot fail under an invariant does not fail (`foldlM_ok`). The results of a step that is done
to each element of a list are those of the elements, in their order (`mapM_zipIdx_forall₂`).
-/

namespace MuseCodex.Fallible

universe u v

variable {ε : Type u} {α β σ : Type v}

/-- A computation that succeeds does so in both of its parts. -/
theorem bind_eq_ok {x : Except ε α} {f : α → Except ε β} {b : β} :
    (x >>= f) = .ok b ↔ ∃ a, x = .ok a ∧ f a = .ok b := by
  cases x with
  | error e => exact ⟨nofun, fun ⟨_, h, _⟩ => nomatch h⟩
  | ok a =>
    constructor
    · exact fun h => ⟨a, rfl, h⟩
    · rintro ⟨a', h, h'⟩
      cases h
      exact h'

/-- Another error does not change whether a computation succeeds. -/
theorem mapError_eq_ok {ε' : Type u} {f : ε → ε'} {x : Except ε α} {a : α} :
    x.mapError f = .ok a ↔ x = .ok a := by
  cases x <;> simp [Except.mapError]

/-- A computation that has a value succeeds. -/
theorem exists_eq_ok {x : Except ε α} (h : x.toOption.isSome = true) : ∃ a, x = .ok a := by
  cases x with
  | error e => cases h
  | ok a => exact ⟨a, rfl⟩

/-- A computation succeeds exactly with the value that it has. -/
theorem toOption_eq_some {x : Except ε α} {a : α} : x.toOption = some a ↔ x = .ok a := by
  cases x <;> simp [Except.toOption]

section

variable {γ : Type v} {step : σ → γ → Except ε σ}

/-- A run that succeeds does so in its first step and in the rest. -/
theorem foldlM_cons_eq_ok {s s'' : σ} {c : γ} {cs : List γ} :
    (c :: cs).foldlM step s = .ok s'' ↔ ∃ s', step s c = .ok s' ∧ cs.foldlM step s' = .ok s'' := by
  rw [List.foldlM_cons, bind_eq_ok]

/-- The ends of a run are related when those of each of its steps are. -/
theorem foldlM_rel {R : σ → σ → Prop} (hrefl : ∀ s, R s s)
    (htrans : ∀ {s s' s''}, R s s' → R s' s'' → R s s'')
    (hstep : ∀ {s c s'}, step s c = .ok s' → R s s') {cs : List γ} {s s' : σ}
    (h : cs.foldlM step s = .ok s') : R s s' := by
  induction cs generalizing s with
  | nil =>
    cases h
    exact hrefl _
  | cons c cs ih =>
    obtain ⟨s₁, hfirst, hrest⟩ := foldlM_cons_eq_ok.mp h
    exact htrans (hstep hfirst) (ih hrest)

/-- A run succeeds when its steps do under an invariant that they keep. -/
theorem foldlM_ok {I : σ → Prop} {cs : List γ}
    (hstep : ∀ s, ∀ c ∈ cs, I s → ∃ s', step s c = .ok s' ∧ I s') {s : σ} (hs : I s) :
    ∃ s', cs.foldlM step s = .ok s' ∧ I s' := by
  induction cs generalizing s with
  | nil => exact ⟨s, rfl, hs⟩
  | cons c cs ih =>
    obtain ⟨s₁, hfirst, hs₁⟩ := hstep s c List.mem_cons_self hs
    obtain ⟨s', hrest, hs'⟩ := ih (fun s d hd => hstep s d (List.mem_cons_of_mem _ hd)) hs₁
    exact ⟨s', foldlM_cons_eq_ok.mpr ⟨s₁, hfirst, hrest⟩, hs'⟩

/-- What each step of a run keeps, of its state and of the inputs before it, holds of the whole
run. -/
theorem foldlM_inv {I : List γ → σ → Prop}
    (hstep : ∀ {before s c s'}, I before s → step s c = .ok s' → I (before ++ [c]) s')
    {before cs : List γ} {s s' : σ} (hs : I before s) (h : cs.foldlM step s = .ok s') :
    I (before ++ cs) s' := by
  induction cs generalizing before s with
  | nil =>
    cases h
    rwa [List.append_nil]
  | cons c cs ih =>
    obtain ⟨s₁, hfirst, hrest⟩ := foldlM_cons_eq_ok.mp h
    rw [List.append_cons]
    exact ih (hstep hs hfirst) hrest

/-- Each step of a run that succeeds does so, from some state. -/
theorem foldlM_mem {cs : List γ} {s s' : σ} (h : cs.foldlM step s = .ok s') {c : γ} (hc : c ∈ cs) :
    ∃ s₁ s₂, step s₁ c = .ok s₂ := by
  induction cs generalizing s with
  | nil => cases hc
  | cons d cs ih =>
    obtain ⟨s₁, hfirst, hrest⟩ := foldlM_cons_eq_ok.mp h
    rcases List.mem_cons.mp hc with rfl | hc
    · exact ⟨s, s₁, hfirst⟩
    · exact ih hrest hc

end

/-- Each element of a list has a counterpart in a list that is related to it. -/
theorem exists_of_forall₂ {R : α → β → Prop} {as : List α} {bs : List β}
    (h : List.Forall₂ R as bs) {a : α} (ha : a ∈ as) : ∃ b ∈ bs, R a b := by
  induction h with
  | nil => cases ha
  | cons hr _ ih =>
    rcases List.mem_cons.mp ha with rfl | ha
    · exact ⟨_, List.mem_cons_self, hr⟩
    · obtain ⟨b, hb, hr⟩ := ih ha
      exact ⟨b, List.mem_cons_of_mem _ hb, hr⟩

section

variable {f : α → ℕ → Except ε β}

/-- A step that succeeds on each element of a list, with its index, has a result for each. -/
theorem mapM_zipIdx_forall₂ {l : List α} {l' : List β} {k : ℕ}
    (h : (l.zipIdx k).mapM (fun x => f x.1 x.2) = .ok l') :
    List.Forall₂ (fun a b => ∃ i, f a i = .ok b) l l' := by
  induction l generalizing k l' with
  | nil =>
    cases h
    exact .nil
  | cons a l ih =>
    rw [List.zipIdx_cons, List.mapM_cons] at h
    obtain ⟨b, hfirst, h⟩ := bind_eq_ok.mp h
    obtain ⟨rest, hrest, h⟩ := bind_eq_ok.mp h
    cases h
    exact .cons ⟨k, hfirst⟩ (ih hrest)

/-- A step that has a result for each element, whatever the index, succeeds on the list. -/
theorem mapM_zipIdx_eq_ok {l : List α} {l' : List β}
    (h : List.Forall₂ (fun a b => ∀ i, f a i = .ok b) l l') (k : ℕ) :
    (l.zipIdx k).mapM (fun x => f x.1 x.2) = .ok l' := by
  induction h generalizing k with
  | nil => rfl
  | cons hfirst _ ih =>
    rw [List.zipIdx_cons, List.mapM_cons]
    exact bind_eq_ok.mpr ⟨_, hfirst k, bind_eq_ok.mpr ⟨_, ih (k + 1), rfl⟩⟩

end

end MuseCodex.Fallible
