import Mathlib.Init

/-!
# Programs that change a state and may fail

A program of `EStateM` leaves a state however it ends. What a program that succeeds has done is what
its parts have done, one after the other (`bind_eq_ok`). What relates the state before to the state
after, also where the program fails half way, is carried from its parts to the whole if the relation
is reflexive and transitive (`Keeps.bind`); the later part may rely on what the earlier one found.
-/

namespace MuseCodex.Effects

variable {ε σ α β : Type}

/-- The state that a program leaves, however it ends. -/
def after (x : EStateM ε σ α) (s : σ) : σ :=
  match x s with
  | .ok _ s' | .error _ s' => s'

/-- A program that succeeds does so in both of its parts. -/
theorem bind_eq_ok {x : EStateM ε σ α} {f : α → EStateM ε σ β} {s s'' : σ} {b : β} :
    (x >>= f) s = .ok b s'' ↔ ∃ a s', x s = .ok a s' ∧ f a s' = .ok b s'' := by
  change EStateM.bind x f s = _ ↔ _
  unfold EStateM.bind
  cases x s with
  | ok a s' =>
    constructor
    · exact fun h => ⟨a, s', rfl, h⟩
    · rintro ⟨a', s₁, h, h'⟩
      cases h
      exact h'
  | error e s' =>
    constructor
    · rintro h
      cases h
    · rintro ⟨_, _, h, -⟩
      cases h

/-- A value is returned as it is. -/
theorem pure_eq_ok {a a' : α} {s s' : σ} :
    (pure a : EStateM ε σ α) s = .ok a' s' ↔ a' = a ∧ s' = s := by
  change EStateM.Result.ok a s = _ ↔ _
  rw [EStateM.Result.ok.injEq, eq_comm, @eq_comm _ s]

/-- Reading the state. -/
theorem get_bind_eq_ok {f : σ → EStateM ε σ β} {s s' : σ} {b : β} :
    (get >>= f) s = .ok b s' ↔ f s s = .ok b s' := Iff.rfl

/-- The state that is set is the one after. -/
theorem set_eq_ok {s s₁ s' : σ} :
    (set s₁ : EStateM ε σ PUnit) s = .ok ⟨⟩ s' ↔ s' = s₁ := by
  change EStateM.Result.ok PUnit.unit s₁ = _ ↔ _
  rw [EStateM.Result.ok.injEq, eq_self_iff_true, true_and, eq_comm]

/-- An error returns nothing. -/
theorem throw_ne_ok {e : ε} {a : α} {s s' : σ} : (throw e : EStateM ε σ α) s ≠ .ok a s' := by
  rintro h
  cases h

/-- A program leaves a state that is related to the one it started from. -/
def Keeps (R : σ → σ → Prop) (x : EStateM ε σ α) (s : σ) : Prop := R s (after x s)

section

variable {R : σ → σ → Prop} {s : σ}

/-- Returning a value keeps every relation that is reflexive. -/
theorem Keeps.pure (hrefl : ∀ s, R s s) (a : α) : Keeps R (Pure.pure a : EStateM ε σ α) s := hrefl s

/-- So does an error. -/
theorem Keeps.throw (hrefl : ∀ s, R s s) (e : ε) :
    Keeps R (MonadExcept.throw e : EStateM ε σ α) s := hrefl s

/-- A program keeps what its parts keep, the later one from any state in which the earlier one may
end. -/
theorem Keeps.bind {x : EStateM ε σ α} {f : α → EStateM ε σ β}
    (htrans : ∀ {s s' s''}, R s s' → R s' s'' → R s s'') (hx : Keeps R x s)
    (hf : ∀ a s', x s = .ok a s' → Keeps R (f a) s') : Keeps R (x >>= f) s := by
  unfold Keeps after at hx ⊢
  change R s (match EStateM.bind x f s with | .ok _ s' | .error _ s' => s')
  unfold EStateM.bind
  cases hrun : x s with
  | ok a s' =>
    rw [hrun] at hx
    exact htrans hx (hf a s' hrun)
  | error e s' =>
    rw [hrun] at hx
    exact hx

/-- Reading the state keeps what follows keeps. -/
theorem Keeps.get_bind {f : σ → EStateM ε σ β} (hf : Keeps R (f s) s) : Keeps R (get >>= f) s := hf

end

end MuseCodex.Effects
