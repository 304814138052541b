import Mathlib.Data.List.Basic

/-!
# Requests and their answers

The log of a connection on which requests are opened under an id and answered by that id. An id may
be opened again after it was answered. A request is outstanding while no later entry of the log
answers its id, and an answer consumes the requests of its id that are outstanding before it.

`Tracks` links a table from ids to requests with a log: the table holds exactly what is
outstanding, and no id is outstanding twice. It is kept by an entry of each kind, if an id is only
opened while the table does not hold it.
-/

namespace MuseCodex.Correlation

variable {ι μ : Type}

/-- An entry of a log. -/
inductive Act (ι μ : Type) where
  | opens (id : ι) (m : μ)
  | answers (id : ι)
  | silent

variable {log : List (Act ι μ)} {k j : ℕ} {id id' : ι} {m m' : μ}

/-- The entry `k` opens the request `m`, and no later entry answers its id. -/
def Outstanding (log : List (Act ι μ)) (k : ℕ) (id : ι) (m : μ) : Prop :=
  log[k]? = some (.opens id m) ∧ ∀ j, k < j → log[j]? ≠ some (.answers id)

/-- The entry `j` answers the id of the request `k`, which is outstanding before it. -/
def Consumes (log : List (Act ι μ)) (j k : ℕ) : Prop :=
  ∃ id m, log[j]? = some (.answers id) ∧ Outstanding (log.take j) k id m

/-- What is outstanding was opened within the log. -/
theorem Outstanding.lt_length (h : Outstanding log k id m) : k < log.length :=
  (List.getElem?_eq_some_iff.mp h.1).1

/-- What one more entry leaves outstanding. -/
theorem outstanding_concat (act : Act ι μ) : Outstanding (log ++ [act]) k id m ↔
    Outstanding log k id m ∧ act ≠ .answers id ∨ k = log.length ∧ act = .opens id m := by
  have hlast : (log ++ [act])[log.length]? = some act := by simp
  constructor
  · rintro ⟨hk, hlater⟩
    have hle : k < log.length + 1 := by
      have hlt := (List.getElem?_eq_some_iff.mp hk).1
      rwa [List.length_append] at hlt
    by_cases hlength : k = log.length
    · rw [hlength, hlast] at hk
      exact .inr ⟨hlength, Option.some.inj hk⟩
    · have hlt : k < log.length := by omega
      refine .inl ⟨⟨?_, ?_⟩, ?_⟩
      · rwa [List.getElem?_append_left hlt] at hk
      · intro j hj hanswers
        have hjlt := (List.getElem?_eq_some_iff.mp hanswers).1
        apply hlater j hj
        rw [List.getElem?_append_left hjlt, hanswers]
      · intro hact
        apply hlater log.length hlt
        rw [hlast, hact]
  · rintro (⟨⟨hk, hlater⟩, hact⟩ | ⟨rfl, rfl⟩)
    · have hlt := (List.getElem?_eq_some_iff.mp hk).1
      refine ⟨by rw [List.getElem?_append_left hlt, hk], ?_⟩
      intro j hj hanswers
      by_cases hjlt : j < log.length
      · rw [List.getElem?_append_left hjlt] at hanswers
        exact hlater j hj hanswers
      · have hjle : j < log.length + 1 := by
          have hlt := (List.getElem?_eq_some_iff.mp hanswers).1
          rwa [List.length_append] at hlt
        obtain rfl : j = log.length := by omega
        rw [hlast] at hanswers
        exact hact (Option.some.inj hanswers)
    · refine ⟨hlast, ?_⟩
      intro j hj hanswers
      have hjlt := (List.getElem?_eq_some_iff.mp hanswers).1
      rw [List.length_append, List.length_singleton] at hjlt
      omega

/-- A request is consumed once. -/
theorem Consumes.injective {j' : ℕ} (h : Consumes log j k) (h' : Consumes log j' k) : j = j' := by
  -- The later one would consume what the earlier one has answered.
  have hnot {i i' : ℕ} (hlt : i < i') (h : Consumes log i k) (h' : Consumes log i' k) : False := by
    obtain ⟨id, m, hi, hopen, -⟩ := h
    obtain ⟨id', m', -, hopen', hlater⟩ := h'
    have hk : k < i := by
      have hlt := (List.getElem?_eq_some_iff.mp hopen).1
      rw [List.length_take] at hlt
      omega
    rw [List.getElem?_take_of_lt hk] at hopen
    rw [List.getElem?_take_of_lt (by omega), hopen] at hopen'
    cases hopen'
    apply hlater i hk
    rw [List.getElem?_take_of_lt hlt, hi]
  rcases Nat.lt_trichotomy j j' with hlt | heq | hlt
  · exact (hnot hlt h h').elim
  · exact heq
  · exact (hnot hlt h' h).elim

/-- The table holds exactly what is outstanding, and no id is outstanding twice. -/
structure Tracks (table : ι → Option μ) (log : List (Act ι μ)) : Prop where
  get_iff : ∀ {id m}, table id = some m ↔ ∃ k, Outstanding log k id m
  unique : ∀ {k k' id m m'}, Outstanding log k id m → Outstanding log k' id m' → k = k'

/-- Nothing is outstanding at first. -/
theorem tracks_nil : Tracks (fun _ => none) ([] : List (Act ι μ)) where
  get_iff := by simp [Outstanding]
  unique h := absurd h.lt_length (Nat.not_lt_zero _)

variable {table table' : ι → Option μ}

/-- A silent step leaves the table. -/
theorem Tracks.silent (h : Tracks table log) : Tracks table (log ++ [.silent]) where
  get_iff := by simp [outstanding_concat, h.get_iff]
  unique := by
    simp only [outstanding_concat]
    rintro k k' id m m' (⟨hk, -⟩ | ⟨-, hact⟩) (⟨hk', -⟩ | ⟨-, hact'⟩)
    · exact h.unique hk hk'
    all_goals cases ‹Act.silent = _›

/-- A step that opens a free id adds it to the table. -/
theorem Tracks.opens (h : Tracks table log) (hnone : table id = none) (hother : ∀ id', id' ≠ id →
    table' id' = table id') (hself : table' id = some m) :
    Tracks table' (log ++ [.opens id m]) := by
  have hclosed {k : ℕ} {m : μ} : ¬Outstanding log k id m := fun hk => by
    rw [h.get_iff.mpr ⟨k, hk⟩] at hnone
    cases hnone
  constructor
  · intro id' m'
    simp only [outstanding_concat]
    by_cases hid : id' = id
    · subst hid
      rw [hself]
      constructor
      · intro hm
        exact ⟨log.length, .inr ⟨rfl, by rw [Option.some.inj hm]⟩⟩
      · rintro ⟨k, ⟨hk, -⟩ | ⟨-, hact⟩⟩
        · exact absurd hk hclosed
        · cases hact
          rfl
    · rw [hother id' hid, h.get_iff]
      constructor
      · rintro ⟨k, hk⟩
        exact ⟨k, .inl ⟨hk, by simp⟩⟩
      · rintro ⟨k, ⟨hk, -⟩ | ⟨-, hact⟩⟩
        · exact ⟨k, hk⟩
        · cases hact
          exact absurd rfl hid
  · simp only [outstanding_concat]
    rintro k k' id' m₁ m₂ (⟨hk, -⟩ | ⟨rfl, hact⟩) (⟨hk', -⟩ | ⟨rfl, hact'⟩)
    · exact h.unique hk hk'
    · cases hact'
      exact absurd hk hclosed
    · cases hact
      exact absurd hk' hclosed
    · rfl

/-- A step that answers an id removes it from the table. -/
theorem Tracks.answers (h : Tracks table log) (hother : ∀ id', id' ≠ id → table' id' = table id')
    (hself : table' id = none) : Tracks table' (log ++ [.answers id]) := by
  have hconcat {k : ℕ} {id' : ι} {m : μ} :
      Outstanding (log ++ [.answers id]) k id' m ↔ Outstanding log k id' m ∧ id' ≠ id := by
    rw [outstanding_concat]
    constructor
    · rintro (⟨hk, hne⟩ | ⟨-, hact⟩)
      · exact ⟨hk, fun heq => hne (by rw [heq])⟩
      · cases hact
    · rintro ⟨hk, hne⟩
      exact .inl ⟨hk, fun heq => hne (by injection heq with heq; exact heq.symm)⟩
  constructor
  · intro id' m'
    simp only [hconcat]
    by_cases hid : id' = id
    · simp [hid, hself]
    · simp [hid, hother id' hid, h.get_iff]
  · intro k k' id' m₁ m₂ hk hk'
    exact h.unique (hconcat.mp hk).1 (hconcat.mp hk').1

end MuseCodex.Correlation
