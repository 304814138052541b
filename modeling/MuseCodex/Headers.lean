import Mathlib.Data.List.Basic

/-!
# Maps with several values for a name

A header map holds any number of values for a name, in the order in which they came. `values` is
all that can be seen of it by name, and every operation is described by what it does to `values`.
`copy` carries some of the names of one map over into another, where they replace what is there.
-/

namespace MuseCodex

/-- A map from names to lists of values. -/
abbrev Headers (κ α : Type) := List (κ × α)

namespace Headers

variable {κ α : Type} [DecidableEq κ]

/-- The values of a name. -/
def values (h : Headers κ α) (name : κ) : List α :=
  h.filterMap fun e => if e.1 = name then some e.2 else none

/-- The first value of a name. -/
def get (h : Headers κ α) (name : κ) : Option α := (h.values name).head?

/-- Removes the values of a name. -/
def remove (h : Headers κ α) (name : κ) : Headers κ α := h.filter fun e => e.1 ≠ name

/-- Adds a value of a name. -/
def append (h : Headers κ α) (name : κ) (value : α) : Headers κ α := h ++ [(name, value)]

/-- Replaces the values of a name by one. -/
def insert (h : Headers κ α) (name : κ) (value : α) : Headers κ α := (h.remove name).append name value

/-- Adds the entries of a map whose names are wanted. -/
def extend (wanted : κ → Bool) (h source : Headers κ α) : Headers κ α :=
  source.foldl (fun h e => if wanted e.1 then h.append e.1 e.2 else h) h

/-- Inserts the entries of a map whose names are wanted, one after the other. -/
def copy (wanted : κ → Bool) (h source : Headers κ α) : Headers κ α :=
  source.foldl (fun h e => if wanted e.1 then h.insert e.1 e.2 else h) h

/-- Inserts the first value that a map has of a name. -/
def insertFirst (h source : Headers κ α) (name : κ) : Headers κ α :=
  match source.get name with
  | some value => h.insert name value
  | none => h

/-- No headers have no values. -/
@[simp] theorem values_nil (name : κ) : values ([] : Headers κ α) name = [] := rfl

/-- The values of two lists of headers, one after the other. -/
theorem values_append_list (h h' : Headers κ α) (name : κ) :
    values (h ++ h') name = values h name ++ values h' name :=
  List.filterMap_append

/-- A name that is removed has no values, and the others keep theirs. -/
theorem values_remove (h : Headers κ α) (name name' : κ) :
    (h.remove name).values name' = if name' = name then [] else h.values name' := by
  unfold values remove
  rw [List.filterMap_filter]
  split_ifs with heq
  · refine List.filterMap_eq_nil_iff.mpr fun e _ => ?_
    by_cases he : e.1 = name
    · simp [he]
    · simp [heq, he]
  · refine List.filterMap_congr fun e _ => ?_
    by_cases he : e.1 = name'
    · simp [he, heq]
    · simp [he]

/-- A value that is appended is the last one of its name. -/
theorem values_append (h : Headers κ α) (name name' : κ) (value : α) :
    (h.append name value).values name' =
      if name' = name then h.values name' ++ [value] else h.values name' := by
  rw [append, values_append_list]
  by_cases heq : name' = name
  · simp [values, heq]
  · have hne : name ≠ name' := fun he => heq he.symm
    simp [values, heq, hne]

/-- A value that is inserted is the only one of its name. -/
theorem values_insert (h : Headers κ α) (name name' : κ) (value : α) :
    (h.insert name value).values name' = if name' = name then [value] else h.values name' := by
  rw [insert, values_append, values_remove]
  split_ifs with heq
  · rfl
  · rfl

/-- The first value of a name in another list replaces those of the name. -/
theorem values_insertFirst (h source : Headers κ α) (name name' : κ) :
    (h.insertFirst source name).values name' =
      if name' = name ∧ (source.get name).isSome then (source.get name).toList
      else h.values name' := by
  unfold insertFirst
  cases source.get name with
  | none => simp
  | some value => simp [values_insert]

/-- A name that is wanted gets the values of both maps, and any other keeps its own. -/
theorem values_extend (wanted : κ → Bool) (h source : Headers κ α) (name : κ) :
    (extend wanted h source).values name =
      if wanted name then h.values name ++ source.values name else h.values name := by
  unfold extend
  induction source generalizing h with
  | nil => simp
  | cons e source ih =>
    have hcons : values (e :: source) name = values [e] name ++ values source name :=
      values_append_list [e] source name
    rw [List.foldl_cons, ih, hcons]
    have hstep : (if wanted e.1 then h.append e.1 e.2 else h).values name =
        if wanted name then h.values name ++ values [e] name else h.values name := by
      by_cases he : e.1 = name
      · subst he
        have hone : values [e] e.1 = [e.2] := by simp [values]
        cases hw : wanted e.1 with
        | true => simp [values_append, hone]
        | false => simp
      · have hne : name ≠ e.1 := fun heq => he heq.symm
        have hnone : values [e] name = [] := by simp [values, he]
        rw [hnone, List.append_nil, ite_self]
        split_ifs
        · rw [values_append, if_neg hne]
        · rfl
    rw [hstep]
    split_ifs
    · rw [List.append_assoc]
    · rfl

/-- A name that is wanted and that the source has gets the last value of the source, and any other
keeps its own values. -/
theorem values_copy (wanted : κ → Bool) (h source : Headers κ α) (name : κ) :
    (copy wanted h source).values name =
      (if wanted name then (source.values name).getLast? else none).elim (h.values name) ([·]) := by
  unfold copy
  induction source generalizing h with
  | nil => simp
  | cons e source ih =>
    have hcons : values (e :: source) name = values [e] name ++ values source name :=
      values_append_list [e] source name
    rw [List.foldl_cons, ih, hcons, List.getLast?_append]
    by_cases he : e.1 = name
    · subst he
      cases hw : wanted e.1 with
      | true =>
        have hone : values [e] e.1 = [e.2] := by simp [values]
        rw [if_pos rfl, if_pos rfl, if_pos rfl, hone]
        cases (values source e.1).getLast? with
        | some value => rfl
        | none => simp [values_insert]
      | false => simp
    · have hne : name ≠ e.1 := fun heq => he heq.symm
      have hnone : values [e] name = [] := by simp [values, he]
      have hstep : (if wanted e.1 then h.insert e.1 e.2 else h).values name = h.values name := by
        split_ifs
        · rw [values_insert, if_neg hne]
        · rfl
      rw [hnone, hstep, List.getLast?_nil, Option.or_none]

end Headers

end MuseCodex
