import Mathlib.Data.List.Induction
import Mathlib.Data.List.Sort
import Mathlib.Data.String.Basic

/-!
# JSON documents

The JSON values that the verified code passes around, with the accessors it reads them through.
An object is the list of its entries in the order of their keys, as an ordered map holds them:
`Map.insert` keeps the list sorted (`Map.Sorted.insert`), and `get_insert` is the only fact about
it that reading a key needs. `Plain` delimits the documents that a printer and a parser with a
nesting limit agree on: sorted objects, no floating-point number, and a bounded depth.
-/

namespace MuseCodex.Json

/-! ## Ordered maps -/

/-- An ordered map with string keys, as the list of its entries. -/
abbrev Map (α : Type) := List (String × α)

namespace Map

variable {α : Type}

/-- The value at a key. -/
def get : Map α → String → Option α
  | [], _ => none
  | (k', v) :: m, k => if k = k' then some v else get m k

/-- Sets the value at a key: in place where the key is present, else before the first larger
key. -/
def insert : Map α → String → α → Map α
  | [], k, v => [(k, v)]
  | (k', v') :: m, k, v =>
    if k = k' then (k, v) :: m
    else if k < k' then (k, v) :: (k', v') :: m
    else (k', v') :: insert m k v

/-- Removes a key. -/
def erase (m : Map α) (k : String) : Map α := m.filter fun e => e.1 ≠ k

/-- The entries of some keys. -/
def only (keys : List String) (m : Map α) : Map α := m.filter fun e => e.1 ∈ keys

/-- The map with every value changed, depending on its key. -/
def mapValues (f : String → α → α) (m : Map α) : Map α := m.map fun e => (e.1, f e.1 e.2)

/-- Whether a key is present. -/
def containsKey (m : Map α) (k : String) : Bool := (m.get k).isSome

/-- The map that a list of entries builds, a later entry replacing an earlier one of its key. -/
def ofEntries (entries : List (String × α)) : Map α :=
  entries.foldl (fun m e => m.insert e.1 e.2) []

/-- The keys stand in strictly increasing order. -/
def Sorted (m : Map α) : Prop := m.Pairwise fun a b => a.1 < b.1

/-- This can be decided. -/
instance (m : Map α) : Decidable (Sorted m) :=
  inferInstanceAs (Decidable (List.Pairwise (fun a b => a.1 < b.1) m))

/-- An empty map has no entries. -/
@[simp] theorem get_nil (k : String) : get ([] : Map α) k = none := rfl

/-- Reading a key after an insertion. -/
@[simp] theorem get_insert (m : Map α) (k : String) (v : α) (k' : String) :
    (m.insert k v).get k' = if k' = k then some v else m.get k' := by
  induction m with
  | nil => rfl
  | cons e m ih =>
    obtain ⟨k₀, v₀⟩ := e
    simp only [insert]
    by_cases h : k' = k
    · subst h
      rw [if_pos rfl] at ih ⊢
      split_ifs with h₁ h₂
      · simp [get]
      · simp [get]
      · simp [get, h₁, ih]
    · rw [if_neg h] at ih ⊢
      split_ifs with h₁ h₂
      · subst h₁; simp [get, h]
      · simp [get, h]
      · simp [get, ih]

/-- An insertion adds no entry but its own. -/
theorem mem_insert {m : Map α} {k : String} {v : α} {e : String × α} (h : e ∈ m.insert k v) :
    e = (k, v) ∨ e ∈ m := by
  induction m with
  | nil => simpa [insert] using h
  | cons e₀ m ih =>
    obtain ⟨k₀, v₀⟩ := e₀
    simp only [insert] at h
    split_ifs at h with h₁ h₂
    · rcases List.mem_cons.mp h with h | h
      · exact .inl h
      · exact .inr (List.mem_cons_of_mem _ h)
    · exact List.mem_cons.mp h
    · rcases List.mem_cons.mp h with h | h
      · exact .inr (h ▸ List.mem_cons_self)
      · exact (ih h).imp_right (List.mem_cons_of_mem _)

/-- An insertion keeps the keys sorted. -/
theorem Sorted.insert {m : Map α} (hm : Sorted m) (k : String) (v : α) :
    Sorted (m.insert k v) := by
  induction m with
  | nil => exact List.pairwise_singleton _ _
  | cons e₀ m ih =>
    obtain ⟨k₀, v₀⟩ := e₀
    obtain ⟨hlt, htail⟩ := List.pairwise_cons.mp hm
    simp only [Map.insert]
    split_ifs with h₁ h₂
    · subst h₁; exact List.pairwise_cons.mpr ⟨hlt, htail⟩
    · refine List.pairwise_cons.mpr ⟨?_, hm⟩
      intro e he
      rcases List.mem_cons.mp he with rfl | he
      · exact h₂
      · exact lt_trans h₂ (hlt e he)
    · refine List.pairwise_cons.mpr ⟨?_, ih htail⟩
      intro e he
      rcases mem_insert he with rfl | he
      · exact lt_of_le_of_ne (not_lt.mp h₂) (Ne.symm h₁)
      · exact hlt e he

/-- Reading a key after a removal. -/
theorem get_erase (m : Map α) (k k' : String) :
    (m.erase k).get k' = if k' = k then none else m.get k' := by
  induction m with
  | nil => simp [erase]
  | cons e m ih =>
    obtain ⟨k₀, v₀⟩ := e
    unfold erase at ih ⊢
    by_cases h₀ : k₀ = k
    · rw [List.filter_cons_of_neg (by simpa using h₀), ih, get]
      by_cases h : k' = k
      · rw [if_pos h, if_pos h]
      · rw [if_neg h, if_neg h, if_neg fun heq => h (heq.trans h₀)]
    · rw [List.filter_cons_of_pos (by simpa using h₀), get, get, ih]
      by_cases h : k' = k₀
      · rw [if_pos h, if_pos h, if_neg fun heq => h₀ (h.symm.trans heq)]
      · rw [if_neg h, if_neg h]

/-- Reading a key that is kept. -/
theorem get_only {keys : List String} {k : String} (h : k ∈ keys) (m : Map α) :
    (m.only keys).get k = m.get k := by
  induction m with
  | nil => rfl
  | cons e m ih =>
    obtain ⟨k₀, v₀⟩ := e
    unfold only at ih ⊢
    by_cases hk₀ : k₀ ∈ keys
    · rw [List.filter_cons_of_pos (by simpa using hk₀), get, get, ih]
    · have hne : k ≠ k₀ := fun heq => hk₀ (heq ▸ h)
      rw [List.filter_cons_of_neg (by simpa using hk₀), ih, get, if_neg hne]

/-- Reading a key after every value was changed. -/
theorem get_mapValues (f : String → α → α) (m : Map α) (k : String) :
    (m.mapValues f).get k = (m.get k).map (f k) := by
  induction m with
  | nil => rfl
  | cons e m ih =>
    obtain ⟨k₀, v₀⟩ := e
    unfold mapValues at ih ⊢
    rw [List.map_cons, get, get, ih]
    by_cases hk : k = k₀
    · rw [if_pos hk, if_pos hk, hk, Option.map_some]
    · rw [if_neg hk, if_neg hk]

/-- An insertion of a new key adds one entry. -/
theorem length_insert {m : Map α} {k : String} (h : m.get k = none) (v : α) :
    (m.insert k v).length = m.length + 1 := by
  induction m with
  | nil => rfl
  | cons e m ih =>
    obtain ⟨k₀, v₀⟩ := e
    rw [get] at h
    rw [insert]
    split_ifs at h ⊢
    · rfl
    · rw [List.length_cons, ih h, List.length_cons]

/-- Building a map from entries, one more entry at the end. -/
theorem ofEntries_concat (entries : List (String × α)) (e : String × α) :
    ofEntries (entries ++ [e]) = (ofEntries entries).insert e.1 e.2 := by
  simp [ofEntries]

/-- Reading a key of a map built from entries: the last entry of the key counts. -/
theorem get_ofEntries (entries : List (String × α)) (k : String) :
    (ofEntries entries).get k = (entries.reverse.find? (·.1 = k)).map (·.2) := by
  induction entries using List.reverseRecOn with
  | nil => rfl
  | append_singleton entries e ih =>
    rw [ofEntries_concat, get_insert, ih, List.reverse_concat, List.find?_cons]
    by_cases h : e.1 = k
    · simp [h]
    · simp [h, Ne.symm h]

/-- A key that no later entry has. -/
theorem get_ofEntries_append_cons {k : String} {entries : List (String × α)}
    (h : ∀ e ∈ entries, e.1 ≠ k) (before : List (String × α)) (v : α) :
    (ofEntries (before ++ (k, v) :: entries)).get k = some v := by
  have hnone : entries.reverse.find? (·.1 = k) = none := by
    simpa using fun k' v' hmem => h (k', v') hmem
  rw [get_ofEntries, List.reverse_append, List.reverse_cons, List.find?_append,
    List.find?_append, hnone]
  simp

/-- A key that only the first entry has. -/
theorem get_ofEntries_cons {k : String} {entries : List (String × α)}
    (h : ∀ e ∈ entries, e.1 ≠ k) (v : α) : (ofEntries ((k, v) :: entries)).get k = some v :=
  get_ofEntries_append_cons h [] v

/-- A key that no entry has. -/
theorem get_ofEntries_of_notMem {k : String} {entries : List (String × α)}
    (h : ∀ e ∈ entries, e.1 ≠ k) : (ofEntries entries).get k = none := by
  have hnone : entries.reverse.find? (·.1 = k) = none := by
    simpa using fun k' v' hmem => h (k', v') hmem
  rw [get_ofEntries, hnone, Option.map_none]

/-- A map built from entries is sorted. -/
theorem ofEntries_sorted (entries : List (String × α)) : Sorted (ofEntries entries) := by
  induction entries using List.reverseRecOn with
  | nil => exact List.Pairwise.nil
  | append_singleton entries e ih => rw [ofEntries_concat]; exact ih.insert _ _

/-- A map built from entries holds no other entry. -/
theorem mem_of_mem_ofEntries {entries : List (String × α)} {e : String × α}
    (h : e ∈ ofEntries entries) : e ∈ entries := by
  induction entries using List.reverseRecOn with
  | nil => simp [ofEntries] at h
  | append_singleton entries e' ih =>
    rw [ofEntries_concat] at h
    rcases mem_insert h with rfl | h
    · simp
    · exact List.mem_append_left _ (ih h)

/-- An entry of a sorted map is what reading its key returns. -/
theorem Sorted.get_of_mem {m : Map α} (hm : Sorted m) {k : String} {v : α} (h : (k, v) ∈ m) :
    m.get k = some v := by
  induction m with
  | nil => simp at h
  | cons e m ih =>
    obtain ⟨k₀, v₀⟩ := e
    obtain ⟨hlt, htail⟩ := List.pairwise_cons.mp hm
    rcases List.mem_cons.mp h with h | h
    · cases h; simp [get]
    · have hne : k ≠ k₀ := (ne_of_lt (hlt _ h)).symm
      simp only [get, if_neg hne, ih htail h]

/-- What reading a key returns is an entry of the map. -/
theorem mem_of_get {m : Map α} {k : String} {v : α} (h : m.get k = some v) : (k, v) ∈ m := by
  induction m with
  | nil => simp at h
  | cons e m ih =>
    obtain ⟨k₀, v₀⟩ := e
    simp only [get] at h
    split_ifs at h with hk
    · cases h; subst hk; exact List.mem_cons_self
    · exact List.mem_cons_of_mem _ (ih h)

/-- A removal keeps the keys sorted. -/
theorem Sorted.erase {m : Map α} (hm : Sorted m) (k : String) : Sorted (m.erase k) :=
  List.Pairwise.filter _ hm

/-- Sorted maps with the same readings are the same. -/
theorem Sorted.ext {m m' : Map α} (hm : Sorted m) (hm' : Sorted m')
    (h : ∀ k, m.get k = m'.get k) : m = m' := by
  have hmem : ∀ e, e ∈ m ↔ e ∈ m' := by
    rintro ⟨k, v⟩
    constructor
    · intro he
      exact mem_of_get ((h k).symm.trans (hm.get_of_mem he))
    · intro he
      exact mem_of_get ((h k).trans (hm'.get_of_mem he))
  have hantisymm : Std.Antisymm fun a b : String × α => a.1 < b.1 :=
    ⟨fun a b hab hba => absurd hba (lt_asymm hab)⟩
  have hirrefl : Std.Irrefl fun a b : String × α => a.1 < b.1 := ⟨fun a => lt_irrefl a.1⟩
  exact List.Pairwise.eq_of_mem_iff hm hm' hmem

/-- Setting a key to the value that it has changes nothing. -/
theorem Sorted.insert_of_get {m : Map α} (hm : Sorted m) {k : String} {v : α}
    (h : m.get k = some v) : m.insert k v = m := by
  refine (hm.insert k v).ext hm fun k' => ?_
  rw [get_insert]
  split_ifs with hk
  · rw [hk, h]
  · rfl

/-- Removing a key and setting it again to the value that it had changes nothing. -/
theorem Sorted.insert_erase_of_get {m : Map α} (hm : Sorted m) {k : String} {v : α}
    (h : m.get k = some v) : (m.erase k).insert k v = m := by
  refine ((hm.erase k).insert k v).ext hm fun k' => ?_
  rw [get_insert, get_erase]
  split_ifs with hk
  · rw [hk, h]
  · rfl

/-- Removing a key that is not there changes nothing. -/
theorem Sorted.erase_of_get {m : Map α} (hm : Sorted m) {k : String} (h : m.get k = none) :
    m.erase k = m := by
  refine (hm.erase k).ext hm fun k' => ?_
  rw [get_erase]
  split_ifs with hk
  · rw [hk, h]
  · rfl

end Map

/-! ## Values -/

/-- A JSON number: an integer, a negative integer `-(n + 1)`, or a finite double, by its sign and
the decimal digits and exponent that print it. The integers of the library are words of 64 bits,
which `InRange` says of a document. -/
inductive Number where
  | posInt (n : ℕ)
  | negInt (n : ℕ)
  | float (negative : Bool) (significand : ℕ) (exponent : ℤ)
deriving DecidableEq, Repr

/-- A JSON value. -/
inductive Value where
  | null
  | bool (b : Bool)
  | number (n : Number)
  | string (s : String)
  | array (items : List Value)
  | object (entries : List (String × Value))
deriving Repr

namespace Value

/-- The member of an object at a key; nothing for any other value. -/
def get : Value → String → Option Value
  | .object m, k => Map.get m k
  | _, _ => none

/-- The text of a string. -/
def asStr : Value → Option String
  | .string s => some s
  | _ => none

/-- The value of an unsigned integer. -/
def asU64 : Value → Option ℕ
  | .number (.posInt n) => some n
  | _ => none

/-- The items of an array. -/
def asArray : Value → Option (List Value)
  | .array items => some items
  | _ => none

/-- The entries of an object. -/
def asObject : Value → Option (Map Value)
  | .object m => some m
  | _ => none

/-- Whether the value is `null`. -/
def isNull : Value → Bool
  | .null => true
  | _ => false

/-- Whether the value is a string. -/
def isString (v : Value) : Bool := v.asStr.isSome

/-- Whether the value is an object. -/
def isObject (v : Value) : Bool := v.asObject.isSome

/-- An unsigned integer as a value. -/
def ofNat (n : ℕ) : Value := .number (.posInt n)

/-- The object that a list of entries builds, a later entry replacing an earlier one of its
key. -/
def obj (entries : List (String × Value)) : Value := .object (Map.ofEntries entries)

/-- The member of an object. -/
@[simp] theorem get_object (m : Map Value) (k : String) : (Value.object m).get k = m.get k := rfl
@[simp] theorem asStr_string (s : String) : (Value.string s).asStr = some s := rfl
@[simp] theorem asU64_ofNat (n : ℕ) : (ofNat n).asU64 = some n := rfl
@[simp] theorem asObject_object (m : Map Value) : (Value.object m).asObject = some m := rfl
@[simp] theorem asArray_array (l : List Value) : (Value.array l).asArray = some l := rfl

/-- What has a text is a string. -/
theorem asStr_eq_some {v : Value} {s : String} (h : v.asStr = some s) : v = .string s := by
  cases v <;> simp_all [asStr]

/-- What has members is an object. -/
theorem asObject_eq_some {v : Value} {m : Map Value} (h : v.asObject = some m) :
    v = .object m := by
  cases v <;> simp_all [asObject]

/-- What has items is an array. -/
theorem asArray_eq_some {v : Value} {l : List Value} (h : v.asArray = some l) :
    v = .array l := by
  cases v <;> simp_all [asArray]

mutual

/-- Decides the equality of two values. -/
def decEq : (v w : Value) → Decidable (v = w)
  | .null, .null => isTrue rfl
  | .bool a, .bool b => decidable_of_iff (a = b) (by simp)
  | .number a, .number b => decidable_of_iff (a = b) (by simp)
  | .string a, .string b => decidable_of_iff (a = b) (by simp)
  | .array a, .array b => @decidable_of_iff _ (a = b) (by simp) (decEqItems a b)
  | .object a, .object b => @decidable_of_iff _ (a = b) (by simp) (decEqEntries a b)
  | .null, .bool _ | .null, .number _ | .null, .string _ | .null, .array _ | .null, .object _
  | .bool _, .null | .bool _, .number _ | .bool _, .string _ | .bool _, .array _
  | .bool _, .object _ | .number _, .null | .number _, .bool _ | .number _, .string _
  | .number _, .array _ | .number _, .object _ | .string _, .null | .string _, .bool _
  | .string _, .number _ | .string _, .array _ | .string _, .object _ | .array _, .null
  | .array _, .bool _ | .array _, .number _ | .array _, .string _ | .array _, .object _
  | .object _, .null | .object _, .bool _ | .object _, .number _ | .object _, .string _
  | .object _, .array _ => isFalse (by simp)

/-- Decides the equality of two arrays' items. -/
def decEqItems : (a b : List Value) → Decidable (a = b)
  | [], [] => isTrue rfl
  | [], _ :: _ => isFalse (by simp)
  | _ :: _, [] => isFalse (by simp)
  | v :: a, w :: b =>
    have := decEq v w
    have := decEqItems a b
    decidable_of_iff (v = w ∧ a = b) (by simp)

/-- Decides the equality of two objects' entries. -/
def decEqEntries : (a b : List (String × Value)) → Decidable (a = b)
  | [], [] => isTrue rfl
  | [], _ :: _ => isFalse (by simp)
  | _ :: _, [] => isFalse (by simp)
  | (k, v) :: a, (l, w) :: b =>
    have := decEq v w
    have := decEqEntries a b
    decidable_of_iff (k = l ∧ v = w ∧ a = b) (by simp [and_assoc])

end

/-- This can be decided. -/
instance : DecidableEq Value := decEq

end Value

/-! ## Documents within the words of the library -/

/-- A document whose integers fit the words that the library has for them: 64 bits, without a sign
for those that are not negative, and with one for the others. -/
inductive InRange : Value → Prop
  | null : InRange .null
  | bool (b : Bool) : InRange (.bool b)
  | posInt {n : ℕ} (h : n < 2 ^ 64) : InRange (.number (.posInt n))
  | negInt {n : ℕ} (h : n < 2 ^ 63) : InRange (.number (.negInt n))
  | float (negative : Bool) (significand : ℕ) (exponent : ℤ) :
      InRange (.number (.float negative significand exponent))
  | string (s : String) : InRange (.string s)
  | array {items : List Value} (h : ∀ v ∈ items, InRange v) : InRange (.array items)
  | object {m : Map Value} (h : ∀ e ∈ m, InRange e.2) : InRange (.object m)

/-- The members of a document in range are in range. -/
theorem InRange.get {v w : Value} (h : InRange v) {k : String} (hget : v.get k = some w) :
    InRange w := by
  cases h with
  | object h => exact h (k, w) (Map.mem_of_get hget)
  | null | bool | posInt | negInt | float | string | array => cases hget

/-- An unsigned integer of a document in range fits 64 bits. -/
theorem InRange.asU64_lt {v : Value} (h : InRange v) {n : ℕ} (hn : v.asU64 = some n) :
    n < 2 ^ 64 := by
  cases h with
  | posInt h =>
    cases hn
    exact h
  | null | bool | negInt | float | string | array | object => cases hn

/-! ## Plain documents -/

/-- A document that a printer and a parser agree on, nested at most `d` deep: objects are sorted,
integers fit 64 bits, and no number is a float, whose digits a parser may round. -/
inductive Plain : ℕ → Value → Prop
  | null (d : ℕ) : Plain d .null
  | bool (d : ℕ) (b : Bool) : Plain d (.bool b)
  | posInt (d : ℕ) {n : ℕ} (h : n < 2 ^ 64) : Plain d (.number (.posInt n))
  | negInt (d : ℕ) {n : ℕ} (h : n < 2 ^ 63) : Plain d (.number (.negInt n))
  | string (d : ℕ) (s : String) : Plain d (.string s)
  | array (d : ℕ) {items : List Value} (h : ∀ v ∈ items, Plain d v) : Plain (d + 1) (.array items)
  | object (d : ℕ) {m : Map Value} (hs : m.Sorted) (h : ∀ e ∈ m, Plain d e.2) :
      Plain (d + 1) (.object m)

/-- A deeper bound admits what a shallower one does. -/
theorem Plain.mono {d d' : ℕ} {v : Value} (h : Plain d v) (hd : d ≤ d') : Plain d' v := by
  induction h generalizing d' with
  | null => exact .null _
  | bool => exact .bool _ _
  | posInt _ hn => exact .posInt _ hn
  | negInt _ hn => exact .negInt _ hn
  | string => exact .string _ _
  | array d _ ih =>
    obtain ⟨e, rfl⟩ := Nat.exists_eq_add_of_le' (Nat.le_of_add_left_le hd)
    exact .array _ fun v hv => ih v hv (by omega)
  | object d hs _ ih =>
    obtain ⟨e, rfl⟩ := Nat.exists_eq_add_of_le' (Nat.le_of_add_left_le hd)
    exact .object _ hs fun v hv => ih v hv (by omega)

/-- An object built from plain members is plain. -/
theorem Plain.obj {d : ℕ} {entries : List (String × Value)} (h : ∀ e ∈ entries, Plain d e.2) :
    Plain (d + 1) (Value.obj entries) :=
  .object d (Map.ofEntries_sorted entries) fun e he => h e (Map.mem_of_mem_ofEntries he)

end MuseCodex.Json
