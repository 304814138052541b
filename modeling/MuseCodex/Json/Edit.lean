import MuseCodex.Json.Value

/-!
# Editing a document in place

A document is read as the nodes that stand at its paths: a scalar, the length of an array, or the
keys of an object. An edit walks to some fields of a document, and there keeps the value, replaces
it, or refuses it; it also tells whether it replaced anything. `Edits` states what an edit does as
a whole, by the fields that it visits: all of them hold fitting nodes, and the edited document has
the same node at every path but those, where it has the swapped one. The rules below derive this
for an edit from its parts: the member of an object (`atKey`), the items of an array (`eachItem`),
and one edit after another (`andThen`).
-/

namespace MuseCodex.Json

/-! ## Paths and nodes -/

/-- One step into a document. -/
inductive Step where
  | key (k : String)
  | index (i : ℕ)
deriving DecidableEq, Repr

/-- The way from a document to one of its parts. -/
abbrev Path := List Step

/-- What stands at one place of a document, without what stands below it. -/
inductive Node where
  | null
  | bool (b : Bool)
  | number (n : Number)
  | string (s : String)
  | array (length : ℕ)
  | object (keys : List String)
deriving DecidableEq, Repr

/-- The node of a value. -/
def Value.node : Value → Node
  | .null => .null
  | .bool b => .bool b
  | .number n => .number n
  | .string s => .string s
  | .array items => .array items.length
  | .object m => .object (m.map Prod.fst)

/-- The part of a document at one step. -/
def Value.child (v : Value) : Step → Option Value
  | .key k => v.get k
  | .index i => v.asArray.bind (·[i]?)

/-- The part of a document at a path. -/
def Value.valueAt : Path → Value → Option Value
  | [], v => some v
  | step :: p, v => (v.child step).bind (valueAt p)

/-- The node of a document at a path. -/
def Value.nodeAt (p : Path) (v : Value) : Option Node := (v.valueAt p).map Value.node

/-- At the empty path there is the document itself. -/
@[simp] theorem Value.nodeAt_nil (v : Value) : v.nodeAt [] = some v.node := rfl

/-- A path is followed step by step. -/
theorem Value.nodeAt_cons (step : Step) (p : Path) (v : Value) :
    v.nodeAt (step :: p) = (v.child step).bind (Value.nodeAt p) := by
  unfold nodeAt
  rw [valueAt]
  cases v.child step <;> rfl

/-! ## Replacing a member -/

/-- Replaces the value at a key that is present. -/
def Map.set {α : Type} : Map α → String → α → Map α
  | [], _, _ => []
  | (k', v') :: m, k, v => if k = k' then (k', v) :: m else (k', v') :: set m k v

/-- Setting a member that is there changes it only. -/
theorem Map.get_set {α : Type} {m : Map α} {k : String} (hk : m.get k ≠ none) (v : α)
    (k' : String) : (m.set k v).get k' = if k' = k then some v else m.get k' := by
  induction m with
  | nil => exact absurd rfl hk
  | cons e m ih =>
    obtain ⟨k₀, v₀⟩ := e
    rw [set]
    by_cases h₀ : k = k₀
    · subst h₀
      rw [if_pos rfl, get, get]
      split_ifs <;> rfl
    · rw [get, if_neg h₀] at hk
      rw [if_neg h₀, get, get, ih hk]
      by_cases h : k' = k
      · rw [if_pos h, if_pos h, if_neg (by rw [h]; exact h₀)]
      · rw [if_neg h, if_neg h]

/-- Setting a member adds none. -/
theorem Map.keys_set {α : Type} (m : Map α) (k : String) (v : α) :
    (m.set k v).map Prod.fst = m.map Prod.fst := by
  induction m with
  | nil => rfl
  | cons e m ih =>
    obtain ⟨k₀, v₀⟩ := e
    rw [set]
    split_ifs
    · rfl
    · rw [List.map_cons, List.map_cons, ih]

/-- Replacing a value by itself changes nothing. -/
theorem Map.set_of_get {α : Type} {m : Map α} {k : String} {v : α} (h : m.get k = some v) :
    m.set k v = m := by
  induction m with
  | nil => rfl
  | cons e m ih =>
    obtain ⟨k₀, v₀⟩ := e
    rw [get] at h
    rw [set]
    split_ifs at h ⊢ with hk
    · rw [Option.some.inj h]
    · rw [ih h]

/-! ## Edits -/

/-- An edit of a document: the edited document and whether anything was replaced, or the reason to
refuse it. -/
abbrev Edit := Value → Except String (Value × Bool)

/-- Edits the member at a key, if there is one. -/
def atKey (k : String) (edit : Edit) : Edit
  | .object m => match Map.get m k with
    | some v => (edit v).map fun r => (.object (Map.set m k r.1), r.2)
    | none => .ok (.object m, false)
  | v => .ok (v, false)

/-- Edits the items of a list one after the other. -/
def editItems (edit : Edit) : List Value → Except String (List Value × Bool)
  | [] => .ok ([], false)
  | v :: vs => do
    let r ← edit v
    let rs ← editItems edit vs
    .ok (r.1 :: rs.1, r.2 || rs.2)

/-- Edits the items of an array, if it is one. -/
def eachItem (edit : Edit) : Edit
  | .array items => (editItems edit items).map fun r => (.array r.1, r.2)
  | v => .ok (v, false)

/-- One edit after another. -/
def andThen (edit edit' : Edit) : Edit := fun v => do
  let r ← edit v
  let r' ← edit' r.1
  .ok (r'.1, r.2 || r'.2)

/-- No edit. -/
def skip : Edit := fun v => .ok (v, false)

/-! ## The fields of an edit -/

/-- The fields of the member at a key. -/
def keyFields (k : String) (fields : Value → List Path) (v : Value) : List Path :=
  (fields ((v.get k).getD .null)).map (.key k :: ·)

/-- The fields of the items of an array. -/
def itemFields (fields : Value → List Path) (v : Value) : List Path :=
  (v.asArray.getD []).zipIdx.flatMap fun item => (fields item.1).map (.index item.2 :: ·)

section

variable (fits : Node → Prop) (swap : Node → Node)

/-- What an edit does as a whole, by the fields that it visits. -/
structure Edits (edit : Edit) (fields : Value → List Path) : Prop where
  /-- All fields of a document that is edited hold fitting nodes. -/
  fit : ∀ {v w changed}, edit v = .ok (w, changed) → ∀ p ∈ fields v, ∀ n ∈ v.nodeAt p, fits n
  /-- The edited document has the swapped nodes at its fields and the same nodes elsewhere. -/
  nodes : ∀ {v w changed}, edit v = .ok (w, changed) → ∀ p,
    w.nodeAt p = if p ∈ fields v then (v.nodeAt p).map swap else v.nodeAt p
  /-- The edited document has the same fields. -/
  stable : ∀ {v w changed}, edit v = .ok (w, changed) → ∀ p, p ∈ fields w ↔ p ∈ fields v
  /-- Without a replacement the document is the same. -/
  same : ∀ {v w}, edit v = .ok (w, false) → w = v
  /-- A replacement was made at a field. -/
  replaced : ∀ {v w}, edit v = .ok (w, true) → ∃ p ∈ fields v, ∃ n ∈ v.nodeAt p, swap n ≠ n
  /-- A document whose fields hold fitting nodes is not refused. -/
  total : ∀ v, (∀ p ∈ fields v, ∀ n ∈ v.nodeAt p, fits n) → ∃ r, edit v = .ok r

variable {fits swap} {edit edit' : Edit} {fields fields' : Value → List Path}

/-- Doing nothing edits no field. -/
theorem edits_skip : Edits fits swap skip (fun _ => []) where
  fit _ := by simp
  nodes h p := by
    cases h
    simp
  stable _ _ := Iff.rfl
  same h := by
    cases h
    rfl
  replaced h := by cases h
  total v _ := ⟨_, rfl⟩

/-- Values without parts differ only at their root. -/
theorem nodeAt_eq_of_childless {v w : Value} (hv : ∀ step, v.child step = none)
    (hw : ∀ step, w.child step = none) {p : Path} (hp : p ≠ []) : w.nodeAt p = v.nodeAt p := by
  match p with
  | [] => exact absurd rfl hp
  | step :: q => rw [Value.nodeAt_cons, Value.nodeAt_cons, hv, hw]

/-- An edit that only looks at the value itself, and replaces a string by a string, edits the
document at its root. -/
theorem edits_root
    (hok : ∀ v, fits v.node → ∃ changed w, edit v = .ok (w, changed) ∧
      (changed = false ∧ w = v ∧ swap v.node = v.node ∨
        changed = true ∧ ∃ s s', v = .string s ∧ w = .string s' ∧ swap v.node = w.node ∧ w ≠ v))
    (herror : ∀ v, ¬fits v.node → ∃ reason, edit v = .error reason) :
    Edits fits swap edit (fun _ => [[]]) := by
  have hfits {v w : Value} {changed : Bool} (h : edit v = .ok (w, changed)) : fits v.node := by
    by_contra hnot
    obtain ⟨reason, hreason⟩ := herror v hnot
    rw [hreason] at h
    cases h
  have hcases {v w : Value} {changed : Bool} (h : edit v = .ok (w, changed)) :
      changed = false ∧ w = v ∧ swap v.node = v.node ∨
        changed = true ∧ ∃ s s', v = .string s ∧ w = .string s' ∧ swap v.node = w.node ∧ w ≠ v := by
    obtain ⟨changed', w', h', hrest⟩ := hok v (hfits h)
    rw [h] at h'
    cases h'
    exact hrest
  constructor
  · intro v w changed h p hp n hn
    obtain rfl := List.mem_singleton.mp hp
    rw [Value.nodeAt_nil, Option.mem_some] at hn
    rw [← hn]
    exact hfits h
  · intro v w changed h p
    simp only [List.mem_singleton]
    rcases hcases h with ⟨-, rfl, hswap⟩ | ⟨-, s, s', rfl, rfl, hswap, -⟩
    · split_ifs with hp
      · rw [hp, Value.nodeAt_nil, Option.map_some, hswap]
      · rfl
    · split_ifs with hp
      · rw [hp, Value.nodeAt_nil, Value.nodeAt_nil, Option.map_some, hswap]
      · -- A text has nothing below it.
        exact nodeAt_eq_of_childless (fun step => by cases step <;> rfl)
          (fun step => by cases step <;> rfl) hp
  · exact fun _ _ => Iff.rfl
  · intro v w h
    rcases hcases h with ⟨-, heq, -⟩ | ⟨hfalse, -⟩
    · exact heq
    · cases hfalse
  · intro v w h
    rcases hcases h with ⟨hfalse, -⟩ | ⟨-, s, s', rfl, rfl, hswap, hne⟩
    · cases hfalse
    · refine ⟨[], List.mem_singleton.mpr rfl, _, rfl, ?_⟩
      rw [hswap]
      exact fun heq => hne (by injection heq with hs; rw [hs])
  · intro v hfit
    obtain ⟨changed, w, h, -⟩ := hok v (hfit [] (List.mem_singleton.mpr rfl) _ rfl)
    exact ⟨_, h⟩

/-- A document without a member at a key is left as it is. -/
theorem atKey_of_none {k : String} {v : Value} (hget : v.get k = none) (edit : Edit) :
    atKey k edit v = .ok (v, false) := by
  unfold atKey
  split
  · rename_i m
    rw [show Map.get m k = none from hget]
  · rfl

/-- A document with a member at a key is edited there. -/
theorem atKey_of_some {k : String} {v x : Value} (hget : v.get k = some x) (edit : Edit) :
    ∃ m, v = .object m ∧ Map.get m k = some x ∧ atKey k edit v =
      match edit x with
      | .ok r => .ok (.object (Map.set m k r.1), r.2)
      | .error reason => .error reason := by
  cases v with
  | object m =>
    refine ⟨m, rfl, hget, ?_⟩
    unfold atKey
    dsimp only
    rw [show Map.get m k = some x from hget]
    dsimp only
    cases edit x <;> rfl
  | null | bool | number | string | array => cases hget

/-- The nodes of an object whose member at a key was replaced. -/
theorem nodeAt_set {m : Map Value} {k : String} {x y : Value} (hget : Map.get m k = some x)
    (p : Path) : (Value.object (Map.set m k y)).nodeAt p =
      match p with
      | .key k' :: q => if k' = k then y.nodeAt q else (Value.object m).nodeAt (.key k' :: q)
      | p => (Value.object m).nodeAt p := by
  have hne : Map.get m k ≠ none := by
    rw [hget]
    exact Option.some_ne_none x
  match p with
  | [] =>
    show some (Node.object _) = some (Node.object _)
    rw [Map.keys_set]
  | .index i :: q => rfl
  | .key k' :: q =>
    have hchild : (Value.object (Map.set m k y)).child (.key k') =
        if k' = k then some y else Map.get m k' := Map.get_set hne y k'
    rw [Value.nodeAt_cons, hchild]
    dsimp only
    split_ifs
    · rfl
    · rw [Value.nodeAt_cons]
      rfl

/-- The fields below a key. -/
theorem mem_keyFields {k : String} {v : Value} {p : Path} : p ∈ keyFields k fields v ↔
    ∃ q ∈ fields ((v.get k).getD .null), p = .key k :: q := by
  simp [keyFields, eq_comm]

/-- An edit of the member at a key. -/
theorem Edits.atKey (h : Edits fits swap edit fields) (k : String) :
    Edits fits swap (atKey k edit) (keyFields k fields) := by
  -- Below a key that is missing there is no node.
  have hmissing {v : Value} (hget : v.get k = none) {p : Path}
      (hp : p ∈ keyFields k fields v) : v.nodeAt p = none := by
    obtain ⟨q, -, rfl⟩ := mem_keyFields.mp hp
    rw [Value.nodeAt_cons, Value.child, hget]
    rfl
  have hbelow {v x : Value} (hget : v.get k = some x) (q : Path) :
      v.nodeAt (.key k :: q) = x.nodeAt q := by
    rw [Value.nodeAt_cons, Value.child, hget]
    rfl
  have hmem {v x : Value} (hget : v.get k = some x) (q : Path) :
      .key k :: q ∈ keyFields k fields v ↔ q ∈ fields x := by
    rw [mem_keyFields, hget]
    simp
  constructor
  · intro v w changed hok p hp n hn
    cases hget : v.get k with
    | none =>
      rw [hmissing hget hp] at hn
      cases hn
    | some x =>
      obtain ⟨m, rfl, -, hedit⟩ := atKey_of_some hget edit
      rw [hedit] at hok
      obtain ⟨q, hq, rfl⟩ := mem_keyFields.mp hp
      rw [hget] at hq
      rw [hbelow hget] at hn
      cases hx : edit x with
      | error reason =>
        rw [hx] at hok
        cases hok
      | ok r => exact h.fit hx q hq n hn
  · intro v w changed hok p
    cases hget : v.get k with
    | none =>
      rw [atKey_of_none hget] at hok
      cases hok
      split_ifs with hp
      · rw [hmissing hget hp]
        rfl
      · rfl
    | some x =>
      obtain ⟨m, rfl, hm, hedit⟩ := atKey_of_some hget edit
      rw [hedit] at hok
      cases hx : edit x with
      | error reason =>
        rw [hx] at hok
        cases hok
      | ok r =>
        rw [hx] at hok
        cases hok
        rw [nodeAt_set hm]
        split
        · rename_i k' q
          by_cases hk : k' = k
          · subst hk
            rw [if_pos rfl, h.nodes hx q, hbelow hget]
            simp only [hmem hget]
          · have hnot : .key k' :: q ∉ keyFields k fields (.object m) := by
              rw [mem_keyFields]
              rintro ⟨q', -, heq⟩
              exact hk (by injection heq with hstep; injection hstep)
            rw [if_neg hk, if_neg hnot]
        · rename_i hne
          have hnot : p ∉ keyFields k fields (.object m) := by
            rw [mem_keyFields]
            rintro ⟨q, -, rfl⟩
            exact hne k q rfl
          rw [if_neg hnot]
  · intro v w changed hok p
    cases hget : v.get k with
    | none =>
      rw [atKey_of_none hget] at hok
      cases hok
      exact Iff.rfl
    | some x =>
      obtain ⟨m, rfl, hm, hedit⟩ := atKey_of_some hget edit
      rw [hedit] at hok
      cases hx : edit x with
      | error reason =>
        rw [hx] at hok
        cases hok
      | ok r =>
        rw [hx] at hok
        cases hok
        have hget' : (Value.object (Map.set m k r.1)).get k = some r.1 := by
          rw [Value.get_object, Map.get_set (by rw [hm]; exact Option.some_ne_none x), if_pos rfl]
        rw [mem_keyFields, mem_keyFields, hget, hget']
        simp only [Option.getD_some, h.stable hx]
  · intro v w hok
    cases hget : v.get k with
    | none =>
      rw [atKey_of_none hget] at hok
      cases hok
      rfl
    | some x =>
      obtain ⟨m, rfl, hm, hedit⟩ := atKey_of_some hget edit
      rw [hedit] at hok
      cases hx : edit x with
      | error reason =>
        rw [hx] at hok
        cases hok
      | ok r =>
        obtain ⟨y, changed⟩ := r
        rw [hx] at hok
        cases hok
        rw [h.same hx, Map.set_of_get hm]
  · intro v w hok
    cases hget : v.get k with
    | none =>
      rw [atKey_of_none hget] at hok
      cases hok
    | some x =>
      obtain ⟨m, rfl, hm, hedit⟩ := atKey_of_some hget edit
      rw [hedit] at hok
      cases hx : edit x with
      | error reason =>
        rw [hx] at hok
        cases hok
      | ok r =>
        obtain ⟨y, changed⟩ := r
        rw [hx] at hok
        cases hok
        obtain ⟨q, hq, n, hn, hne⟩ := h.replaced hx
        exact ⟨.key k :: q, (hmem hget q).mpr hq, n, by rw [hbelow hget]; exact hn, hne⟩
  · intro v hfit
    cases hget : v.get k with
    | none => exact ⟨_, atKey_of_none hget edit⟩
    | some x =>
      obtain ⟨m, rfl, -, hedit⟩ := atKey_of_some hget edit
      obtain ⟨r, hr⟩ := h.total x fun q hq n hn =>
        hfit (.key k :: q) ((hmem hget q).mpr hq) n (by rw [hbelow hget]; exact hn)
      rw [hr] at hedit
      exact ⟨_, hedit⟩

/-- The items of an edited list are the edited items. -/
theorem editItems_ok {edit : Edit} {vs ws : List Value} {changed : Bool}
    (hok : editItems edit vs = .ok (ws, changed)) : ws.length = vs.length ∧
      (∀ (i : ℕ) (v : Value), vs[i]? = some v → ∃ w c, ws[i]? = some w ∧ edit v = .ok (w, c) ∧
        (changed = false → c = false)) ∧
      (changed = true → ∃ (i : ℕ) (v w : Value), vs[i]? = some v ∧ edit v = .ok (w, true)) := by
  induction vs generalizing ws changed with
  | nil =>
    cases hok
    simp
  | cons v vs ih =>
    rw [editItems] at hok
    cases hv : edit v with
    | error reason =>
      rw [hv] at hok
      cases hok
    | ok r =>
      cases hvs : editItems edit vs with
      | error reason =>
        rw [hv, hvs] at hok
        cases hok
      | ok rs =>
        rw [hv, hvs] at hok
        cases hok
        obtain ⟨hlength, hitems, hchanged⟩ := ih hvs
        refine ⟨by rw [List.length_cons, List.length_cons, hlength], ?_, fun htrue => ?_⟩
        · intro i x hx
          cases i with
          | zero =>
            cases hx
            -- The list is unchanged only if each item is.
            refine ⟨r.1, r.2, rfl, hv, fun hfalse => ?_⟩
            rw [Bool.or_eq_false_iff] at hfalse
            exact hfalse.1
          | succ i =>
            obtain ⟨w, c, hw, hedit, hc⟩ := hitems i x hx
            refine ⟨w, c, hw, hedit, fun hfalse => hc ?_⟩
            rw [Bool.or_eq_false_iff] at hfalse
            exact hfalse.2
        · obtain ⟨w, changed⟩ := r
          rcases Bool.or_eq_true_iff.mp htrue with htrue | htrue
          · exact ⟨0, v, w, rfl, htrue ▸ hv⟩
          · obtain ⟨i, x, y, hx, hedit⟩ := hchanged htrue
            exact ⟨i + 1, x, y, hx, hedit⟩

/-- A list all of whose items can be edited can be edited. -/
theorem editItems_total {edit : Edit} {vs : List Value} (h : ∀ v ∈ vs, ∃ r, edit v = .ok r) :
    ∃ r, editItems edit vs = .ok r := by
  induction vs with
  | nil => exact ⟨_, rfl⟩
  | cons v vs ih =>
    obtain ⟨r, hr⟩ := h v List.mem_cons_self
    obtain ⟨rs, hrs⟩ := ih fun x hx => h x (List.mem_cons_of_mem _ hx)
    rw [editItems, hr, hrs]
    exact ⟨_, rfl⟩

/-- The fields below the items. -/
theorem mem_itemFields {v : Value} {p : Path} : p ∈ itemFields fields v ↔
    ∃ i x q, (v.asArray.getD [])[i]? = some x ∧ q ∈ fields x ∧ p = .index i :: q := by
  simp only [itemFields, List.mem_flatMap, List.mem_map, Prod.exists]
  constructor
  · rintro ⟨x, i, hx, q, hq, rfl⟩
    exact ⟨i, x, q, (List.mem_zipIdx_iff_getElem?.mp hx), hq, rfl⟩
  · rintro ⟨i, x, q, hx, hq, rfl⟩
    exact ⟨x, i, List.mem_zipIdx_iff_getElem?.mpr hx, q, hq, rfl⟩

/-- An edit of the items of an array. -/
theorem Edits.eachItem (h : Edits fits swap edit fields) :
    Edits fits swap (eachItem edit) (itemFields fields) := by
  -- A document that is no array has no fields and is left as it is.
  have hother {v : Value} (hv : v.asArray = none) :
      Json.eachItem edit v = .ok (v, false) ∧ itemFields fields v = [] := by
    cases v with
    | array items => cases hv
    | null | bool | number | string | object => exact ⟨rfl, rfl⟩
  have harray {items : List Value} {w : Value} {changed : Bool}
      (hok : Json.eachItem edit (.array items) = .ok (w, changed)) :
      ∃ ws, w = .array ws ∧ editItems edit items = .ok (ws, changed) := by
    unfold Json.eachItem at hok
    dsimp only at hok
    cases hitems : editItems edit items with
    | error reason =>
      rw [hitems] at hok
      cases hok
    | ok r =>
      rw [hitems] at hok
      cases hok
      exact ⟨r.1, rfl, rfl⟩
  have hindex (items : List Value) (i : ℕ) (q : Path) :
      (Value.array items).nodeAt (.index i :: q) = items[i]?.bind (Value.nodeAt q) := by
    rw [Value.nodeAt_cons]
    rfl
  have hmem {items : List Value} {i : ℕ} {x : Value} (hx : items[i]? = some x) (q : Path) :
      .index i :: q ∈ itemFields fields (.array items) ↔ q ∈ fields x := by
    rw [mem_itemFields]
    constructor
    · rintro ⟨j, y, q', hy, hq, heq⟩
      injection heq with hstep hrest
      injection hstep with hij
      subst hij hrest
      rw [show items[i]? = some y from hy] at hx
      rwa [← Option.some.inj hx]
    · intro hq
      exact ⟨i, x, q, hx, hq, rfl⟩
  constructor
  · intro v w changed hok p hp n hn
    cases hv : v.asArray with
    | none =>
      rw [(hother hv).2] at hp
      cases hp
    | some items =>
      rw [Value.asArray_eq_some hv] at hok hp hn
      obtain ⟨ws, -, hitems⟩ := harray hok
      obtain ⟨i, x, q, hx, hq, rfl⟩ := mem_itemFields.mp hp
      obtain ⟨y, c, -, hedit, -⟩ := (editItems_ok hitems).2.1 i x hx
      rw [hindex, show items[i]? = some x from hx] at hn
      exact h.fit hedit q hq n hn
  · intro v w changed hok p
    cases hv : v.asArray with
    | none =>
      rw [(hother hv).1] at hok
      cases hok
      rw [(hother hv).2, if_neg List.not_mem_nil]
    | some items =>
      rw [Value.asArray_eq_some hv] at hok ⊢
      obtain ⟨ws, rfl, hitems⟩ := harray hok
      obtain ⟨hlength, hedited, -⟩ := editItems_ok hitems
      have hnot (hp : ∀ i q, p ≠ .index i :: q) :
          p ∉ itemFields fields (.array items) := by
        rw [mem_itemFields]
        rintro ⟨i, x, q, -, -, rfl⟩
        exact hp i q rfl
      match p with
      | [] =>
        rw [if_neg (hnot (by simp))]
        show some (Node.array _) = some (Node.array _)
        rw [hlength]
      | .key k :: q =>
        rw [if_neg (hnot fun i q heq => by injection heq with hstep; cases hstep)]
        rfl
      | .index i :: q =>
        rw [hindex, hindex]
        cases hx : items[i]? with
        | none =>
          have hnone : ws[i]? = none := by
            rw [List.getElem?_eq_none_iff] at hx ⊢
            omega
          rw [hnone]
          exact (ite_self _).symm
        | some x =>
          obtain ⟨y, c, hy, hedit, -⟩ := hedited i x hx
          rw [hy]
          simp only [Option.bind_some, hmem hx]
          exact h.nodes hedit q
  · intro v w changed hok p
    cases hv : v.asArray with
    | none =>
      rw [(hother hv).1] at hok
      cases hok
      exact Iff.rfl
    | some items =>
      rw [Value.asArray_eq_some hv] at hok ⊢
      obtain ⟨ws, rfl, hitems⟩ := harray hok
      obtain ⟨hlength, hedited, -⟩ := editItems_ok hitems
      rw [mem_itemFields, mem_itemFields]
      constructor
      · rintro ⟨i, y, q, hy, hq, rfl⟩
        have hi : i < items.length := by
          rw [← hlength]
          exact (List.getElem?_eq_some_iff.mp hy).1
        obtain ⟨y', c, hy', hedit, -⟩ := hedited i _ (List.getElem?_eq_getElem hi)
        obtain rfl : y = y' := Option.some.inj (hy.symm.trans hy')
        exact ⟨i, _, q, List.getElem?_eq_getElem hi, (h.stable hedit q).mp hq, rfl⟩
      · rintro ⟨i, x, q, hx, hq, rfl⟩
        obtain ⟨y, c, hy, hedit, -⟩ := hedited i x hx
        exact ⟨i, y, q, hy, (h.stable hedit q).mpr hq, rfl⟩
  · intro v w hok
    cases hv : v.asArray with
    | none =>
      rw [(hother hv).1] at hok
      cases hok
      rfl
    | some items =>
      rw [Value.asArray_eq_some hv] at hok ⊢
      obtain ⟨ws, rfl, hitems⟩ := harray hok
      obtain ⟨hlength, hedited, -⟩ := editItems_ok hitems
      have hsame : ws = items := by
        apply List.ext_getElem?
        intro i
        cases hx : items[i]? with
        | none =>
          rw [List.getElem?_eq_none_iff] at hx ⊢
          omega
        | some x =>
          obtain ⟨y, c, hy, hedit, hc⟩ := hedited i x hx
          rw [hc rfl] at hedit
          rw [hy, h.same hedit]
      rw [hsame]
  · intro v w hok
    cases hv : v.asArray with
    | none =>
      rw [(hother hv).1] at hok
      cases hok
    | some items =>
      rw [Value.asArray_eq_some hv] at hok ⊢
      obtain ⟨ws, rfl, hitems⟩ := harray hok
      obtain ⟨i, x, y, hx, hedit⟩ := (editItems_ok hitems).2.2 rfl
      obtain ⟨q, hq, n, hn, hne⟩ := h.replaced hedit
      exact ⟨.index i :: q, (hmem hx q).mpr hq, n, by rw [hindex, hx]; exact hn, hne⟩
  · intro v hfit
    cases hv : v.asArray with
    | none => exact ⟨_, (hother hv).1⟩
    | some items =>
      rw [Value.asArray_eq_some hv] at hfit ⊢
      have hitems : ∀ x ∈ items, ∃ r, edit x = .ok r := by
        intro x hx
        obtain ⟨i, hi⟩ := List.mem_iff_getElem?.mp hx
        refine h.total x fun q hq n hn => hfit (.index i :: q) ((hmem hi q).mpr hq) n ?_
        rw [hindex, hi]
        exact hn
      obtain ⟨r, hr⟩ := editItems_total hitems
      unfold Json.eachItem
      dsimp only
      rw [hr]
      exact ⟨_, rfl⟩

/-- What one edit after another does. -/
theorem andThen_ok {v w : Value} {changed : Bool} (hok : andThen edit edit' v = .ok (w, changed)) :
    ∃ u c c', edit v = .ok (u, c) ∧ edit' u = .ok (w, c') ∧ changed = (c || c') := by
  unfold andThen at hok
  cases hv : edit v with
  | error reason =>
    rw [hv] at hok
    cases hok
  | ok r =>
    rw [hv] at hok
    cases hu : edit' r.1 with
    | error reason =>
      simp only [bind, Except.bind, hu] at hok
      cases hok
    | ok r' =>
      simp only [bind, Except.bind, hu] at hok
      cases hok
      exact ⟨r.1, r.2, r'.2, rfl, hu, rfl⟩

/-- One edit after another, which visits other fields and finds them where they were. -/
theorem Edits.andThen (h : Edits fits swap edit fields) (h' : Edits fits swap edit' fields')
    (hdisjoint : ∀ v, ∀ p ∈ fields v, p ∉ fields' v)
    (hstable' : ∀ {v w changed}, edit v = .ok (w, changed) → ∀ p, p ∈ fields' w ↔ p ∈ fields' v)
    (hstable : ∀ {v w changed}, edit' v = .ok (w, changed) → ∀ p, p ∈ fields w ↔ p ∈ fields v) :
    Edits fits swap (andThen edit edit') (fun v => fields v ++ fields' v) := by
  -- The first edit does not touch the fields of the second.
  have hafter {v u : Value} {c : Bool} (hv : edit v = .ok (u, c)) {p : Path}
      (hp : p ∈ fields' v) : u.nodeAt p = v.nodeAt p := by
    rw [h.nodes hv, if_neg fun hmem => hdisjoint v p hmem hp]
  constructor
  · intro v w changed hok p hp n hn
    obtain ⟨u, c, c', hv, hu, -⟩ := andThen_ok hok
    rcases List.mem_append.mp hp with hp | hp
    · exact h.fit hv p hp n hn
    · rw [← hafter hv hp] at hn
      exact h'.fit hu p ((hstable' hv p).mpr hp) n hn
  · intro v w changed hok p
    obtain ⟨u, c, c', hv, hu, -⟩ := andThen_ok hok
    rw [h'.nodes hu]
    simp only [hstable' hv]
    by_cases hp : p ∈ fields' v
    · rw [if_pos hp, if_pos (List.mem_append_right _ hp), hafter hv hp]
    · rw [if_neg hp, h.nodes hv]
      simp only [List.mem_append, hp, or_false]
  · intro v w changed hok p
    obtain ⟨u, c, c', hv, hu, -⟩ := andThen_ok hok
    rw [List.mem_append, List.mem_append, hstable hu, h.stable hv, h'.stable hu, hstable' hv]
  · intro v w hok
    obtain ⟨u, c, c', hv, hu, hchanged⟩ := andThen_ok hok
    have hfalse := Bool.or_eq_false_iff.mp hchanged.symm
    rw [hfalse.1] at hv
    rw [hfalse.2] at hu
    rw [h'.same hu, h.same hv]
  · intro v w hok
    obtain ⟨u, c, c', hv, hu, hchanged⟩ := andThen_ok hok
    rcases Bool.or_eq_true_iff.mp hchanged.symm with htrue | htrue
    · rw [htrue] at hv
      obtain ⟨p, hp, hn⟩ := h.replaced hv
      exact ⟨p, List.mem_append_left _ hp, hn⟩
    · rw [htrue] at hu
      obtain ⟨p, hp, n, hn, hne⟩ := h'.replaced hu
      rw [hstable' hv] at hp
      rw [hafter hv hp] at hn
      exact ⟨p, List.mem_append_right _ hp, n, hn, hne⟩
  · intro v hfit
    obtain ⟨r, hr⟩ := h.total v fun p hp => hfit p (List.mem_append_left _ hp)
    obtain ⟨u, c⟩ := r
    obtain ⟨r', hr'⟩ := h'.total u fun p hp n hn => by
      rw [hstable' hr] at hp
      rw [hafter hr hp] at hn
      exact hfit p (List.mem_append_right _ hp) n hn
    refine ⟨(r'.1, c || r'.2), ?_⟩
    simp only [Json.andThen, bind, Except.bind, hr, hr']

/-- An edit of one member leaves the others. -/
theorem atKey_get {k k' : String} (hne : k' ≠ k) {v w : Value} {changed : Bool}
    (hok : atKey k edit v = .ok (w, changed)) : w.get k' = v.get k' := by
  cases hget : v.get k with
  | none =>
    rw [atKey_of_none hget] at hok
    cases hok
    rfl
  | some x =>
    obtain ⟨m, rfl, hm, hedit⟩ := atKey_of_some hget edit
    rw [hedit] at hok
    cases hx : edit x with
    | error reason =>
      rw [hx] at hok
      cases hok
    | ok r =>
      rw [hx] at hok
      cases hok
      rw [Value.get_object, Value.get_object, Map.get_set (by rw [hm]; exact Option.some_ne_none x),
        if_neg hne]

/-- Edits of two members. -/
theorem Edits.atKeys (h : Edits fits swap edit fields) (h' : Edits fits swap edit' fields')
    {k k' : String} (hne : k' ≠ k) :
    Edits fits swap (Json.andThen (Json.atKey k edit) (Json.atKey k' edit'))
      (fun v => keyFields k fields v ++ keyFields k' fields' v) := by
  apply (h.atKey k).andThen (h'.atKey k')
  · intro v p hp hp'
    obtain ⟨q, -, rfl⟩ := mem_keyFields.mp hp
    obtain ⟨q', -, heq⟩ := mem_keyFields.mp hp'
    injection heq with hstep
    injection hstep with hk
    exact hne hk.symm
  · intro v w changed hok p
    rw [keyFields, keyFields, atKey_get hne hok]
  · intro v w changed hok p
    rw [keyFields, keyFields, atKey_get hne.symm hok]

/-- An edit that is chosen by a part of the document that it leaves. -/
theorem Edits.choose {σ : Type} (select : Value → σ) {edits : σ → Edit}
    {fields : σ → Value → List Path} (h : ∀ s, Edits fits swap (edits s) (fields s))
    (hselect : ∀ {s v w changed}, edits s v = .ok (w, changed) → select w = select v) :
    Edits fits swap (fun v => edits (select v) v) (fun v => fields (select v) v) where
  fit hok := (h _).fit hok
  nodes hok := (h _).nodes hok
  stable hok p := by
    rw [hselect hok]
    exact (h _).stable hok p
  same hok := (h _).same hok
  replaced hok := (h _).replaced hok
  total v := (h _).total v

/-- A document is edited exactly when its fields hold fitting nodes. -/
theorem Edits.ok_iff (h : Edits fits swap edit fields) (v : Value) :
    (∃ r, edit v = .ok r) ↔ ∀ p ∈ fields v, ∀ n ∈ v.nodeAt p, fits n :=
  ⟨fun ⟨_, hok⟩ => h.fit hok, h.total v⟩

/-- A document is changed exactly when a field holds a node that is swapped for another. -/
theorem Edits.changed_iff (h : Edits fits swap edit fields) {v w : Value} {changed : Bool}
    (hok : edit v = .ok (w, changed)) :
    changed = true ↔ ∃ p ∈ fields v, ∃ n ∈ v.nodeAt p, swap n ≠ n := by
  constructor
  · rintro rfl
    exact h.replaced hok
  · rintro ⟨p, hp, n, hn, hne⟩
    cases changed with
    | true => rfl
    | false =>
      -- The document would be the same, but not the node of the field.
      have hn : v.nodeAt p = some n := hn
      have hnodes := h.nodes hok p
      rw [h.same hok, if_pos hp, hn, Option.map_some] at hnodes
      exact absurd (Option.some.inj hnodes).symm hne

end

end MuseCodex.Json
