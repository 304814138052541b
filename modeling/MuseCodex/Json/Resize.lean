import Mathlib.Algebra.BigOperators.Group.List.Basic
import MuseCodex.Json.Edit
import MuseCodex.Json.Size

/-!
# What an edit does to the size of a document

A size of documents is `Additive` when the items of an array and the members of an object add
theirs to it, whatever else the array or the object adds. An edit that replaces a node of one size
by a node of another then changes the size of the document by the difference for each node that it
replaces, wherever these stand (`Resizes`, with a rule for each way to build an edit).

The bytes of a printed document are such a size. `Serde.Itemized` states what each part of a
document adds to them, exactly, and `Compact.itemized` proves it of the printer in `Compact.lean`.
-/

namespace MuseCodex.Json

/-! ## Additive sizes -/

/-- A size to which the items of an array and the members of an object add theirs. The rest depends
on the number of the items, and on the keys. -/
structure Additive (size : Value → ℕ) : Prop where
  array : ∃ frame : ℕ → ℕ, ∀ items,
    size (.array items) = frame items.length + (items.map size).sum
  object : ∃ frame : List String → ℕ, ∀ m : Map Value,
    size (.object m) = frame (m.map Prod.fst) + (m.map fun e => size e.2).sum

/-- An insertion of a new key adds its entry somewhere. -/
theorem Map.insert_perm {α : Type} {m : Map α} {k : String} (h : m.get k = none) (v : α) :
    (m.insert k v).Perm ((k, v) :: m) := by
  induction m with
  | nil => exact .refl _
  | cons e m ih =>
    obtain ⟨k', v'⟩ := e
    rw [Map.get] at h
    rw [Map.insert]
    split_ifs at h ⊢ with hk
    · exact .refl _
    · exact ((ih h).cons _).trans (.swap _ _ _)

/-- A map that is built from entries with different keys has these entries. -/
theorem Map.ofEntries_perm {α : Type} {entries : List (String × α)}
    (h : (entries.map Prod.fst).Nodup) : (Map.ofEntries entries).Perm entries := by
  induction entries using List.reverseRecOn with
  | nil => exact .refl _
  | append_singleton entries e ih =>
    rw [List.map_append, List.nodup_append] at h
    obtain ⟨hentries, -, hdisjoint⟩ := h
    have hfresh : (Map.ofEntries entries).get e.1 = none := by
      refine Map.get_ofEntries_of_notMem fun e' he' heq => ?_
      exact hdisjoint e'.1 (List.mem_map_of_mem he') e.1 (by simp) heq
    rw [Map.ofEntries_concat]
    exact (Map.insert_perm hfresh e.2).trans
      (((ih hentries).cons e).trans (List.perm_append_singleton e entries).symm)

/-- Replacing a member changes the sum of the sizes by that of the member. -/
theorem Map.sum_set {size : Value → ℕ} {m : Map Value} {k : String} {x : Value} (h : m.get k = some x)
    (y : Value) : ((m.set k y).map fun e => size e.2).sum + size x =
      (m.map fun e => size e.2).sum + size y := by
  induction m with
  | nil => cases h
  | cons e m ih =>
    obtain ⟨k', v⟩ := e
    rw [Map.get] at h
    rw [Map.set]
    split_ifs at h ⊢ with hk
    · cases h
      simp only [List.map_cons, List.sum_cons]
      omega
    · have hrest := ih h
      simp only [List.map_cons, List.sum_cons]
      omega

section

variable (marked : Node → Bool)

/-- The number of the fields of a document that hold a marked node. -/
def markCount (fields : Value → List Path) (v : Value) : ℕ :=
  (fields v).countP fun p => (v.nodeAt p).any marked

variable (size : Value → ℕ) (a b : ℕ)

/-- An edit that replaces the marked nodes of its fields, which have the size `a`, by nodes of the
size `b`. -/
structure Resizes (edit : Edit) (fields : Value → List Path) : Prop where
  resized : ∀ {v w changed}, edit v = .ok (w, changed) →
    size w + a * markCount marked fields v = size v + b * markCount marked fields v

variable {marked size a b} {edit edit' : Edit} {fields fields' : Value → List Path}

/-- Doing nothing resizes no field. -/
theorem resizes_skip : Resizes marked size a b skip (fun _ => []) := by
  refine ⟨fun {v w changed} hok => ?_⟩
  cases hok
  rfl

/-- An edit of a document at its root. -/
theorem resizes_root (h : ∀ {v w changed}, edit v = .ok (w, changed) →
      size w + (if marked v.node then a else 0) = size v + (if marked v.node then b else 0)) :
    Resizes marked size a b edit (fun _ => [[]]) := by
  refine ⟨fun {v w changed} hok => ?_⟩
  have hsize := h hok
  cases hnode : marked v.node with
  | true =>
    have hcount : markCount marked (fun _ => [[]]) v = 1 := by simp [markCount, hnode]
    rw [hnode, if_pos rfl, if_pos rfl] at hsize
    rw [hcount, Nat.mul_one, Nat.mul_one, hsize]
  | false =>
    have hcount : markCount marked (fun _ => [[]]) v = 0 := by simp [markCount, hnode]
    rw [hnode, if_neg Bool.false_ne_true, if_neg Bool.false_ne_true] at hsize
    rw [hcount, Nat.mul_zero, Nat.mul_zero, hsize]

/-- There are no marks below a key that is missing. -/
theorem markCount_keyFields_none {k : String} {v : Value} (hget : v.get k = none) :
    markCount marked (keyFields k fields) v = 0 := by
  refine List.countP_eq_zero.mpr fun p hp => ?_
  obtain ⟨q, -, rfl⟩ := mem_keyFields.mp hp
  rw [Value.nodeAt_cons, Value.child, hget]
  exact Bool.false_ne_true

/-- Below a key stand the fields of the member. -/
theorem markCount_keyFields_some {k : String} {v x : Value} (hget : v.get k = some x) :
    markCount marked (keyFields k fields) v = markCount marked fields x := by
  unfold markCount keyFields
  rw [List.countP_map, hget, Option.getD_some]
  refine List.countP_congr fun q _ => ?_
  rw [Function.comp_apply, Value.nodeAt_cons, Value.child, hget]
  rfl

/-- The fields of the items of an array. -/
theorem markCount_itemFields (items : List Value) :
    markCount marked (itemFields fields) (.array items) = (items.map (markCount marked fields)).sum := by
  have hzip (pairs : List (Value × ℕ)) (h : ∀ e ∈ pairs, items[e.2]? = some e.1) :
      (pairs.flatMap fun e => (fields e.1).map (.index e.2 :: ·)).countP
        (fun p => ((Value.array items).nodeAt p).any marked) =
          (pairs.map fun e => markCount marked fields e.1).sum := by
    induction pairs with
    | nil => rfl
    | cons e pairs ih =>
      obtain ⟨he, hpairs⟩ := List.forall_mem_cons.mp h
      rw [List.flatMap_cons, List.countP_append, ih hpairs, List.map_cons, List.sum_cons,
        List.countP_map]
      congr 1
      refine List.countP_congr fun q _ => ?_
      rw [Function.comp_apply, Value.nodeAt_cons, Value.child, Value.asArray_array,
        Option.bind_some, he]
      rfl
  have hindex : ∀ e ∈ items.zipIdx, items[e.2]? = some e.1 := fun e he =>
    List.mem_zipIdx_iff_getElem?.mp he
  have hitems : (items.zipIdx.map fun e => markCount marked fields e.1) =
      items.map (markCount marked fields) := by
    conv_rhs => rw [← List.zipIdx_map_fst 0 items, List.map_map]
    rfl
  exact (hzip items.zipIdx hindex).trans (congrArg List.sum hitems)

/-- The marks of two families of fields. -/
theorem markCount_append (v : Value) : markCount marked (fun v => fields v ++ fields' v) v =
    markCount marked fields v + markCount marked fields' v :=
  List.countP_append

/-- An edit of the member at a key. -/
theorem Resizes.atKey (hsize : Additive size) (h : Resizes marked size a b edit fields)
    (k : String) : Resizes marked size a b (atKey k edit) (keyFields k fields) := by
  refine ⟨fun {v w changed} hok => ?_⟩
  cases hget : v.get k with
  | none =>
    rw [atKey_of_none hget] at hok
    cases hok
    rw [markCount_keyFields_none hget]
    rfl
  | some x =>
    obtain ⟨m, rfl, hm, hedit⟩ := atKey_of_some hget edit
    rw [hedit] at hok
    cases hx : edit x with
    | error reason =>
      rw [hx] at hok
      cases hok
    | ok r =>
      rw [hx] at hok
      cases hok
      obtain ⟨frame, hframe⟩ := hsize.object
      have hmember := h.resized hx
      have hset : ((Map.set m k r.1).map fun e => size e.2).sum + size x =
          (m.map fun e => size e.2).sum + size r.1 := Map.sum_set hm r.1
      rw [markCount_keyFields_some hget, hframe, hframe, Map.keys_set]
      omega

/-- An edit of the items of an array. -/
theorem Resizes.eachItem (hsize : Additive size) (h : Resizes marked size a b edit fields) :
    Resizes marked size a b (eachItem edit) (itemFields fields) := by
  have hitems {vs ws : List Value} {changed : Bool} (hok : editItems edit vs = .ok (ws, changed)) :
      ws.length = vs.length ∧ (ws.map size).sum + a * (vs.map (markCount marked fields)).sum =
        (vs.map size).sum + b * (vs.map (markCount marked fields)).sum := by
    induction vs generalizing ws changed with
    | nil =>
      cases hok
      exact ⟨rfl, rfl⟩
    | cons v vs ih =>
      rw [editItems] at hok
      cases hv : edit v with
      | error reason =>
        rw [hv] at hok
        cases hok
      | ok r =>
        cases hvs : editItems edit vs with
        | error reason =>
          rw [hv, hvs] at hok
          cases hok
        | ok rs =>
          rw [hv, hvs] at hok
          cases hok
          obtain ⟨hlength, hrest⟩ := ih hvs
          -- The sizes of the items add up, and so do their marks.
          have hfirst := h.resized hv
          refine ⟨by rw [List.length_cons, List.length_cons, hlength], ?_⟩
          simp only [List.map_cons, List.sum_cons, Nat.mul_add]
          omega
  refine ⟨fun {v w changed} hok => ?_⟩
  cases v with
  | array items =>
    unfold Json.eachItem at hok
    dsimp only at hok
    cases hvs : editItems edit items with
    | error reason =>
      rw [hvs] at hok
      cases hok
    | ok rs =>
      rw [hvs] at hok
      cases hok
      obtain ⟨frame, hframe⟩ := hsize.array
      obtain ⟨hlength, hsum⟩ := hitems hvs
      rw [markCount_itemFields, hframe, hframe, hlength]
      omega
  | null | bool | number | string | object =>
    cases hok
    rfl

/-- Edits of two members. -/
theorem Resizes.atKeys (hsize : Additive size) (h : Resizes marked size a b edit fields)
    (h' : Resizes marked size a b edit' fields') {k k' : String} (hne : k' ≠ k) :
    Resizes marked size a b (andThen (Json.atKey k edit) (Json.atKey k' edit'))
      (fun v => keyFields k fields v ++ keyFields k' fields' v) := by
  refine ⟨fun {v w changed} hok => ?_⟩
  obtain ⟨u, c, c', hv, hu, -⟩ := andThen_ok hok
  have hfirst := (h.atKey hsize k).resized hv
  have hsecond := (h'.atKey hsize k').resized hu
  -- The first edit leaves the member that the second one visits.
  have hsame : markCount marked (keyFields k' fields') u = markCount marked (keyFields k' fields') v := by
    have hget := atKey_get hne hv
    cases hmember : v.get k' with
    | none => rw [markCount_keyFields_none hmember, markCount_keyFields_none (hget.trans hmember)]
    | some x => rw [markCount_keyFields_some hmember, markCount_keyFields_some (hget.trans hmember)]
  rw [hsame] at hsecond
  rw [markCount_append, Nat.mul_add, Nat.mul_add]
  omega

/-- An edit that is chosen by a part of the document. -/
theorem Resizes.choose {σ : Type} (select : Value → σ) {edits : σ → Edit}
    {fields : σ → Value → List Path} (h : ∀ s, Resizes marked size a b (edits s) (fields s)) :
    Resizes marked size a b (fun v => edits (select v) v) (fun v => fields (select v) v) :=
  ⟨fun {v _ _} hok => (h (select v)).resized hok⟩

end

/-! ## The bytes of a printed document -/

namespace Serde

variable (serde : Serde)

/-- The bytes of the compact text of a document. -/
def printedSize (v : Value) : ℕ := (serde.toString v).utf8ByteSize

/-- What the code relies on when it re-encodes what it has read: a compact text has the brackets,
the commas, and the colons of its document, and its strings and integers as they are usually
written. Nothing is assumed of the digits of a double. -/
structure Itemized : Prop where
  null : serde.printedSize .null = 4
  bool : ∀ b : Bool, serde.printedSize (.bool b) = if b then 4 else 5
  posInt : ∀ n, serde.printedSize (.ofNat n) = (Nat.toDigits 10 n).length
  negInt : ∀ n, serde.printedSize (.number (.negInt n)) = (Nat.toDigits 10 (n + 1)).length + 1
  string : ∀ s, serde.printedSize (.string s) = escapedSize s
  array : ∀ items, serde.printedSize (.array items) =
    2 + (items.length - 1) + (items.map serde.printedSize).sum
  object : ∀ m : Map Value, serde.printedSize (.object m) =
    2 + (m.length - 1) + (m.map fun e => escapedSize e.1 + 1 + serde.printedSize e.2).sum

/-- The size of an object that is built from entries with different keys. -/
theorem Itemized.obj {serde : Serde} (h : serde.Itemized) {entries : List (String × Value)}
    (hkeys : (entries.map Prod.fst).Nodup) : serde.printedSize (.obj entries) =
      2 + (entries.length - 1) +
        (entries.map fun e => escapedSize e.1 + 1 + serde.printedSize e.2).sum := by
  have hperm := Map.ofEntries_perm hkeys
  rw [Value.obj, h.object, hperm.length_eq, (hperm.map _).sum_eq]

/-- The printed size is additive. -/
theorem Itemized.additive {serde : Serde} (h : serde.Itemized) : Additive serde.printedSize where
  array := ⟨fun n => 2 + (n - 1), h.array⟩
  object := by
    refine ⟨fun keys => 2 + (keys.length - 1) + (keys.map fun k => escapedSize k + 1).sum,
      fun m => ?_⟩
    have hsum : (m.map fun e => escapedSize e.1 + 1 + serde.printedSize e.2).sum =
        ((m.map Prod.fst).map fun k => escapedSize k + 1).sum +
          (m.map fun e => serde.printedSize e.2).sum := by
      induction m with
      | nil => rfl
      | cons e m ih =>
        simp only [List.map_cons, List.sum_cons, ih]
        omega
    dsimp only
    rw [h.object, hsum, List.length_map, Nat.add_assoc (2 + (m.length - 1))]

end Serde

namespace Compact

open String (utf8Len)

/-- The size of printed items is that of each, with a comma or a bracket. -/
theorem utf8Len_printItems_eq (vs : List Value) :
    utf8Len (printItems vs) = 1 + vs.length + (vs.map fun v => utf8Len (print v)).sum := by
  have hcomma : ','.utf8Size = 1 := by decide
  have hbracket : utf8Len [']'] = 1 := by decide
  induction vs with
  | nil => exact hbracket
  | cons v vs ih =>
    rw [printItems, List.cons_append, String.utf8Len_cons, String.utf8Len_append, ih, hcomma,
      List.length_cons, List.map_cons, List.sum_cons]
    omega

/-- The size of printed members is that of each, with its key. -/
theorem utf8Len_printEntries_eq (m : Map Value) :
    utf8Len (printEntries m) =
      1 + m.length + (m.map fun e => escapedSize e.1 + 1 + utf8Len (print e.2)).sum := by
  have hcomma : ','.utf8Size = 1 := by decide
  have hcolon : ':'.utf8Size = 1 := by decide
  have hbrace : utf8Len ['\x7d'] = 1 := by decide
  induction m with
  | nil => exact hbrace
  | cons e m ih =>
    obtain ⟨k, v⟩ := e
    have hkey : utf8Len (printString k) = escapedSize k := quoted_eq_escapedSize k
    simp only [printEntries, List.cons_append, String.utf8Len_cons, String.utf8Len_append, ih,
      hcomma, hcolon, hkey, List.length_cons, List.map_cons, List.sum_cons]
    omega

/-- The printer prints what `Itemized` says. -/
theorem itemized : serde.Itemized where
  null := by decide
  bool := by decide
  posInt n := (utf8ByteSize_toString _).trans (utf8Len_printNat n)
  negInt n := by
    have hsign : '-'.utf8Size = 1 := by decide
    rw [Serde.printedSize, utf8ByteSize_toString, print, printNumber, String.utf8Len_cons,
      utf8Len_printNat, hsign]
  string s := (utf8ByteSize_toString _).trans (quoted_eq_escapedSize s)
  array items := by
    have hbracket : '['.utf8Size = 1 := by decide
    have hsize : serde.printedSize = fun v => utf8Len (print v) :=
      funext fun v => utf8ByteSize_toString v
    rw [hsize]
    cases items with
    | nil => decide
    | cons v vs =>
      dsimp only
      rw [print, List.cons_append, String.utf8Len_cons, String.utf8Len_append,
        utf8Len_printItems_eq, hbracket, List.length_cons, List.map_cons, List.sum_cons]
      omega
  object m := by
    have hbrace : '\x7b'.utf8Size = 1 := by decide
    have hcolon : ':'.utf8Size = 1 := by decide
    have hsize : serde.printedSize = fun v => utf8Len (print v) :=
      funext fun v => utf8ByteSize_toString v
    rw [hsize]
    cases m with
    | nil => decide
    | cons e m =>
      obtain ⟨k, v⟩ := e
      have hkey : utf8Len (printString k) = escapedSize k := quoted_eq_escapedSize k
      simp only [print, List.cons_append, String.utf8Len_cons, String.utf8Len_append,
        utf8Len_printEntries_eq, hbrace, hcolon, hkey, List.length_cons, List.map_cons,
        List.sum_cons]
      omega

end Compact

end MuseCodex.Json
