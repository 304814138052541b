import MuseCodex.Transport.Namespaces

/-!
# The items of a normalized request

What is done to the input of a request, one item at a time. An item is an object of a known type. If
it is a message, its content is put into parts first (`normalizeMessageItem_eq_ok`); then the
library reads it and writes it again, and only the namespace and the name may change after that
(`normalizeResponseItem_eq_ok`).
-/

namespace MuseCodex.Transport

open Text Json Fallible

/-! ## Parts -/

/-- The type of the texts on one side of the conversation. -/
def textType (assistant : Bool) : String := if assistant then "output_text" else "input_text"

/-- The parts that the content of a message stands for. -/
def contentParts (assistant : Bool) : Value → Option (List Value)
  | .string text =>
    some [.obj [("type", .string (textType assistant)), ("text", .string text)]]
  | .array parts => some parts
  | _ => none

/-- What becomes of a part: a text gets the type of its side, an image gets the type of images, and
an image that has it stays as it is, unless it is the assistant's. -/
theorem normalizeContentPart_cases {part part' : Value} {assistant : Bool} {i j : ℕ}
    (h : normalizeContentPart part assistant i j = .ok part') :
    (textAt part "type" ≠ some "image_url" ∧ textAt part' "type" = some (textType assistant) ∧
      ∃ text, part'.get "text" = some (.string text)) ∨
    (textAt part "type" = some "image_url" ∧ textAt part' "type" = some "input_image") ∨
    (textAt part "type" = some "input_image" ∧ assistant = false ∧ part' = part) := by
  unfold normalizeContentPart at h
  unfold textAt
  cases part with
  | object object =>
    rw [Value.asObject_object] at h
    dsimp only at h
    -- A text of any sort, whose type is set.
    have htext (hkind : (Map.get object "type").bind Value.asStr ≠ some "image_url")
        (h : (if !(Map.get object "text").any Value.isString then
            Except.error (partPlace i j ++ " has no string text")
          else .ok (.object (Map.insert object "type" (.string (textType assistant))))) =
            .ok part') :
        ((Value.object object).get "type").bind Value.asStr ≠ some "image_url" ∧
          (part'.get "type").bind Value.asStr = some (textType assistant) ∧
          ∃ text, part'.get "text" = some (.string text) := by
      split_ifs at h with hmissing
      cases h
      refine ⟨hkind, by simp, ?_⟩
      rw [Bool.not_eq_true', Bool.not_eq_false, Option.any_eq_true] at hmissing
      obtain ⟨v, hv, hstring⟩ := hmissing
      obtain ⟨text, htext⟩ := Option.isSome_iff_exists.mp hstring
      rw [Value.asStr_eq_some htext] at hv
      exact ⟨text, by simpa using hv⟩
    split at h
    · cases h
    iterate 3
      · rename_i hkind
        exact .inl (htext (by rw [hkind]; decide) h)
    · rename_i hkind
      split at h
      · cases h
      · obtain ⟨object', -, h⟩ := bind_eq_ok.mp h
        cases h
        exact .inr (.inl ⟨hkind, by simp⟩)
    · rename_i hkind
      split_ifs at h with hassistant
      cases h
      exact .inr (.inr ⟨hkind, by simpa using hassistant, rfl⟩)
    · cases h
  | _ => cases h

/-- The roles of messages. -/
def messageRoles : List String := ["assistant", "developer", "system", "user"]

/-- What the normalization of a message needs and does. -/
theorem normalizeMessageItem_eq_ok {object object' : Map Value} {index : ℕ} :
    normalizeMessageItem object index = .ok object' ↔
      ∃ role content parts parts', textAt (.object object) "role" = some role ∧
        role ∈ messageRoles ∧ object.get "content" = some content ∧
        contentParts (role = "assistant") content = some parts ∧
        (parts.zipIdx.mapM fun part =>
          normalizeContentPart part.1 (role = "assistant") index part.2) = .ok parts' ∧
        object' = object.insert "content" (.array parts') := by
  unfold normalizeMessageItem
  have hrole : (object.get "role").bind Value.asStr = textAt (.object object) "role" := rfl
  rw [hrole]
  cases textAt (.object object) "role" with
  | none =>
    refine ⟨(fun h => by cases h), ?_⟩
    rintro ⟨_, _, _, _, h, -⟩
    cases h
  | some role =>
    change (if role ∉ messageRoles then _ else _) = _ ↔ _
    by_cases hrole : role ∈ messageRoles
    · rw [if_neg (not_not_intro hrole)]
      cases hcontent : object.get "content" with
      | none =>
        refine ⟨(fun h => by cases h), ?_⟩
        rintro ⟨_, _, _, _, -, -, h, -⟩
        cases h
      | some content =>
        dsimp only
        -- Once the parts are known, they are normalized and take the place of the content.
        have hbuilt {parts : List Value} (hparts : contentParts (role = "assistant") content =
            some parts) : (do
              let parts ← parts.zipIdx.mapM fun (part : Value × ℕ) =>
                normalizeContentPart part.1 (role = "assistant") index part.2
              return object.insert "content" (.array parts)) = Except.ok object' ↔
            ∃ role' content' parts parts', some role = some role' ∧ role' ∈ messageRoles ∧
              some content = some content' ∧
              contentParts (role' = "assistant") content' = some parts ∧
              (parts.zipIdx.mapM fun part =>
                normalizeContentPart part.1 (role' = "assistant") index part.2) = .ok parts' ∧
              object' = object.insert "content" (.array parts') := by
          rw [bind_eq_ok]
          constructor
          · rintro ⟨parts', hrun, h⟩
            cases h
            exact ⟨role, content, parts, parts', rfl, hrole, rfl, hparts, hrun, rfl⟩
          · rintro ⟨role', content', parts₁, parts', hsame, -, hsame', hparts₁, hrun, rfl⟩
            cases hsame
            cases hsame'
            cases hparts.symm.trans hparts₁
            exact ⟨parts', hrun, rfl⟩
        cases content with
        | string text => exact hbuilt rfl
        | array parts => exact hbuilt rfl
        | _ =>
          refine ⟨(fun h => by cases h), ?_⟩
          rintro ⟨_, _, _, _, hsame, -, hsame', hparts, -⟩
          cases hsame'
          cases hparts
    · rw [if_pos hrole]
      refine ⟨(fun h => by cases h), ?_⟩
      rintro ⟨role', -, -, -, hsame, hknown, -⟩
      cases hsame
      exact absurd hknown hrole

/-! ## Items -/

section

variable {items : ItemLibrary}

/-- What the normalization of an item needs and does. -/
theorem normalizeResponseItem_eq_ok {item normalized : Value} {index : ℕ}
    {calls : NamespaceCallMap} :
    normalizeResponseItem items item index calls = .ok normalized ↔
      ∃ object type object' written, item = .object object ∧
        textAt item "type" = some type ∧ type ∈ itemTypes ∧
        (if type = "message" then normalizeMessageItem object index else .ok object) =
          .ok object' ∧
        reserialize items (.object object') index = .ok written ∧
        normalized = removeResultName (restoreNamespace calls written) := by
  unfold normalizeResponseItem
  cases item with
  | object object =>
    rw [Value.asObject_object]
    dsimp only
    have htype : (Map.get object "type").bind Value.asStr = textAt (.object object) "type" := rfl
    rw [htype]
    cases textAt (.object object) "type" with
    | none =>
      refine ⟨(fun h => by cases h), ?_⟩
      rintro ⟨_, _, _, _, -, h, -⟩
      cases h
    | some type =>
      dsimp only
      by_cases htype : type ∈ itemTypes
      · -- The two sorts of items differ in their first step only.
        have hjoin (rest : Map Value → Except String Value) :
            (if type = "message" then normalizeMessageItem object index >>= rest
              else Except.ok object >>= rest) =
            (if type = "message" then normalizeMessageItem object index else .ok object) >>=
              rest := by
          split_ifs <;> rfl
        rw [if_neg (not_not_intro htype), hjoin, bind_eq_ok]
        constructor
        · rintro ⟨object', hmessage, h⟩
          obtain ⟨written, hwritten, h⟩ := bind_eq_ok.mp h
          cases h
          exact ⟨object, type, object', written, rfl, rfl, htype, hmessage, hwritten, rfl⟩
        · rintro ⟨object₁, type', object', written, hsame, hsame', -, hmessage, hwritten, rfl⟩
          cases hsame
          cases hsame'
          exact ⟨object', hmessage, bind_eq_ok.mpr ⟨written, hwritten, rfl⟩⟩
      · rw [if_pos htype]
        refine ⟨(fun h => by cases h), ?_⟩
        rintro ⟨-, type', -, -, -, hsame, hknown, -⟩
        cases hsame
        exact absurd hknown htype
  | _ =>
    refine ⟨(fun h => by cases h), ?_⟩
    rintro ⟨_, _, _, _, h, -⟩
    cases h

/-- Restoring the namespace leaves all members alone but two. -/
theorem get_restoreNamespace (calls : NamespaceCallMap) (written : Value) {key : String}
    (hns : key ≠ "namespace") (hname : key ≠ "name") :
    (restoreNamespace calls written).get key = written.get key := by
  unfold restoreNamespace
  split
  · rw [Value.get_object, Map.get_insert, if_neg hname, Map.get_insert, if_neg hns,
      Value.get_object]
  · rfl

/-- Removing the name of a result leaves all other members alone. -/
theorem get_removeResultName (item : Value) {key : String} (hname : key ≠ "name") :
    (removeResultName item).get key = item.get key := by
  unfold removeResultName
  split
  · rw [Value.get_object, Map.get_erase, if_neg hname, Value.get_object]
  · rw [Value.get_object, Map.get_erase, if_neg hname, Value.get_object]
  · rfl

/-! ## The input -/

/-- The items that an input stands for. -/
def rawItems : Value → Option (List Value)
  | .string text => some [.obj [("type", .string "message"), ("role", .string "user"),
      ("content", .array [.obj [("type", .string "input_text"), ("text", .string text)]])]]
  | .array [] => none
  | .array inputItems => some inputItems
  | _ => none

/-- What the normalization of the input needs and does. -/
theorem normalizeResponseInput_eq_ok {input normalized : Value} {calls : NamespaceCallMap} :
    normalizeResponseInput items input calls = .ok normalized ↔
      ∃ raw normalizedItems, rawItems input = some raw ∧
        (raw.zipIdx.mapM fun item => normalizeResponseItem items item.1 item.2 calls) =
          .ok normalizedItems ∧ normalized = .array normalizedItems := by
  have hbuilt (raw : List Value) : (do
        let normalized ← raw.zipIdx.mapM fun (item : Value × ℕ) =>
          normalizeResponseItem items item.1 item.2 calls
        return Value.array normalized) = Except.ok normalized ↔
      ∃ raw' normalizedItems, some raw = some raw' ∧
        (raw'.zipIdx.mapM fun item => normalizeResponseItem items item.1 item.2 calls) =
          .ok normalizedItems ∧ normalized = .array normalizedItems := by
    rw [bind_eq_ok]
    constructor
    · rintro ⟨normalizedItems, hrun, h⟩
      cases h
      exact ⟨raw, normalizedItems, rfl, hrun, rfl⟩
    · rintro ⟨raw', normalizedItems, hsame, hrun, rfl⟩
      cases hsame
      exact ⟨normalizedItems, hrun, rfl⟩
  unfold normalizeResponseInput
  cases input with
  | string text => exact hbuilt _
  | array inputItems =>
    cases inputItems with
    | nil => exact ⟨nofun, fun ⟨_, _, h, _⟩ => nomatch h⟩
    | cons first rest => exact hbuilt _
  | _ => exact ⟨nofun, fun ⟨_, _, h, _⟩ => nomatch h⟩

/-- The input of a request, before and after. -/
theorem normalizeInput_eq_ok {calls : NamespaceCallMap} {object object' : Map Value} :
    normalizeInput items calls object = .ok object' ↔
      ∃ input raw normalizedItems, object.get "input" = some input ∧ rawItems input = some raw ∧
        (raw.zipIdx.mapM fun item => normalizeResponseItem items item.1 item.2 calls) =
          .ok normalizedItems ∧
        object' = (object.erase "input").insert "input" (.array normalizedItems) := by
  unfold normalizeInput
  cases object.get "input" with
  | none => exact ⟨nofun, fun ⟨_, _, _, h, _⟩ => nomatch h⟩
  | some input =>
    dsimp only
    rw [bind_eq_ok]
    constructor
    · rintro ⟨normalized, hinput, h⟩
      cases h
      obtain ⟨raw, normalizedItems, hraw, hrun, rfl⟩ := normalizeResponseInput_eq_ok.mp hinput
      exact ⟨input, raw, normalizedItems, rfl, hraw, hrun, rfl⟩
    · rintro ⟨input', raw, normalizedItems, hsame, hraw, hrun, rfl⟩
      cases hsame
      exact ⟨_, normalizeResponseInput_eq_ok.mpr ⟨raw, normalizedItems, hraw, hrun, rfl⟩, rfl⟩

end

end MuseCodex.Transport
