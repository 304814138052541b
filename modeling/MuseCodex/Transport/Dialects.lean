import Mathlib.Data.List.Forall2
import MuseCodex.Fallible
import MuseCodex.Json.Compact
import MuseCodex.Transport.Request

/-!
# The two dialects of the request to Codex

Responses Lite is a re-placement of the standard request: the tools and the instructions become
items at the start of the input, and nothing else changes but the details of images, the permission
of parallel calls and the context of the reasoning (`normalizeResponsesRequest_lite`).

It is not accepted as often, though. The standard dialect takes a reasoning that is null, and it
takes a namespace of functions without tools; Responses Lite refuses both, and it refuses nothing
else that the standard dialect takes (`normalizeResponsesRequest_accepts`).
-/

namespace MuseCodex.Transport

open Text Json Fallible

/-! ## What Responses Lite does -/

/-- A content part without the detail of an image. -/
def WithoutDetail (part part' : Value) : Prop :=
  if (part.get "type").bind Value.asStr = some "input_image" then
    part'.get "detail" = none ∧ ∀ key, key ≠ "detail" → part'.get key = part.get key
  else part' = part

/-- The member of an item that may hold images. -/
def imageKey (item : Value) : Option String :=
  match (item.get "type").bind Value.asStr with
  | some "message" => some "content"
  | some "function_call_output" | some "custom_tool_call_output" => some "output"
  | _ => none

/-- An item without the details of the images in a member. -/
structure StripsAt (key : String) (item item' : Value) : Prop where
  others : ∀ key', key' ≠ key → item'.get key' = item.get key'
  parts : ∀ parts, item.get key = some (.array parts) →
    ∃ parts', List.Forall₂ WithoutDetail parts parts' ∧ item'.get key = some (.array parts')
  /-- A member without parts stays. -/
  text : (∀ parts, item.get key ≠ some (.array parts)) → item'.get key = item.get key

/-- An item without the details of its images, and otherwise the same. -/
def SameButDetails (item item' : Value) : Prop :=
  match imageKey item with
  | none => item' = item
  | some key => StripsAt key item item'

/-- A request in the dialect of Responses Lite, compared with the same request in the standard
dialect. -/
structure Replaces (standard lite : Value) : Prop where
  instructions : lite.get "instructions" = none
  tools : lite.get "tools" = none
  /-- The input starts with the tools and the instructions. -/
  input : ∃ tools grouped instructions items items' toolsId messageId,
    standard.get "tools" = some (.array tools) ∧ groupResponsesLiteTools tools = .ok grouped ∧
      standard.get "instructions" = some (.string instructions) ∧
      standard.get "input" = some (.array items) ∧ List.Forall₂ SameButDetails items items' ∧
      lite.get "input" = some (.array (additionalTools toolsId grouped ::
        ((if instructions = "" then [] else [developerMessage messageId instructions]) ++ items')))
  parallelToolCalls : lite.get "parallel_tool_calls" = some (.bool false)
  /-- The reasoning goes over all turns. -/
  reasoning : ∃ reasoning, (standard.get "reasoning").getD (.object []) = .object reasoning ∧
    lite.get "reasoning" = some (.object (Map.insert reasoning "context" (.string "all_turns")))
  others : ∀ key, key ∉ ["instructions", "tools", "input", "parallel_tool_calls", "reasoning"] →
    lite.get key = standard.get key

/-- The detail of an image is removed from a part, and nothing else. -/
theorem stripImageDetail_withoutDetail (part : Value) :
    WithoutDetail part (stripImageDetail part) := by
  unfold WithoutDetail stripImageDetail
  split_ifs with himage
  · cases part with
    | object object =>
      simp only [himage]
      refine ⟨?_, fun key hkey => ?_⟩
      · rw [Value.get_object, Map.get_erase, if_pos rfl]
      · rw [Value.get_object, Map.get_erase, if_neg hkey, Value.get_object]
    | _ => simp [Value.get] at himage
  · split
    · rename_i himage'
      exact absurd himage' himage
    · rfl

/-- The details are removed from the parts of a member, and nothing else. -/
theorem stripImageDetailsFromParts_stripsAt (key : String) (item : Value) :
    StripsAt key item (stripImageDetailsFromParts key item) := by
  unfold stripImageDetailsFromParts
  cases item with
  | object object =>
    dsimp only
    split
    · rename_i parts hparts
      refine ⟨fun key' hne => ?_, fun parts' hparts' => ?_, fun hnot => ?_⟩
      · rw [Value.get_object, Map.get_insert, if_neg hne, Value.get_object]
      · cases hparts.symm.trans hparts'
        refine ⟨parts.map stripImageDetail, ?_, ?_⟩
        · rw [List.forall₂_map_right_iff, List.forall₂_same]
          exact fun part _ => stripImageDetail_withoutDetail part
        · rw [Value.get_object, Map.get_insert, if_pos rfl]
      · exact absurd hparts (hnot parts)
    · rename_i hnot
      exact ⟨fun _ _ => rfl, fun parts hparts => absurd hparts (hnot parts), fun _ => rfl⟩
  | _ => exact ⟨fun _ _ => rfl, nofun, fun _ => rfl⟩

/-- Removing the details of images does nothing else to an item. -/
theorem stripResponsesLiteImageDetails_same (item : Value) :
    SameButDetails item (stripResponsesLiteImageDetails item) := by
  have hcases : (∃ key, imageKey item = some key ∧
        stripResponsesLiteImageDetails item = stripImageDetailsFromParts key item) ∨
      (imageKey item = none ∧ stripResponsesLiteImageDetails item = item) := by
    unfold imageKey
    split
    · rename_i htype
      refine .inl ⟨_, rfl, ?_⟩
      simp only [stripResponsesLiteImageDetails, htype]
    · rename_i htype
      refine .inl ⟨_, rfl, ?_⟩
      simp only [stripResponsesLiteImageDetails, htype]
    · rename_i htype
      refine .inl ⟨_, rfl, ?_⟩
      simp only [stripResponsesLiteImageDetails, htype]
    · refine .inr ⟨rfl, ?_⟩
      unfold stripResponsesLiteImageDetails
      split
      · contradiction
      · contradiction
      · contradiction
      · rfl
  unfold SameButDetails
  rcases hcases with ⟨key, hkey, hstrip⟩ | ⟨hkey, hstrip⟩
  · rw [hkey, hstrip]
    exact stripImageDetailsFromParts_stripsAt key item
  · rw [hkey, hstrip]

/-- The request in the dialect, with its instructions, its grouped tools, its items and its
reasoning. -/
def liteObject (serde : Serde) (sha256 : Bytes → Bytes) (requestNamespace : String)
    (object : Map Value) (instructions : String) (grouped items : List Value)
    (reasoning : Map Value) : Map Value :=
  let start := additionalTools
      (stablePrefixItemId serde sha256 "at" requestNamespace (.array grouped)) grouped ::
    if instructions = "" then []
    else [developerMessage (stablePrefixItemId serde sha256 "msg" requestNamespace
      (.string instructions)) instructions]
  ((((object.erase "instructions").erase "tools").insert "input"
    (.array (start ++ items.map stripResponsesLiteImageDetails))).insert "parallel_tool_calls"
      (.bool false)).insert "reasoning"
        (.object (reasoning.insert "context" (.string "all_turns")))

/-- What the dialect needs of a request, and what it makes of it. -/
theorem normalizeResponsesLiteRequest_eq_ok {serde : Serde} {sha256 : Bytes → Bytes}
    {object lite : Map Value} {requestNamespace : String} :
    normalizeResponsesLiteRequest serde sha256 object requestNamespace = .ok lite ↔
      ∃ instructions tools grouped items reasoning,
        object.get "instructions" = some (.string instructions) ∧
        object.get "tools" = some (.array tools) ∧ groupResponsesLiteTools tools = .ok grouped ∧
        object.get "input" = some (.array items) ∧
        (object.get "reasoning").getD (.object []) = .object reasoning ∧
        lite = liteObject serde sha256 requestNamespace object instructions grouped items
          reasoning := by
  have htools (key : String) (hkey : key ≠ "instructions") :
      (object.erase "instructions").get key = object.get key := by
    rw [Map.get_erase, if_neg hkey]
  -- What is taken out first hides nothing that is read afterwards.
  have hkept (key : String) (hinstructions : key ≠ "instructions") (hne : key ≠ "tools") :
      ((object.erase "instructions").erase "tools").get key = object.get key := by
    rw [Map.get_erase, if_neg hne, htools key hinstructions]
  unfold normalizeResponsesLiteRequest
  dsimp only
  rw [htools "tools" (by decide), hkept "input" (by decide) (by decide)]
  simp only [Map.get_insert, hkept "reasoning" (by decide) (by decide),
    show ("reasoning" = "parallel_tool_calls") = False by simp,
    show ("reasoning" = "input") = False by simp, if_false]
  constructor
  · intro h
    split at h
    · cases h
    · rename_i instructions hinstructions
      split at h
      · cases h
      · rename_i tools htools
        obtain ⟨grouped, hgrouped, h⟩ := bind_eq_ok.mp h
        split at h
        · cases h
        · rename_i items hitems
          split at h
          · rename_i reasoning hreasoning
            cases h
            obtain ⟨v, hv, hstr⟩ := Option.bind_eq_some_iff.mp hinstructions
            obtain ⟨w, hw, harray⟩ := Option.bind_eq_some_iff.mp htools
            obtain ⟨x, hx, hitems⟩ := Option.bind_eq_some_iff.mp hitems
            rw [Value.asStr_eq_some hstr] at hv
            rw [Value.asArray_eq_some harray] at hw
            rw [Value.asArray_eq_some hitems] at hx
            exact ⟨instructions, tools, grouped, items, reasoning, hv, hw, hgrouped, hx,
              hreasoning, rfl⟩
          · cases h
  · rintro ⟨instructions, tools, grouped, items, reasoning, hinstructions, htools, hgrouped,
      hitems, hreasoning, rfl⟩
    rw [hinstructions, htools, hitems, hreasoning]
    simp only [Option.bind_some, Value.asStr_string, Value.asArray_array, hgrouped]
    rfl

/-- The members of a request in the dialect. -/
theorem get_liteObject (serde : Serde) (sha256 : Bytes → Bytes) (requestNamespace : String)
    (object : Map Value) (instructions : String) (grouped items : List Value)
    (reasoning : Map Value) {key : String}
    (hkey : key ∉ ["instructions", "tools", "input", "parallel_tool_calls", "reasoning"]) :
    (liteObject serde sha256 requestNamespace object instructions grouped items reasoning).get key =
      object.get key := by
  simp only [List.mem_cons, List.not_mem_nil, or_false, not_or] at hkey
  obtain ⟨hinstructions, htools, hinput, hparallel, hreasoning⟩ := hkey
  rw [liteObject, Map.get_insert, if_neg hreasoning, Map.get_insert, if_neg hparallel,
    Map.get_insert, if_neg hinput, Map.get_erase, if_neg htools, Map.get_erase,
    if_neg hinstructions]

/-! ## The dialects compared -/

section

variable (serde : Serde) (sha256 : Bytes → Bytes) (items : ItemLibrary)

/-- A normalized request, with the members that every request has. -/
def stored (object : Map Value) : Value :=
  .object ((object.insert "store" (.bool false)).insert "stream" (.bool true))

/-- A stored request streams and is not kept, and has its other members. -/
theorem get_stored (object : Map Value) (key : String) :
    (stored object).get key = if key = "stream" then some (.bool true)
      else if key = "store" then some (.bool false) else object.get key := by
  rw [stored, Value.get_object, Map.get_insert, Map.get_insert]

/-- A request in the standard dialect is what both dialects share. -/
theorem normalizeResponsesRequest_standard {body : Value} {apiKeyAuth : Bool}
    {requestNamespace : Option String} {standard : Value} :
    normalizeResponsesRequest serde sha256 items body apiKeyAuth false requestNamespace =
        .ok standard ↔
      ∃ object, normalizeMembers items body apiKeyAuth = .ok object ∧ standard = stored object := by
  unfold normalizeResponsesRequest
  rw [bind_eq_ok]
  refine exists_congr fun object => and_congr_right fun _ => ?_
  constructor
  · intro h
    cases h
    rfl
  · rintro rfl
    rfl

/-- A request in Responses Lite is that, put into the dialect. -/
theorem normalizeResponsesRequest_true {body : Value} {apiKeyAuth : Bool}
    {requestNamespace : Option String} {lite : Value} :
    normalizeResponsesRequest serde sha256 items body apiKeyAuth true requestNamespace = .ok lite ↔
      ∃ object requestNamespace' object', normalizeMembers items body apiKeyAuth = .ok object ∧
        requestNamespace = some requestNamespace' ∧
        normalizeResponsesLiteRequest serde sha256 object requestNamespace' = .ok object' ∧
        lite = stored object' := by
  unfold normalizeResponsesRequest
  rw [bind_eq_ok]
  refine exists_congr fun object => ?_
  rw [if_pos rfl]
  constructor
  · rintro ⟨hmembers, h⟩
    cases requestNamespace with
    | none => cases h
    | some requestNamespace' =>
      obtain ⟨object', hlite, h⟩ := bind_eq_ok.mp h
      cases h
      exact ⟨requestNamespace', object', hmembers, rfl, hlite, rfl⟩
  · rintro ⟨requestNamespace', object', hmembers, rfl, hlite, rfl⟩
    exact ⟨hmembers, bind_eq_ok.mpr ⟨object', hlite, rfl⟩⟩

/-- Responses Lite is a re-placement of the standard dialect. -/
theorem normalizeResponsesRequest_lite {body : Value} {apiKeyAuth : Bool}
    {requestNamespace : Option String} {standard lite : Value}
    (hstandard : normalizeResponsesRequest serde sha256 items body apiKeyAuth false
      requestNamespace = .ok standard)
    (hlite : normalizeResponsesRequest serde sha256 items body apiKeyAuth true requestNamespace =
      .ok lite) : Replaces standard lite := by
  obtain ⟨object, hmembers, rfl⟩ := (normalizeResponsesRequest_standard serde sha256 items).mp
    hstandard
  obtain ⟨object₁, requestNamespace', object', hmembers', -, hlite, rfl⟩ :=
    (normalizeResponsesRequest_true serde sha256 items).mp hlite
  cases hmembers.symm.trans hmembers'
  obtain ⟨instructions, tools, grouped, inputItems, reasoning, hinstructions, htools, hgrouped,
    hitems, hreasoning, rfl⟩ := normalizeResponsesLiteRequest_eq_ok.mp hlite
  -- The members that both dialects set last are none of these.
  have hread {key : String} (object : Map Value)
      (hkey : key ∈ ["instructions", "tools", "input", "parallel_tool_calls", "reasoning"]) :
      (stored object).get key = object.get key := by
    have hne : ∀ key ∈ ["instructions", "tools", "input", "parallel_tool_calls", "reasoning"],
        key ≠ "stream" ∧ key ≠ "store" := by decide
    obtain ⟨hstream, hstore⟩ := hne key hkey
    rw [get_stored, if_neg hstream, if_neg hstore]
  refine ⟨?_, ?_, ?_, ?_, ?_, fun key hkey => ?_⟩
  · rw [hread _ (by decide)]
    simp [liteObject, Map.get_erase]
  · rw [hread _ (by decide)]
    simp [liteObject, Map.get_erase]
  · refine ⟨tools, grouped, instructions, inputItems, inputItems.map stripResponsesLiteImageDetails,
      stablePrefixItemId serde sha256 "at" requestNamespace' (.array grouped),
      stablePrefixItemId serde sha256 "msg" requestNamespace' (.string instructions),
      ?_, hgrouped, ?_, ?_, ?_, ?_⟩
    · rw [hread _ (by decide), htools]
    · rw [hread _ (by decide), hinstructions]
    · rw [hread _ (by decide), hitems]
    · rw [List.forall₂_map_right_iff, List.forall₂_same]
      exact fun item _ => stripResponsesLiteImageDetails_same item
    · rw [hread _ (by decide)]
      simp [liteObject]
  · rw [hread _ (by decide)]
    simp [liteObject]
  · refine ⟨reasoning, ?_, ?_⟩
    · rw [hread _ (by decide), hreasoning]
    · rw [hread _ (by decide)]
      simp [liteObject]
  · rw [get_stored, get_stored, get_liteObject _ _ _ _ _ _ _ _ hkey]

end

/-- A library that keeps items as they are. -/
def plainItems : ItemLibrary where
  Item := Value
  fromValue := .ok
  isOther _ := false
  id item := (item.get "id").bind Value.asStr
  clearId
    | .object item => .object (Map.erase item "id")
    | item => item
  toValue := .ok
  isReasoningText part := (part.get "type").bind Value.asStr = some "reasoning_text"

/-- The tools of a request: a function, and a namespace of one more. -/
def goTools : List Value :=
  [.obj [("type", .string "function"), ("name", .string "run")],
    .obj [("type", .string "namespace"), ("name", .string "functions"),
      ("description", .string "d"),
      ("tools", .array [.obj [("type", .string "function"), ("name", .string "seek")]])]]

/-- The digests of the instructions to go and of the tools when they are grouped, in the namespace
`s`. -/
def goDigest (bytes : Bytes) : Bytes :=
  if bytes = toUtf8 "s" ++ [0] ++ toUtf8 "\"Go\"" then
    [0x89, 0x17, 0xff, 0x1f, 0x5f, 0x1a, 0x68, 0x9c, 0x54, 0xd7, 0xc2, 0x5a,
      0xf3, 0xd7, 0x9f, 0x76, 0xa9, 0x9f, 0x9d, 0xda, 0x94, 0xfd, 0x0f, 0x19,
      0x38, 0xc9, 0xb3, 0x95, 0x05, 0xbe, 0xf2, 0xc5]
  else
    [0x1b, 0x8b, 0x4d, 0xcb, 0x07, 0xe9, 0xd8, 0xf7, 0x35, 0xfe, 0x03, 0x9e,
      0x34, 0xa7, 0xec, 0xfd, 0x1e, 0xa7, 0xd3, 0xbd, 0x4b, 0x4e, 0x30, 0xe2,
      0xd9, 0x21, 0xc2, 0x25, 0xd1, 0x99, 0x47, 0x9f]

/-- A request with instructions, tools, a message that may have more parts than its text, and a call
with its output. -/
def goRequest (parts : List Value) (members : List (String × Value)) : Value :=
  .obj ([("model", .string "m"), ("instructions", .string "Go"), ("tools", .array goTools),
    ("input", .array [
      .obj [("type", .string "message"), ("role", .string "user"), ("content",
        .array (.obj [("type", .string "input_text"), ("text", .string "hi")] :: parts))],
      .obj [("type", .string "function_call"), ("name", .string "run"),
        ("arguments", .string "\x7b\x7d"), ("call_id", .string "c")],
      .obj [("type", .string "function_call_output"), ("call_id", .string "c"), ("output",
        .array [.obj [("type", .string "input_text"), ("text", .string "done")]])]])] ++
    members)

/-- An image for a message. -/
def goImage : Value :=
  .obj [("type", .string "input_image"), ("image_url", .string "data:image/png;base64,AA=="),
    ("detail", .string "high")]

/-- Both dialects take the request with an image. -/
theorem normalizeResponsesRequest_lite_go :
    ∃ standard lite,
      normalizeResponsesRequest Compact.serde goDigest plainItems (goRequest [goImage] []) false
        false (some "s") = .ok standard ∧
      normalizeResponsesRequest Compact.serde goDigest plainItems (goRequest [goImage] []) false
        true (some "s") = .ok lite ∧ Replaces standard lite := by
  obtain ⟨standard, hstandard⟩ : ∃ standard, normalizeResponsesRequest Compact.serde goDigest
      plainItems (goRequest [goImage] []) false false (some "s") = .ok standard :=
    exists_eq_ok (by decide +kernel)
  obtain ⟨lite, hlite⟩ : ∃ lite, normalizeResponsesRequest Compact.serde goDigest plainItems
      (goRequest [goImage] []) false true (some "s") = .ok lite :=
    exists_eq_ok (by decide +kernel)
  exact ⟨standard, lite, hstandard, hlite,
    normalizeResponsesRequest_lite Compact.serde goDigest plainItems hstandard hlite⟩

/-! ## The members that both dialects share -/

/-- A step that leaves all members but some alone. -/
def Touches (keys : List String) (object object' : Map Value) : Prop :=
  ∀ key, key ∉ keys → object'.get key = object.get key

/-- Doing nothing touches no member. -/
theorem touches_refl (keys : List String) (object : Map Value) : Touches keys object object :=
  fun _ _ => rfl

/-- Setting a member touches it only. -/
theorem touches_insert (key : String) (v : Value) (object : Map Value) :
    Touches [key] object (object.insert key v) := by
  intro key' hkey
  rw [Map.get_insert, if_neg (List.mem_singleton.not.mp hkey)]

/-- Erasing a member touches it only. -/
theorem touches_erase (key : String) (object : Map Value) :
    Touches [key] object (object.erase key) := by
  intro key' hkey
  rw [Map.get_erase, if_neg (List.mem_singleton.not.mp hkey)]

/-- Two steps touch what the one or the other does. -/
theorem Touches.trans {keys keys' : List String} {object object' object'' : Map Value}
    (h : Touches keys object object') (h' : Touches keys' object' object'') :
    Touches (keys ++ keys') object object'' := by
  intro key hkey
  rw [List.mem_append, not_or] at hkey
  exact (h' key hkey.2).trans (h key hkey.1)

section

variable {object object' : Map Value}

/-- The instructions are a text. -/
theorem normalizeInstructions_spec (h : normalizeInstructions object = .ok object') :
    Touches ["instructions"] object object' ∧
      ∃ instructions, object'.get "instructions" = some (.string instructions) := by
  unfold normalizeInstructions at h
  split at h
  · cases h
    exact ⟨touches_insert _ _ _, "", by rw [Map.get_insert, if_pos rfl]⟩
  · rename_i instructions hget
    cases h
    exact ⟨touches_refl _ _, instructions, hget⟩
  · cases h

/-- A reference to stored state is erased, or the request refused. -/
theorem rejectStatefulReference_touches {field : String}
    (h : rejectStatefulReference field object = .ok object') : Touches [field] object object' := by
  unfold rejectStatefulReference at h
  split at h
  · cases h
    exact touches_erase _ _
  · cases h
    exact touches_erase _ _
  · cases h

/-- The tools of a request are typed, and missing tools are none. -/
theorem normalizeTools_spec (h : normalizeTools object = .ok object') :
    Touches ["tools"] object object' ∧ object'.get "tools" = some (.array (toolsOf object)) ∧
      ∀ tool ∈ toolsOf object, isTypedTool tool = true := by
  unfold normalizeTools at h
  unfold toolsOf
  split at h
  · rename_i hget
    cases h
    refine ⟨touches_insert _ _ _, ?_, ?_⟩
    · rw [Map.get_insert, if_pos rfl, hget]
      rfl
    · rw [hget]
      exact nofun
  · rename_i tools hget
    split_ifs at h with htyped
    cases h
    rw [hget]
    exact ⟨touches_refl _ _, rfl, fun tool htool => List.all_eq_true.mp htyped tool htool⟩
  · cases h

/-- The input is an array. -/
theorem normalizeInput_spec {items : ItemLibrary} {namespaceCalls : NamespaceCallMap}
    (h : normalizeInput items namespaceCalls object = .ok object') :
    Touches ["input"] object object' ∧
      ∃ inputItems, object'.get "input" = some (.array inputItems) := by
  unfold normalizeInput at h
  split at h
  · cases h
  · obtain ⟨input, hinput, h⟩ := bind_eq_ok.mp h
    cases h
    have harray : ∃ inputItems, input = .array inputItems := by
      unfold normalizeResponseInput at hinput
      dsimp only at hinput
      split at hinput
      all_goals
        obtain ⟨inputItems, -, hinput⟩ := bind_eq_ok.mp hinput
        obtain ⟨normalized, -, hinput⟩ := bind_eq_ok.mp hinput
        cases hinput
        exact ⟨normalized, rfl⟩
    obtain ⟨inputItems, rfl⟩ := harray
    refine ⟨fun key hkey => ?_, inputItems, ?_⟩
    · rw [Map.get_insert, if_neg (List.mem_singleton.not.mp hkey), touches_erase "input" object key hkey]
    · rw [Map.get_insert, if_pos rfl]

/-- The choice of a tool is set by its own step. -/
theorem normalizeToolChoice_touches {apiKeyAuth : Bool}
    (h : normalizeToolChoice apiKeyAuth object = .ok object') :
    Touches ["tool_choice"] object object' := by
  unfold normalizeToolChoice at h
  split at h
  · cases h
    exact touches_insert _ _ _
  · cases h
    exact touches_refl _ _
  · split_ifs at h
    cases h
    exact touches_refl _ _
  · cases h

/-- So is the permission of parallel calls. -/
theorem normalizeParallelToolCalls_touches (h : normalizeParallelToolCalls object = .ok object') :
    Touches ["parallel_tool_calls"] object object' := by
  unfold normalizeParallelToolCalls at h
  split at h
  · cases h
    exact touches_insert _ _ _
  · cases h
    exact touches_refl _ _
  · cases h

/-- The reasoning of a request is missing, null, or an object. -/
theorem normalizeReasoning_spec {apiKeyAuth : Bool}
    (h : normalizeReasoning apiKeyAuth object = .ok object') :
    Touches ["reasoning"] object object' ∧
      ((∃ reasoning, (object'.get "reasoning").getD (.object []) = .object reasoning) ↔
        object.get "reasoning" ≠ some .null) := by
  unfold normalizeReasoning at h
  split at h
  · rename_i hget
    cases h
    rw [hget]
    exact ⟨touches_refl _ _, fun _ => nofun, fun _ => ⟨[], rfl⟩⟩
  · rename_i hget
    cases h
    rw [hget]
    refine ⟨touches_refl _ _, ?_, fun hne => absurd rfl hne⟩
    rintro ⟨reasoning, hnull⟩
    cases hnull
  · rename_i reasoning hget
    split_ifs at h with heffort hsummary hkey
    · cases h
      rw [hget]
      exact ⟨touches_refl _ _, fun _ => by simp, fun _ => ⟨reasoning, rfl⟩⟩
    · cases h
      rw [hget, Map.get_insert, if_pos rfl]
      exact ⟨touches_insert _ _ _, fun _ => by simp, fun _ => ⟨_, rfl⟩⟩
  · cases h

/-- So is what is to be included. -/
theorem normalizeInclude_touches (h : normalizeInclude object = .ok object') :
    Touches ["include"] object object' := by
  unfold normalizeInclude at h
  split at h
  · split_ifs at h
    cases h
    exact touches_insert _ _ _
  · cases h

/-- The last step erases what an account may not send. -/
theorem normalizeAccount_touches {apiKeyAuth : Bool}
    (h : normalizeAccount apiKeyAuth object = .ok object') :
    Touches (["max_output_tokens"] ++ ["client_metadata"] ++ ["metadata"]) object object' := by
  unfold normalizeAccount at h
  split_ifs at h
  · obtain ⟨-, -, h⟩ := bind_eq_ok.mp h
    cases h
    exact touches_refl _ _
  · cases h
    exact ((touches_erase _ _).trans (touches_erase _ _)).trans (touches_erase _ _)

end

/-- The steps that both dialects share. -/
theorem normalizeMembers_eq_ok {items : ItemLibrary} {body : Value} {apiKeyAuth : Bool}
    {object : Map Value} : normalizeMembers items body apiKeyAuth = .ok object ↔
      ∃ request model o₁ o₂ o₃ o₄ calls o₅ o₆ o₇ o₈ o₉, body = .object request ∧
        (Map.get request "model").bind Value.asStr = some model ∧
        validateModelId model = .ok () ∧ normalizeInstructions request = .ok o₁ ∧
        rejectStatefulReference "previous_response_id" o₁ = .ok o₂ ∧
        rejectStatefulReference "conversation" o₂ = .ok o₃ ∧ normalizeTools o₃ = .ok o₄ ∧
        collectNamespaceCalls (toolsOf o₄) = .ok calls ∧ normalizeInput items calls o₄ = .ok o₅ ∧
        normalizeToolChoice apiKeyAuth o₅ = .ok o₆ ∧ normalizeParallelToolCalls o₆ = .ok o₇ ∧
        normalizeReasoning apiKeyAuth o₇ = .ok o₈ ∧ normalizeInclude o₈ = .ok o₉ ∧
        normalizeAccount apiKeyAuth o₉ = .ok object := by
  unfold normalizeMembers
  constructor
  · intro h
    split at h
    · cases h
    · rename_i request hrequest
      split at h
      · cases h
      · rename_i model hmodel
        obtain ⟨⟨⟩, hid, h⟩ := bind_eq_ok.mp h
        obtain ⟨o₁, h₁, h⟩ := bind_eq_ok.mp h
        obtain ⟨o₂, h₂, h⟩ := bind_eq_ok.mp h
        obtain ⟨o₃, h₃, h⟩ := bind_eq_ok.mp h
        obtain ⟨o₄, h₄, h⟩ := bind_eq_ok.mp h
        obtain ⟨calls, hcalls, h⟩ := bind_eq_ok.mp h
        obtain ⟨o₅, h₅, h⟩ := bind_eq_ok.mp h
        obtain ⟨o₆, h₆, h⟩ := bind_eq_ok.mp h
        obtain ⟨o₇, h₇, h⟩ := bind_eq_ok.mp h
        obtain ⟨o₈, h₈, h⟩ := bind_eq_ok.mp h
        obtain ⟨o₉, h₉, h⟩ := bind_eq_ok.mp h
        exact ⟨request, model, o₁, o₂, o₃, o₄, calls, o₅, o₆, o₇, o₈, o₉,
          Value.asObject_eq_some hrequest, hmodel, hid, h₁, h₂, h₃, h₄, hcalls, h₅, h₆, h₇, h₈, h₉,
          h⟩
  · rintro ⟨request, model, o₁, o₂, o₃, o₄, calls, o₅, o₆, o₇, o₈, o₉, rfl, hmodel, hid, h₁, h₂, h₃,
      h₄, hcalls, h₅, h₆, h₇, h₈, h₉, h⟩
    rw [Value.asObject_object]
    dsimp only
    rw [hmodel]
    dsimp only
    rw [hid, h₁]
    simp only [bind, Except.bind, h₂, h₃, h₄, hcalls, h₅, h₆, h₇, h₈, h₉, h]

/-- What is known of a request before it is put into a dialect. -/
theorem normalizeMembers_spec {items : ItemLibrary} {body : Value} {apiKeyAuth : Bool}
    {object : Map Value} (h : normalizeMembers items body apiKeyAuth = .ok object) :
    ∃ request, body = .object request ∧
      (∃ instructions, object.get "instructions" = some (.string instructions)) ∧
      object.get "tools" = some (.array (toolsOf request)) ∧
      (∀ tool ∈ toolsOf request, isTypedTool tool = true) ∧
      (∃ inputItems, object.get "input" = some (.array inputItems)) ∧
      ((∃ reasoning, (object.get "reasoning").getD (.object []) = .object reasoning) ↔
        Map.get request "reasoning" ≠ some .null) := by
  obtain ⟨request, model, o₁, o₂, o₃, o₄, calls, o₅, o₆, o₇, o₈, o₉, rfl, -, -, h₁, h₂, h₃, h₄, -, h₅,
    h₆, h₇, h₈, h₉, h⟩ := normalizeMembers_eq_ok.mp h
  obtain ⟨t₁, instructions, hinstructions⟩ := normalizeInstructions_spec h₁
  have t₂ := rejectStatefulReference_touches h₂
  have t₃ := rejectStatefulReference_touches h₃
  obtain ⟨t₄, htools, htyped⟩ := normalizeTools_spec h₄
  obtain ⟨t₅, inputItems, hinput⟩ := normalizeInput_spec h₅
  have t₆ := normalizeToolChoice_touches h₆
  have t₇ := normalizeParallelToolCalls_touches h₇
  obtain ⟨t₈, hreasoning⟩ := normalizeReasoning_spec h₈
  have t₉ := normalizeInclude_touches h₉
  have t₁₀ := normalizeAccount_touches h
  -- Each member is set by one step, and no later step touches it.
  have before : Touches _ request o₃ := (t₁.trans t₂).trans t₃
  have after : Touches _ o₇ object := t₈.trans (t₉.trans t₁₀)
  have late : Touches _ o₈ object := t₉.trans t₁₀
  have middle : Touches _ o₄ o₇ := t₅.trans (t₆.trans t₇)
  have hsame : toolsOf o₃ = toolsOf request := by
    unfold toolsOf
    rw [before "tools" (by decide)]
  refine ⟨request, rfl, ⟨instructions, ?_⟩, ?_, ?_,
    ⟨inputItems, ?_⟩, ?_⟩
  · rw [after _ (by decide), middle _ (by decide), t₄ _ (by decide), t₃ _ (by decide),
      t₂ _ (by decide), hinstructions]
  · rw [after _ (by decide), middle _ (by decide), htools, hsame]
  · rw [← hsame]
    exact htyped
  · rw [after _ (by decide), t₇ _ (by decide), t₆ _ (by decide), hinput]
  · rw [late _ (by decide), hreasoning, middle _ (by decide), t₄ _ (by decide),
      before _ (by decide)]

/-! ## Which requests Responses Lite takes -/

/-- A tool that Responses Lite can group: a namespace of functions has an array of tools. -/
def Groupable (tool : Value) : Prop :=
  (tool.get "type").bind Value.asStr = some "namespace" →
    (tool.get "name").bind Value.asStr = some "functions" →
      ∃ tools, tool.get "tools" = some (.array tools)

/-- A tool is grouped, after any tools before it, exactly when it can be. -/
theorem groupTool_ok_iff {tool : Value} (htyped : isTypedTool tool = true) (groups : ToolGroups) :
    (∃ groups', groupTool groups tool = .ok groups') ↔ Groupable tool := by
  obtain ⟨type, htype⟩ : ∃ type, (tool.get "type").bind Value.asStr = some type := by
    unfold isTypedTool at htyped
    cases tool with
    | object object =>
      rw [Value.asObject_object, Option.any_some] at htyped
      cases hget : Map.get object "type" with
      | none => simp [hget] at htyped
      | some v =>
        rw [hget, Option.any_some] at htyped
        obtain ⟨type, htype⟩ := Option.isSome_iff_exists.mp htyped
        exact ⟨type, by rw [Value.get_object, hget, Option.bind_some, htype]⟩
    | _ => cases htyped
  unfold groupTool Groupable
  rw [htype]
  dsimp only
  split_ifs with hhosted hfunction hnamespace
  · refine ⟨fun _ hnamespace => ?_, fun _ => ⟨_, rfl⟩⟩
    cases hnamespace
    exact absurd hhosted (by decide)
  · refine ⟨fun _ hnamespace => ?_, fun _ => ⟨_, rfl⟩⟩
    cases hnamespace
    exact absurd hfunction (by decide)
  · simp only [Bool.and_eq_true, decide_eq_true_eq] at hnamespace
    obtain ⟨rfl, hname⟩ := hnamespace
    constructor
    · -- The namespace of functions is the one that must list its tools.
      rintro ⟨groups', h⟩ - -
      split at h
      · cases h
      · rename_i tools htools
        obtain ⟨v, hv, harray⟩ := Option.bind_eq_some_iff.mp htools
        exact ⟨tools, by rw [hv, Value.asArray_eq_some harray]⟩
    · intro h
      obtain ⟨tools, htools⟩ := h rfl hname
      rw [htools]
      exact ⟨_, rfl⟩
  · refine ⟨fun _ htype' hname => ?_, fun _ => ⟨_, rfl⟩⟩
    cases htype'
    exact absurd hname (by simpa using hnamespace)

/-- Typed tools are grouped exactly when each of them can be. -/
theorem groupResponsesLiteTools_ok_iff {tools : List Value}
    (htyped : ∀ tool ∈ tools, isTypedTool tool = true) :
    (∃ grouped, groupResponsesLiteTools tools = .ok grouped) ↔ ∀ tool ∈ tools, Groupable tool := by
  constructor
  · rintro ⟨grouped, h⟩ tool htool
    obtain ⟨groups, hrun, -⟩ := bind_eq_ok.mp h
    obtain ⟨groups₁, groups₂, hstep⟩ := foldlM_mem hrun htool
    exact (groupTool_ok_iff (htyped tool htool) groups₁).mp ⟨groups₂, hstep⟩
  · intro h
    obtain ⟨groups, hrun, -⟩ := foldlM_ok (I := fun _ : ToolGroups => True)
      (fun groups tool htool _ =>
        ((groupTool_ok_iff (htyped tool htool) groups).mpr (h tool htool)).imp
          fun _ hstep => ⟨hstep, trivial⟩) (s := {}) trivial
    exact ⟨_, bind_eq_ok.mpr ⟨groups, hrun, rfl⟩⟩

/-- A request whose reasoning is not null, and in which each namespace of functions has an array of
tools. -/
def LiteReady (body : Value) : Prop :=
  body.get "reasoning" ≠ some .null ∧
    ∀ tools, body.get "tools" = some (.array tools) → ∀ tool ∈ tools, Groupable tool

/-- Responses Lite takes a request that the standard dialect takes exactly when its reasoning is not
null and its namespaces of functions have arrays of tools. -/
theorem normalizeResponsesRequest_accepts (serde : Serde) (sha256 : Bytes → Bytes)
    (items : ItemLibrary) {body : Value} {apiKeyAuth : Bool} (requestNamespace : String)
    {standard : Value}
    (hstandard : normalizeResponsesRequest serde sha256 items body apiKeyAuth false
      (some requestNamespace) = .ok standard) :
    (∃ lite, normalizeResponsesRequest serde sha256 items body apiKeyAuth true
      (some requestNamespace) = .ok lite) ↔ LiteReady body := by
  obtain ⟨object, hmembers, -⟩ := (normalizeResponsesRequest_standard serde sha256 items).mp
    hstandard
  obtain ⟨request, rfl, ⟨instructions, hinstructions⟩, htools, htyped, ⟨inputItems, hinput⟩,
    hreasoning⟩ := normalizeMembers_spec hmembers
  -- A request without tools has none that could not be grouped.
  have htoolsOf : (∀ tools, Map.get request "tools" = some (.array tools) →
      ∀ tool ∈ tools, Groupable tool) ↔ ∀ tool ∈ toolsOf request, Groupable tool := by
    unfold toolsOf
    constructor
    · intro h
      cases hget : (Map.get request "tools").bind Value.asArray with
      | none => exact nofun
      | some tools =>
        obtain ⟨v, hv, harray⟩ := Option.bind_eq_some_iff.mp hget
        rw [Value.asArray_eq_some harray] at hv
        exact h tools hv
    · intro h tools hget
      rw [hget] at h
      exact h
  unfold LiteReady
  rw [Value.get_object, Value.get_object, ← hreasoning, htoolsOf,
    ← groupResponsesLiteTools_ok_iff htyped]
  constructor
  · rintro ⟨lite, hlite⟩
    obtain ⟨object₁, requestNamespace', object', hmembers', -, hlite, -⟩ :=
      (normalizeResponsesRequest_true serde sha256 items).mp hlite
    cases hmembers.symm.trans hmembers'
    obtain ⟨-, tools, grouped, -, reasoning, -, htools', hgrouped, -, hreasoning', -⟩ :=
      normalizeResponsesLiteRequest_eq_ok.mp hlite
    cases htools.symm.trans htools'
    exact ⟨⟨reasoning, hreasoning'⟩, grouped, hgrouped⟩
  · rintro ⟨⟨reasoning, hreasoning'⟩, grouped, hgrouped⟩
    exact ⟨_, (normalizeResponsesRequest_true serde sha256 items).mpr ⟨object, requestNamespace, _,
      hmembers, rfl, normalizeResponsesLiteRequest_eq_ok.mpr ⟨instructions, _, grouped, inputItems,
        reasoning, hinstructions, htools, hgrouped, hinput, hreasoning', rfl⟩, rfl⟩⟩

/-- The tools of the request can be grouped. -/
theorem groupable_goTools : ∀ tool ∈ goTools, Groupable tool := by
  refine List.forall_mem_cons.mpr ⟨fun hnamespace => ?_, List.forall_mem_singleton.mpr ?_⟩
  · exact absurd hnamespace (by decide)
  · exact fun _ _ => ⟨_, rfl⟩

/-- A request with reasoning and tools is taken by both dialects. -/
theorem normalizeResponsesRequest_accepts_go :
    ∃ lite, normalizeResponsesRequest Compact.serde goDigest plainItems
      (goRequest [] [("reasoning", .obj [("effort", .string "low")])]) false true (some "s") =
        .ok lite := by
  obtain ⟨standard, hstandard⟩ : ∃ standard, normalizeResponsesRequest Compact.serde goDigest
      plainItems (goRequest [] [("reasoning", .obj [("effort", .string "low")])]) false false
        (some "s") = .ok standard :=
    exists_eq_ok (by decide +kernel)
  refine (normalizeResponsesRequest_accepts Compact.serde goDigest plainItems "s" hstandard).mpr
    ⟨by decide, fun tools htools => ?_⟩
  have hget : (goRequest [] [("reasoning", .obj [("effort", .string "low")])]).get "tools" =
      some (.array goTools) := by
    decide
  rw [hget] at htools
  cases htools
  exact groupable_goTools

/-- A request whose reasoning is null is taken by the standard dialect only. -/
theorem normalizeResponsesRequest_accepts_null :
    (∃ standard, normalizeResponsesRequest Compact.serde goDigest plainItems
      (goRequest [] [("reasoning", .null)]) false false (some "s") = .ok standard) ∧
    ¬ ∃ lite, normalizeResponsesRequest Compact.serde goDigest plainItems
      (goRequest [] [("reasoning", .null)]) false true (some "s") = .ok lite := by
  refine ⟨exists_eq_ok (by decide +kernel), ?_⟩
  rintro ⟨lite, hlite⟩
  have hrefused : (normalizeResponsesRequest Compact.serde goDigest plainItems
      (goRequest [] [("reasoning", .null)]) false true (some "s")).toOption.isSome = false := by
    decide +kernel
  rw [hlite] at hrefused
  cases hrefused

end MuseCodex.Transport
