import MuseCodex.Json.Compact
import MuseCodex.Zai.Request

/-!
# What of a request reaches Z.ai

A request carries more than a chat completion needs: metadata, identifiers, and the opaque state of
another provider. `erase` removes members that no translation reads, at the top of the request, in
its reasoning, its input items and its tools, and the items that are reasoning. It looks at the
names of members only: the parts of a content stay as they are, and an item keeps a member that
items of another type need. The translation of a request is that of what is left
(`translate_erase`), so requests that become equal are translated alike, or refused alike
(`translate_eq_of_erase_eq`).
-/

namespace MuseCodex.Zai

open Text Json

/-! ## Erasure -/

/-- An object with some of its members only. -/
def eraseMembers (keys : List String) : Value → Value
  | .object m => .object (Map.only keys m)
  | v => v

/-- The members of a request that are translated. -/
def requestKeys : List String :=
  ["model", "previous_response_id", "conversation", "tools", "instructions", "input", "reasoning",
    "max_output_tokens"]

/-- The members of an input item that are translated, in an item of one type or another. -/
def itemKeys : List String :=
  ["type", "role", "content", "call_id", "name", "arguments", "input", "output"]

/-- The members of a tool declaration that are translated. -/
def toolKeys : List String := ["type", "name", "description", "parameters", "tools"]

/-- The members of a declaration in a namespace that are translated. A namespace in a namespace is
refused, whatever tools it has. -/
def nestedToolKeys : List String := ["type", "name", "description", "parameters"]

/-- The items of an array, each changed or left out; any other value as it is. -/
def eraseItems (f : Value → Option Value) : Value → Value
  | .array items => .array (items.filterMap f)
  | v => v

/-- A tool declaration without what is not translated. -/
def eraseTool : Value → Value
  | .object m => .object ((Map.only toolKeys m).mapValues fun key v =>
      if key = "tools" then eraseItems (fun tool => some (eraseMembers nestedToolKeys tool)) v
      else v)
  | v => v

/-- An input item with the members that some type of item needs; reasoning is left out. What is in
the members is not looked at, so a part of a content keeps members that are not read. -/
def eraseItem (item : Value) : Option Value :=
  if isReasoningItem item then none else some (eraseMembers itemKeys item)

/-- A member of a request without what is not translated. -/
def eraseMember (key : String) (v : Value) : Value :=
  if key = "reasoning" then eraseMembers ["effort"] v
  else if key = "input" then eraseItems eraseItem v
  else if key = "tools" then eraseItems (fun tool => some (eraseTool tool)) v
  else v

/-- A request without the members that are not read, in itself, its reasoning, its input items and
its tools, and without its reasoning items. -/
def erase : Value → Value
  | .object m => .object ((Map.only requestKeys m).mapValues eraseMember)
  | v => v

/-! ## Tools -/

/-- The declaration of a tool reads nothing else of it. -/
theorem declaredTool_congr (freeform : Bool) (parameters : Value) {tool tool' : Map Value}
    (hname : tool.get "name" = tool'.get "name")
    (hdescription : tool.get "description" = tool'.get "description") (ns : Option String)
    (names : ToolNames) :
    declaredTool freeform parameters tool ns names =
      declaredTool freeform parameters tool' ns names := by
  unfold declaredTool qualifiedName
  rw [hname, hdescription]

/-- The two sorts of tools read nothing else of a declaration. -/
theorem functionTool_congr {tool tool' : Map Value}
    (h : ∀ key ∈ nestedToolKeys, tool.get key = tool'.get key) (ns : Option String)
    (names : ToolNames) : functionTool tool ns names = functionTool tool' ns names ∧
      customTool tool ns names = customTool tool' ns names := by
  have hname := h "name" (by decide)
  have hdescription := h "description" (by decide)
  unfold functionTool customTool
  rw [h "parameters" (by decide)]
  exact ⟨declaredTool_congr _ _ hname hdescription ns names,
    declaredTool_congr _ _ hname hdescription ns names⟩

/-- A tool of a namespace is translated by the members that are left. -/
theorem translateNestedTool_erase (ns : String) (acc : List Value × ToolNames) (tool : Value) :
    translateNestedTool ns acc (eraseMembers nestedToolKeys tool) =
      translateNestedTool ns acc tool := by
  cases tool with
  | object m =>
    have hget : ∀ key ∈ nestedToolKeys, (Map.only nestedToolKeys m).get key = Map.get m key :=
      fun key hkey => Map.get_only hkey m
    unfold translateNestedTool eraseMembers
    simp only [Value.asObject_object, hget "type" (by decide),
      (functionTool_congr hget (some ns) acc.2).1, (functionTool_congr hget (some ns) acc.2).2]
  | _ => rfl

/-- Items that are changed without an effect on a step, or left out where the step does nothing,
have no effect on the run. -/
theorem foldlM_filterMap {σ ε : Type} {step : σ → Value → Except ε σ} {f : Value → Option Value}
    (hsome : ∀ s v w, f v = some w → step s w = step s v)
    (hnone : ∀ s v, f v = none → step s v = .ok s) (items : List Value) (s : σ) :
    (items.filterMap f).foldlM step s = items.foldlM step s := by
  induction items generalizing s with
  | nil => rfl
  | cons v items ih =>
    cases hv : f v with
    | none =>
      rw [List.filterMap_cons_none hv, List.foldlM_cons, hnone s v hv]
      exact ih s
    | some w =>
      rw [List.filterMap_cons_some hv, List.foldlM_cons, List.foldlM_cons, hsome s v w hv]
      exact congrArg _ (funext ih)

/-- Items that are all kept. -/
theorem foldlM_eraseItems {σ ε : Type} {step : σ → Value → Except ε σ} {f : Value → Value}
    (h : ∀ s v, step s (f v) = step s v) (items : List Value) (s : σ) :
    (items.filterMap fun v => some (f v)).foldlM step s = items.foldlM step s := by
  refine foldlM_filterMap (fun s v w hw => ?_) (fun s v hv => by cases hv) items s
  cases hw
  exact h s v

/-- So is a tool. -/
theorem translateTool_erase (acc : List Value × ToolNames) (tool : Value) :
    translateTool acc (eraseTool tool) = translateTool acc tool := by
  cases tool with
  | object m =>
    have hget : ∀ key ∈ nestedToolKeys, ((Map.only toolKeys m).mapValues fun key v =>
        if key = "tools" then eraseItems (fun tool => some (eraseMembers nestedToolKeys tool)) v
        else v).get key = Map.get m key := by
      intro key hkey
      have hkeys : ∀ key ∈ nestedToolKeys, key ∈ toolKeys ∧ key ≠ "tools" := by decide
      obtain ⟨hkept, hne⟩ := hkeys key hkey
      rw [Map.get_mapValues, Map.get_only hkept]
      simp [hne]
    have htools : (((Map.only toolKeys m).mapValues fun key v =>
        if key = "tools" then eraseItems (fun tool => some (eraseMembers nestedToolKeys tool)) v
        else v).get "tools").bind Value.asArray = ((Map.get m "tools").bind Value.asArray).map
          (List.filterMap fun tool => some (eraseMembers nestedToolKeys tool)) := by
      rw [Map.get_mapValues, Map.get_only (by decide)]
      cases Map.get m "tools" with
      | none => rfl
      | some v => cases v <;> rfl
    unfold translateTool eraseTool
    simp only [Value.asObject_object, hget "type" (by decide), hget "name" (by decide), htools,
      (functionTool_congr hget none acc.2).1, (functionTool_congr hget none acc.2).2]
    cases (Map.get m "tools").bind Value.asArray with
    | none => rfl
    | some nested =>
      simp only [Option.map_some, foldlM_eraseItems (translateNestedTool_erase _)]
  | _ => rfl

/-- The tools of a request. -/
theorem translateTools_erase (tools : Option Value) (names : ToolNames) :
    translateTools (tools.map (eraseItems fun tool => some (eraseTool tool))) names =
      translateTools tools names := by
  cases tools with
  | none => rfl
  | some v =>
    cases v with
    | array items => exact foldlM_eraseItems translateTool_erase items _
    | _ => rfl

/-! ## Input items -/

variable (serde : Serde)

/-- An input item that is no reasoning. -/
theorem translateItem_erase (limits : ModelLimits) (acc : List Value × ToolNames) (item : Value) :
    translateItem serde limits acc (eraseMembers itemKeys item) =
      translateItem serde limits acc item := by
  cases item with
  | object m =>
    have hget : ∀ key ∈ itemKeys, (Map.only itemKeys m).get key = Map.get m key :=
      fun key hkey => Map.get_only hkey m
    unfold translateItem eraseMembers translateMessage toolCall toolResult
    simp only [Value.asObject_object, hget "type" (by decide), hget "role" (by decide),
      hget "content" (by decide), hget "call_id" (by decide), hget "name" (by decide),
      hget "arguments" (by decide), hget "input" (by decide), hget "output" (by decide)]
  | _ => rfl

/-- Reasoning has no effect on the items around it. -/
theorem translateItem_reasoning (limits : ModelLimits) (acc : List Value × ToolNames)
    {item : Value} (h : isReasoningItem item = true) :
    translateItem serde limits acc item = .ok acc := by
  cases item with
  | object m =>
    have htype : (Map.get m "type").bind Value.asStr = some "reasoning" := of_decide_eq_true h
    unfold translateItem
    simp only [Value.asObject_object, htype]
  | _ => simp [isReasoningItem, itemType, Value.get] at h

/-- The input of a request. -/
theorem translateInput_erase (limits : ModelLimits) (items : List Value)
    (acc : List Value × ToolNames) :
    (items.filterMap eraseItem).foldlM (translateItem serde limits) acc =
      items.foldlM (translateItem serde limits) acc := by
  refine foldlM_filterMap (fun acc v w hw => ?_) (fun acc v hv => ?_) items acc
  · unfold eraseItem at hw
    split_ifs at hw
    cases hw
    exact translateItem_erase serde limits acc v
  · unfold eraseItem at hv
    split_ifs at hv with hreasoning
    exact translateItem_reasoning serde limits acc hreasoning

/-! ## The request -/

/-- A member of a request after erasure. -/
theorem get_erase {key : String} (h : key ∈ requestKeys) (m : Map Value) :
    ((Map.only requestKeys m).mapValues eraseMember).get key =
      (Map.get m key).map (eraseMember key) := by
  rw [Map.get_mapValues, Map.get_only h]

/-- A member of a request that is kept as it is. -/
theorem get_erase_of_ne {key : String} (h : key ∈ requestKeys) (hreasoning : key ≠ "reasoning")
    (hinput : key ≠ "input") (htools : key ≠ "tools") (m : Map Value) :
    ((Map.only requestKeys m).mapValues eraseMember).get key = Map.get m key := by
  have hid : eraseMember key = id := by
    funext v
    rw [eraseMember, if_neg hreasoning, if_neg hinput, if_neg htools, id]
  rw [get_erase h, hid, Option.map_id, id]

/-- The messages are translated from the members that are left. -/
theorem translateMessages_erase (m : Map Value) (names : ToolNames) (limits : ModelLimits) :
    translateMessages serde ((Map.only requestKeys m).mapValues eraseMember) names limits =
      translateMessages serde m names limits := by
  have hinstructions : instructionMessages ((Map.only requestKeys m).mapValues eraseMember) =
      instructionMessages m := by
    unfold instructionMessages
    rw [get_erase_of_ne (by decide) (by decide) (by decide) (by decide)]
  unfold translateMessages
  rw [hinstructions, get_erase (by decide)]
  cases Map.get m "input" with
  | none => rfl
  | some v =>
    cases v with
    | array items => exact translateInput_erase serde limits items _
    | _ => rfl

/-- So is the effort. -/
theorem effortEntry_erase (m : Map Value) :
    effortEntry ((Map.only requestKeys m).mapValues eraseMember) = effortEntry m := by
  have heffort : ((((Map.only requestKeys m).mapValues eraseMember).get "reasoning").bind
      Value.asObject).bind (·.get "effort") =
        ((Map.get m "reasoning").bind Value.asObject).bind (·.get "effort") := by
    rw [get_erase (by decide)]
    cases Map.get m "reasoning" with
    | none => rfl
    | some v =>
      cases v with
      | object r => exact Map.get_only (List.mem_singleton_self _) r
      | _ => rfl
  unfold effortEntry
  rw [heffort]

/-- The translation of a request is that of what erasure leaves of it. -/
theorem translate_erase (request : Value) (limits : ModelLimits) :
    translate serde (erase request) limits = translate serde request limits := by
  cases request with
  | object m =>
    have hsame {key : String} (h : key ∈ requestKeys ∧ key ≠ "reasoning" ∧ key ≠ "input" ∧
        key ≠ "tools") := get_erase_of_ne h.1 h.2.1 h.2.2.1 h.2.2.2 m
    have htools (names : ToolNames) :
        translateTools (((Map.only requestKeys m).mapValues eraseMember).get "tools") names =
          translateTools (Map.get m "tools") names := by
      rw [get_erase (by decide)]
      exact translateTools_erase _ names
    unfold translate erase limitEntry
    simp only [Value.asObject_object, List.find?_cons, List.find?_nil,
      hsame (show "model" ∈ _ ∧ _ by decide), hsame (show "previous_response_id" ∈ _ ∧ _ by decide),
      hsame (show "conversation" ∈ _ ∧ _ by decide),
      hsame (show "max_output_tokens" ∈ _ ∧ _ by decide), htools, translateMessages_erase,
      effortEntry_erase]
  | _ => rfl

/-- Requests that become equal by erasure are translated alike, with the same names of tools, or
refused with the same error. -/
theorem translate_eq_of_erase_eq {request request' : Value} (h : erase request = erase request')
    (limits : ModelLimits) : translate serde request limits = translate serde request' limits := by
  rw [← translate_erase, h, translate_erase]

/-- A request with the state of another provider between two calls, and with a tool and a user of
its own. -/
def tracedRequest (state user : String) : Value :=
  .obj [("model", .string "glm"), ("user_id", .string user),
    ("tools", .array [.obj [("type", .string "function"), ("name", .string "ls"),
      ("owner", .string user)]]),
    ("input", .array [.obj [("type", .string "function_call"), ("call_id", .string "a"),
        ("name", .string "ls"), ("id", .string state)],
      .obj [("type", .string "reasoning"), ("encrypted_content", .string state)],
      .obj [("type", .string "function_call"), ("call_id", .string "b"), ("name", .string "ls")]])]

/-- Neither the state nor the user reaches Z.ai. -/
theorem translate_eq_of_erase_eq_traced :
    translate Compact.serde (tracedRequest "x" "me") ⟨true, 1, le_refl 1⟩ =
      translate Compact.serde (tracedRequest "y" "you") ⟨true, 1, le_refl 1⟩ :=
  translate_eq_of_erase_eq Compact.serde (by decide) _

end MuseCodex.Zai
