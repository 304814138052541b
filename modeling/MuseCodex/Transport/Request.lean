import MuseCodex.Json.Serde

/-!
# The request to Codex

The normalization of `crates/codex-transport/src/transport.rs`, which turns the body of a Responses
request into the stateless request of the pinned client. Instructions, tools, input, tool choice,
reasoning and the list of included outputs are checked and completed one after the other, and for
a model that asks for Responses Lite the request is put into that dialect at the end
(`normalizeResponsesLiteRequest`).

An input item passes through the protocol library of the pinned client, which reads it into its own
type and writes it again. `ItemLibrary` is that library as a parameter. The digest behind the ids of
the items of Responses Lite is a parameter too.
-/

namespace MuseCodex.Transport

open Text Json

/-! ## The model -/

/-- The longest id of a model. -/
def MAX_MODEL_ID_BYTES : ℕ := 256

/-- Checks the id of a model. -/
def validateModelId (model : String) : Except String Unit :=
  if model = "" || MAX_MODEL_ID_BYTES < model.utf8ByteSize || startsWith '-' model then
    .error "model must contain between 1 and 256 bytes"
  else if model.toList.any isWhitespace || model.toList.any isControl then
    .error "model must not contain whitespace or control characters"
  else .ok ()

/-- Removes a member that must not refer to state. -/
def rejectStatefulReference (field : String) (object : Map Value) : Except String (Map Value) :=
  match object.get field with
  | none | some .null => .ok (object.erase field)
  | some _ => .error (field ++
      " cannot be used because Muse sends complete stateless history")

/-! ## Instructions and tools -/

/-- Completes the instructions. -/
def normalizeInstructions (object : Map Value) : Except String (Map Value) :=
  match object.get "instructions" with
  | none => .ok (object.insert "instructions" (.string ""))
  | some (.string _) => .ok object
  | some _ => .error "instructions must be a string"

/-- Whether a tool is an object with a type. -/
def isTypedTool (tool : Value) : Bool :=
  tool.asObject.any fun tool => (tool.get "type").any Value.isString

/-- Completes the tools. -/
def normalizeTools (object : Map Value) : Except String (Map Value) :=
  match object.get "tools" with
  | none => .ok (object.insert "tools" (.array []))
  | some (.array tools) =>
    if tools.all isTypedTool then .ok object
    else .error "each tool must be an object with a string type"
  | some _ => .error "tools must be an array"

/-- The array of tools of a request. -/
def toolsOf (object : Map Value) : List Value := ((object.get "tools").bind Value.asArray).getD []

/-- The name of a tool of a type. -/
def toolName (type : String) (tool : Value) : Option String :=
  tool.asObject.bind fun tool =>
    if (tool.get "type").bind Value.asStr = some type then (tool.get "name").bind Value.asStr
    else none

/-- The split names of the functions of namespaces, under their flattened names. -/
abbrev NamespaceCallMap := Map (String × String)

/-- Adds a function of a namespace to the calls. -/
def collectNamespaceCall (standaloneNames : List String) (ns : String) (calls : NamespaceCallMap)
    (namespaceTool : Value) : Except String NamespaceCallMap :=
  match toolName "function" namespaceTool with
  | none => .ok calls
  | some name =>
    let flattened := ns ++ "." ++ name
    if flattened ∈ standaloneNames then
      .error ("namespace tool conflicts with standalone function " ++ flattened)
    else if (calls.get flattened).any (· ≠ (ns, name)) then
      .error ("namespace tools have ambiguous flattened call name " ++ flattened)
    else .ok (calls.insert flattened (ns, name))

/-- Adds the functions of a tool, if it is a namespace with a name and tools. -/
def collectNamespace (standaloneNames : List String) (calls : NamespaceCallMap) (tool : Value) :
    Except String NamespaceCallMap :=
  match toolName "namespace" tool, (tool.get "tools").bind Value.asArray with
  | some ns, some namespaceTools =>
    namespaceTools.foldlM (collectNamespaceCall standaloneNames ns) calls
  | _, _ => .ok calls

/-- The functions of the namespaces among some tools. -/
def collectNamespaceCalls (tools : List Value) : Except String NamespaceCallMap :=
  tools.foldlM (collectNamespace (tools.filterMap (toolName "function"))) []

/-! ## Input items -/

/-- The place of a content part in a message. -/
def partPlace (itemIndex partIndex : ℕ) : String :=
  "message item " ++ itemIndex.repr ++ " content part " ++ partIndex.repr

/-- The member that an image of a content part leads to. -/
def normalizeImage (object : Map Value) (image : Value) (place : String) :
    Except String (Map Value) :=
  match image with
  | .string url => .ok (object.insert "image_url" (.string url))
  | .object image =>
    match Map.get image "url" with
    | some (.string url) =>
      let object := object.insert "image_url" (.string url)
      .ok (match Map.get image "detail" with
        | some detail => object.insert "detail" detail
        | none => object)
    | _ => .error (place ++ " has no image URL")
  | _ => .error (place ++ " has invalid image_url")

/-- Puts a content part into the form of its side of the conversation. -/
def normalizeContentPart (part : Value) (assistant : Bool) (itemIndex partIndex : ℕ) :
    Except String Value :=
  let place := partPlace itemIndex partIndex
  match part.asObject with
  | none => .error (place ++ " must be an object")
  | some object =>
    match (object.get "type").bind Value.asStr with
    | none => .error (place ++ " has no string type")
    | some "text" | some "input_text" | some "output_text" =>
      if !(object.get "text").any Value.isString then .error (place ++ " has no string text")
      else .ok (.object (object.insert "type"
        (.string (if assistant then "output_text" else "input_text"))))
    | some "image_url" =>
      match object.get "image_url" with
      | none => .error (place ++ " has no image_url")
      | some image => do
        let object ← normalizeImage (object.erase "image_url") image place
        return .object (object.insert "type" (.string "input_image"))
    | some "input_image" =>
      if assistant then .error (place ++ " has unsupported type") else .ok part
    | some _ => .error (place ++ " has unsupported type")

/-- Puts the content of a message into parts. -/
def normalizeMessageItem (object : Map Value) (index : ℕ) : Except String (Map Value) :=
  match (object.get "role").bind Value.asStr with
  | none => .error ("message item " ++ index.repr ++ " has no string role")
  | some role =>
    if role ∉ ["assistant", "developer", "system", "user"] then
      .error ("message item " ++ index.repr ++ " has unsupported role")
    else
      let assistant : Bool := role = "assistant"
      match object.get "content" with
      | none => .error ("message item " ++ index.repr ++ " has no content")
      | some content =>
        let content : Value := match content with
          | .string text => .array [.obj
              [("type", .string (if assistant then "output_text" else "input_text")),
                ("text", .string text)]]
          | content => content
        match content with
        | .array parts => do
          let parts ← parts.zipIdx.mapM fun part =>
            normalizeContentPart part.1 assistant index part.2
          return object.insert "content" (.array parts)
        | _ => .error ("message item " ++ index.repr ++ " content must be a string or array")

/-- The types of input items. -/
def itemTypes : List String :=
  ["message", "reasoning", "local_shell_call", "function_call", "function_call_output",
    "custom_tool_call", "custom_tool_call_output", "tool_search_call", "tool_search_output",
    "web_search_call", "image_generation_call", "compaction", "compaction_summary",
    "compaction_trigger", "context_compaction"]

/-- The protocol library of the pinned client, as far as input items are concerned. -/
structure ItemLibrary where
  /-- An item of the library. -/
  Item : Type
  /-- The item that a document denotes, or the text of the error. -/
  fromValue : Value → Except String Item
  /-- Whether an item is of a type that the library does not know. -/
  isOther : Item → Bool
  /-- The id of an item. -/
  id : Item → Option String
  /-- The item without its id. -/
  clearId : Item → Item
  /-- The document of an item, or the text of the error. -/
  toValue : Item → Except String Value
  /-- Whether a part of the content of reasoning is read as a text of reasoning. This is for the
  library to say, for it takes the tag of a part in more than one form: as a member of an object, or
  at the head of an array. -/
  isReasoningText : Value → Bool

/-- Whether an id has a prefix and a suffix. -/
def isPrefixed (id : String) : Bool :=
  (splitOnce '_' id).any fun (start, rest) => start ≠ "" && rest ≠ ""

/-- The split name of a call that was flattened, if the request has it. -/
def namespaceSplit (normalized : Value) (namespaceCalls : NamespaceCallMap) :
    Option (String × String) :=
  if (normalized.get "type").bind Value.asStr = some "function_call" &&
      (normalized.get "namespace").isNone then
    ((normalized.get "name").bind Value.asStr).bind namespaceCalls.get
  else none

/-- Gives a flattened call its namespace back. -/
def restoreNamespace (namespaceCalls : NamespaceCallMap) (normalized : Value) : Value :=
  match namespaceSplit normalized namespaceCalls, normalized with
  | some (ns, name), .object object =>
    .object (Map.insert (Map.insert object "namespace" (.string ns)) "name" (.string name))
  | _, normalized => normalized

/-- Removes the name from the result of a call. -/
def removeResultName (normalized : Value) : Value :=
  match (normalized.get "type").bind Value.asStr, normalized with
  | some "function_call_output", .object object
  | some "custom_tool_call_output", .object object => .object (Map.erase object "name")
  | _, normalized => normalized

section

variable (items : ItemLibrary)

/-- Reads an item and writes it again, without an id that has no prefix. -/
def reserialize (item : Value) (index : ℕ) : Except String Value :=
  match items.fromValue item with
  | .error error => .error ("input item " ++ index.repr ++ " is invalid: " ++ error)
  | .ok parsed =>
    if items.isOther parsed then .error ("input item " ++ index.repr ++ " has unsupported type")
    else
      let parsed := if (items.id parsed).any (!isPrefixed ·) then items.clearId parsed else parsed
      match items.toValue parsed with
      | .error error =>
        .error ("input item " ++ index.repr ++ " could not be normalized: " ++ error)
      | .ok normalized => .ok normalized

/-- Normalizes an input item. -/
def normalizeResponseItem (item : Value) (index : ℕ) (namespaceCalls : NamespaceCallMap) :
    Except String Value :=
  match item.asObject with
  | none => .error ("input item " ++ index.repr ++ " must be an object")
  | some object =>
    match (object.get "type").bind Value.asStr with
    | none => .error ("input item " ++ index.repr ++ " has no string type")
    | some itemType =>
      if itemType ∉ itemTypes then
        .error ("input item " ++ index.repr ++ " has unsupported type")
      else do
        let object ← if itemType = "message" then normalizeMessageItem object index else .ok object
        let normalized ← reserialize items (.object object) index
        return removeResultName (restoreNamespace namespaceCalls normalized)

/-- Normalizes the input. -/
def normalizeResponseInput (input : Value) (namespaceCalls : NamespaceCallMap) :
    Except String Value := do
  let inputItems ← match input with
    | .string text => .ok [.obj [("type", .string "message"), ("role", .string "user"),
        ("content", .array [.obj [("type", .string "input_text"), ("text", .string text)]])]]
    | .array [] => .error "input must contain at least one item"
    | .array inputItems => .ok inputItems
    | _ => .error "input must be a string or an array"
  let normalized ← inputItems.zipIdx.mapM fun item =>
    normalizeResponseItem items item.1 item.2 namespaceCalls
  return .array normalized

/-- Normalizes the input of a request. -/
def normalizeInput (namespaceCalls : NamespaceCallMap) (object : Map Value) :
    Except String (Map Value) :=
  match object.get "input" with
  | none => .error "input is required"
  | some input => do
    let input ← normalizeResponseInput items input namespaceCalls
    return (object.erase "input").insert "input" input

end

/-! ## The other members -/

/-- Completes the choice of tools. Only the public API takes an object. -/
def normalizeToolChoice (apiKeyAuth : Bool) (object : Map Value) : Except String (Map Value) :=
  match object.get "tool_choice" with
  | none => .ok (object.insert "tool_choice" (.string "auto"))
  | some (.string _) => .ok object
  | some (.object _) =>
    if apiKeyAuth then .ok object else .error "tool_choice has an unsupported shape"
  | some _ => .error "tool_choice has an unsupported shape"

/-- Completes the permission of parallel calls. -/
def normalizeParallelToolCalls (object : Map Value) : Except String (Map Value) :=
  match object.get "parallel_tool_calls" with
  | none => .ok (object.insert "parallel_tool_calls" (.bool true))
  | some (.bool _) => .ok object
  | some _ => .error "parallel_tool_calls must be a boolean"

/-- The efforts of reasoning. -/
def reasoningEfforts : List String :=
  ["none", "minimal", "low", "medium", "high", "xhigh", "max", "ultra"]

/-- Whether a text is an effort of reasoning. -/
def isReasoningEffort (value : String) : Bool := value ∈ reasoningEfforts

/-- Whether a text is a kind of summary of reasoning. -/
def isReasoningSummary (value : String) : Bool := value ∈ ["auto", "concise", "detailed", "none"]

/-- Whether a member is missing, null, or a text of some kind. -/
def isOptional (isKind : String → Bool) (value : Option Value) : Bool :=
  value.all fun value => value.isNull || value.asStr.any isKind

/-- The reasoning of a subscription has an effort and a summary only. -/
def subscriptionReasoning (reasoning : Map Value) : Map Value :=
  let reasoning := reasoning.only ["effort", "summary"]
  if (reasoning.get "summary").bind Value.asStr = some "none" then reasoning.erase "summary"
  else reasoning

/-- Checks and reduces the reasoning. -/
def normalizeReasoning (apiKeyAuth : Bool) (object : Map Value) : Except String (Map Value) :=
  match object.get "reasoning" with
  | none | some .null => .ok object
  | some (.object reasoning) =>
    if !isOptional isReasoningEffort (Map.get reasoning "effort") then
      .error "reasoning effort is not supported"
    else if !isOptional isReasoningSummary (Map.get reasoning "summary") then
      .error "reasoning summary is not supported"
    else if apiKeyAuth then .ok object
    else .ok (object.insert "reasoning" (.object (subscriptionReasoning reasoning)))
  | some _ => .error "reasoning must be an object or null"

/-- Adds a value at the end, unless it is there. -/
def pushUnique (values : List Value) (value : Value) : List Value :=
  if value ∈ values then values else values ++ [value]

/-- Completes the list of included outputs. -/
def normalizeInclude (object : Map Value) : Except String (Map Value) :=
  match (object.get "include").getD (.array []) with
  | .array entries =>
    if !entries.all Value.isString then .error "include entries must be strings"
    else .ok (object.insert "include" (.array
      (pushUnique (entries.foldl pushUnique []) (.string "reasoning.encrypted_content"))))
  | _ => .error "include must be an array"

/-- Checks a limit. -/
def validateOptionalPositiveInteger (object : Map Value) (field : String) : Except String Unit :=
  if (object.get field).all fun value => value.isNull || value.asU64.any (· ≠ 0) then .ok ()
  else .error (field ++ " must be a positive integer or null")

/-- Checks the limit of the output, or removes what a subscription does not send. -/
def normalizeAccount (apiKeyAuth : Bool) (object : Map Value) : Except String (Map Value) :=
  if apiKeyAuth then do
    validateOptionalPositiveInteger object "max_output_tokens"
    return object
  else .ok (((object.erase "max_output_tokens").erase "client_metadata").erase "metadata")

/-! ## Responses Lite -/

/-- Removes the detail of an image. -/
def stripImageDetail (part : Value) : Value :=
  match (part.get "type").bind Value.asStr, part with
  | some "input_image", .object part => .object (Map.erase part "detail")
  | _, part => part

/-- Removes the details of the images in a member of an item. -/
def stripImageDetailsFromParts (key : String) (item : Value) : Value :=
  match item with
  | .object object => match Map.get object key with
    | some (.array parts) => .object (Map.insert object key (.array (parts.map stripImageDetail)))
    | _ => item
  | _ => item

/-- Removes the details of the images in an item. -/
def stripResponsesLiteImageDetails (item : Value) : Value :=
  match (item.get "type").bind Value.asStr with
  | some "message" => stripImageDetailsFromParts "content" item
  | some "function_call_output" | some "custom_tool_call_output" =>
    stripImageDetailsFromParts "output" item
  | _ => item

/-- Whether a tool is run by the provider. -/
def isHostedResponsesTool (toolType : String) : Bool :=
  toolType ∈ ["web_search", "web_search_preview", "file_search", "computer_use",
    "computer_use_preview", "code_interpreter", "image_generation"]

/-- What some tools have been grouped into. -/
structure ToolGroups where
  functions : List Value := []
  description : String := ""
  index : Option ℕ := none
  grouped : List Value := []

/-- Adds functions, whose namespace stands where the first of them was. -/
def ToolGroups.addFunctions (tools : List Value) (groups : ToolGroups) : ToolGroups :=
  { groups with
    functions := groups.functions ++ tools
    index := some (groups.index.getD groups.grouped.length) }

/-- Adds a tool to its group. -/
def groupTool (groups : ToolGroups) (tool : Value) : Except String ToolGroups :=
  match (tool.get "type").bind Value.asStr with
  | none => .error "each tool must have a string type"
  | some toolType =>
    if isHostedResponsesTool toolType then .ok groups
    else if toolType = "function" || toolType = "custom" then .ok (groups.addFunctions [tool])
    else if toolType = "namespace" && (tool.get "name").bind Value.asStr = some "functions" then
      let groups := match ((tool.get "description").bind Value.asStr).filter (trim · ≠ "") with
        | some description => { groups with description }
        | none => groups
      match (tool.get "tools").bind Value.asArray with
      | none => .error "functions namespace tools must be an array"
      | some tools => .ok (groups.addFunctions tools)
    else .ok { groups with grouped := groups.grouped ++ [tool] }

/-- Groups the functions of a request into one namespace. -/
def groupResponsesLiteTools (tools : List Value) : Except String (List Value) := do
  let groups ← tools.foldlM groupTool {}
  return match groups.index with
    | some index =>
      if groups.functions = [] then groups.grouped
      else groups.grouped.insertIdx index (.obj [("type", .string "namespace"),
        ("name", .string "functions"), ("description", .string groups.description),
        ("tools", .array groups.functions)])
    | none => groups.grouped

/-- The two hexadecimal digits of a byte. -/
def hexByte (byte : UInt8) : String :=
  String.ofList [Nat.digitChar (byte.toNat / 16), Nat.digitChar (byte.toNat % 16)]

section

variable (serde : Serde) (sha256 : Bytes → Bytes)

/-- The id of an item at the start of the input. -/
def stablePrefixItemId (start requestNamespace : String) (value : Value) : String :=
  let digest := sha256 (toUtf8 requestNamespace ++ [0] ++ serde.toVec value)
  start ++ "_" ++ String.join ((digest.take 16).map hexByte)

/-- The item that carries the tools. -/
def additionalTools (id : String) (tools : List Value) : Value :=
  .obj [("id", .string id), ("type", .string "additional_tools"), ("role", .string "developer"),
    ("tools", .array tools)]

/-- The item that carries the instructions. -/
def developerMessage (id instructions : String) : Value :=
  .obj [("id", .string id), ("type", .string "message"), ("role", .string "developer"),
    ("content", .array [.obj [("type", .string "input_text"), ("text", .string instructions)]]),
    ("internal_chat_message_metadata_passthrough",
      .obj [("content_item_kinds", .array [.string "model.base_instructions"])])]

/-- Puts a request into the dialect of Responses Lite. -/
def normalizeResponsesLiteRequest (object : Map Value) (requestNamespace : String) :
    Except String (Map Value) :=
  match (object.get "instructions").bind Value.asStr with
  | none => .error "instructions must be a string"
  | some instructions =>
    let object := object.erase "instructions"
    match (object.get "tools").bind Value.asArray with
    | none => .error "tools must be an array"
    | some tools => do
      let object := object.erase "tools"
      let tools ← groupResponsesLiteTools tools
      match (object.get "input").bind Value.asArray with
      | none => .error "input must be an array"
      | some input =>
        let start := additionalTools
            (stablePrefixItemId serde sha256 "at" requestNamespace (.array tools)) tools ::
          if instructions = "" then []
          else [developerMessage (stablePrefixItemId serde sha256 "msg" requestNamespace
            (.string instructions)) instructions]
        let object := object.insert "input"
          (.array (start ++ input.map stripResponsesLiteImageDetails))
        let object := object.insert "parallel_tool_calls" (.bool false)
        match (object.get "reasoning").getD (.object []) with
        | .object reasoning =>
          .ok (object.insert "reasoning"
            (.object (Map.insert reasoning "context" (.string "all_turns"))))
        | _ => .error "reasoning must be an object"

/-! ## The request -/

variable (items : ItemLibrary)

/-- The part of the normalization that both dialects share. -/
def normalizeMembers (body : Value) (apiKeyAuth : Bool) : Except String (Map Value) :=
  match body.asObject with
  | none => .error "request body must be an object"
  | some object =>
    match (object.get "model").bind Value.asStr with
    | none => .error "model must be a string"
    | some model => do
      validateModelId model
      let object ← normalizeInstructions object
      let object ← rejectStatefulReference "previous_response_id" object
      let object ← rejectStatefulReference "conversation" object
      let object ← normalizeTools object
      let namespaceCalls ← collectNamespaceCalls (toolsOf object)
      let object ← normalizeInput items namespaceCalls object
      let object ← normalizeToolChoice apiKeyAuth object
      let object ← normalizeParallelToolCalls object
      let object ← normalizeReasoning apiKeyAuth object
      let object ← normalizeInclude object
      normalizeAccount apiKeyAuth object

/-- Normalizes a request, in the dialect that its model asks for. -/
def normalizeResponsesRequest (body : Value) (apiKeyAuth useResponsesLite : Bool)
    (liteRequestNamespace : Option String) : Except String Value := do
  let object ← normalizeMembers items body apiKeyAuth
  let object ← if useResponsesLite then
      match liteRequestNamespace with
      | none => .error "Responses Lite request namespace was not initialized"
      | some requestNamespace => normalizeResponsesLiteRequest serde sha256 object requestNamespace
    else .ok object
  return .object ((object.insert "store" (.bool false)).insert "stream" (.bool true))

end

end MuseCodex.Transport
