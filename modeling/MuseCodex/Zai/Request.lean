import MuseCodex.Zai.Stream

/-!
# The request to Z.ai

The translation of `crates/codex-transport/src/zai/request.rs`, which turns a Responses request
into the body of a chat completion. Tool names are made safe for the wire and remembered
(`ToolNames.record`), tools and input items are translated one after the other, and consecutive
calls are folded into one message (`pushToolCall`). Whatever cannot be expressed is refused, with
the text of the error.
-/

namespace MuseCodex.Zai

open Text Json

/-! ## Tool names -/

/-- The longest function name on the wire. -/
def MAX_FUNCTION_NAME_BYTES : ℕ := 64

/-- The separator between a namespace and the name of a tool. -/
def NAMESPACE_SEPARATOR : Char := '.'

/-- The separator on the wire. -/
def ENCODED_NAMESPACE_SEPARATOR : String := "__"

/-- A character of a function name on the wire. -/
def isWireChar (c : Char) : Bool := isAsciiAlphanumeric c || c = '_' || c = '-'

/-- The text with another text in the place of each of its separators. -/
def replaceSeparator (s : String) : String :=
  String.ofList (s.toList.flatMap fun c =>
    if c = NAMESPACE_SEPARATOR then ENCODED_NAMESPACE_SEPARATOR.toList else [c])

/-- The name of a tool on the wire. -/
def encodeFunctionName (original : String) : Except String String :=
  let encoded := replaceSeparator original
  if encoded = "" || MAX_FUNCTION_NAME_BYTES < encoded.utf8ByteSize then
    .error ("tool name '" ++ original ++ "' does not fit Z.ai's 64-byte limit")
  else if !encoded.toList.all isWireChar then
    .error ("tool name '" ++ original ++ "' contains characters Z.ai does not accept")
  else .ok encoded

/-- Adds a tool under its name on the wire. -/
def ToolNames.insert (encoded original : String) (freeform : Bool) (names : ToolNames) :
    ToolNames where
  decoded := names.decoded.insert encoded original
  freeform := if freeform then names.freeform.insert encoded else names.freeform

/-- Remembers a tool, and returns its name on the wire. -/
def ToolNames.record (original : String) (freeform : Bool) (names : ToolNames) :
    Except String (String × ToolNames) :=
  match encodeFunctionName original with
  | .error error => .error error
  | .ok encoded =>
    match (names.decoded.get encoded).filter (· ≠ original) with
    | some existing => .error ("tools '" ++ existing ++ "' and '" ++ original ++
        "' collide after Z.ai name encoding")
    | none => .ok (encoded, names.insert encoded original freeform)

/-! ## Tools -/

/-- What the translator needs to know of a model. The limit is a constant of the catalog. -/
structure ModelLimits where
  acceptsImages : Bool
  maxOutputTokens : ℕ
  pos : 1 ≤ maxOutputTokens

/-- The name of a tool with that of its namespace. -/
def qualifiedName (tool : Map Value) (ns : Option String) : Except String String :=
  match nonEmptyStr (tool.get "name") with
  | none => .error "a tool needs a name"
  | some name => .ok (match ns with
    | some ns => ns ++ String.singleton NAMESPACE_SEPARATOR ++ name
    | none => name)

/-- The declaration of a tool on the wire, with its parameters. -/
def declaredTool (freeform : Bool) (parameters : Value) (tool : Map Value)
    (ns : Option String) (names : ToolNames) : Except String (Value × ToolNames) := do
  let original ← qualifiedName tool ns
  let (encoded, names) ← names.record original freeform
  let description := (tool.get "description").bind Value.asStr
  let function := .obj ([("name", .string encoded)] ++
    (description.map fun description => ("description", .string description)).toList ++
    [("parameters", parameters)])
  return (.obj [("type", .string "function"), ("function", function)], names)

/-- A function keeps its parameters. -/
def functionTool (tool : Map Value) (ns : Option String) (names : ToolNames) :
    Except String (Value × ToolNames) :=
  declaredTool false ((tool.get "parameters").getD
    (.obj [("type", .string "object"), ("properties", .obj [])])) tool ns names

/-- A freeform tool takes one string. -/
def customTool (tool : Map Value) (ns : Option String) (names : ToolNames) :
    Except String (Value × ToolNames) :=
  declaredTool true (.obj [("type", .string "object"),
    ("properties", .obj [("input", .obj [("type", .string "string")])]),
    ("required", .array [.string "input"])]) tool ns names

/-- The refusal of a tool of another type. -/
def unsupportedTool (type : Option String) : String :=
  "tool type '" ++ type.getD "(missing)" ++ "' is not supported by the Z.ai provider"

/-- Translates a tool of a namespace, after the tools before it. -/
def translateNestedTool (ns : String) (acc : List Value × ToolNames) (tool : Value) :
    Except String (List Value × ToolNames) := do
  let some tool := tool.asObject | .error "each namespaced tool must be an object"
  match (tool.get "type").bind Value.asStr with
  | some "function" =>
    let (translated, names) ← functionTool tool (some ns) acc.2
    return (acc.1 ++ [translated], names)
  | some "custom" =>
    let (translated, names) ← customTool tool (some ns) acc.2
    return (acc.1 ++ [translated], names)
  | other => .error (unsupportedTool other)

/-- Translates a tool, after the tools before it. -/
def translateTool (acc : List Value × ToolNames) (tool : Value) :
    Except String (List Value × ToolNames) := do
  let some tool := tool.asObject | .error "each tool must be an object"
  match (tool.get "type").bind Value.asStr with
  | some "function" =>
    let (translated, names) ← functionTool tool none acc.2
    return (acc.1 ++ [translated], names)
  | some "custom" =>
    let (translated, names) ← customTool tool none acc.2
    return (acc.1 ++ [translated], names)
  | some "namespace" =>
    let some ns := nonEmptyStr (tool.get "name") | .error "a tool namespace needs a name"
    let some nested := (tool.get "tools").bind Value.asArray
      | .error "a tool namespace needs a tools array"
    nested.foldlM (translateNestedTool ns) acc
  | other => .error (unsupportedTool other)

/-- Translates the tools of a request. -/
def translateTools (tools : Option Value) (names : ToolNames) :
    Except String (List Value × ToolNames) :=
  match tools.filter (!·.isNull) with
  | none => .ok ([], names)
  | some tools => match tools.asArray with
    | none => .error "tools must be an array"
    | some tools => tools.foldlM translateTool ([], names)

/-! ## Input items -/

/-- What the parts of a message's content have been translated to. -/
structure Content where
  text : String := ""
  multimodal : List Value := []
  hasImage : Bool := false

/-- Adds a piece of text on a line of its own. -/
def Content.addText (value : String) (content : Content) : Content :=
  { content with
    text := (if content.text = "" then content.text else content.text ++ "\n") ++ value
    multimodal := content.multimodal ++ [.obj [("type", .string "text"), ("text", .string value)]] }

/-- Adds an image. -/
def Content.addImage (url : String) (content : Content) : Content :=
  { content with
    multimodal := content.multimodal ++ [.obj [("type", .string "image_url"),
      ("image_url", .obj [("url", .string url)])]]
    hasImage := true }

/-- Translates a part of a message's content, after the parts before it. -/
def translateContentPart (limits : ModelLimits) (content : Content) (part : Value) :
    Except String Content :=
  match part.asObject with
  | none => .error "each content part must be an object"
  | some part =>
    match (part.get "type").bind Value.asStr with
    | some "input_text" | some "output_text" | some "text" | some "summary_text" =>
      .ok (content.addText (((part.get "text").bind Value.asStr).getD ""))
    | some "refusal" => .ok (content.addText (((part.get "refusal").bind Value.asStr).getD ""))
    | some "input_image" =>
      if !limits.acceptsImages then .error "the selected Z.ai model does not accept image input"
      else match (part.get "image_url").bind Value.asStr with
        | none => .error "an image content part needs an image_url"
        | some url => .ok (content.addImage url)
    | other => .error ("content part type '" ++ other.getD "(missing)" ++
        "' is not supported by the Z.ai provider")

/-- Translates the parts of a message's content. Only a user turn can carry images. -/
def translateContentParts (parts : List Value) (role : String) (limits : ModelLimits) :
    Except String Value := do
  let content ← parts.foldlM (translateContentPart limits) {}
  return if content.hasImage && role = "user" then .array content.multimodal
    else .string content.text

/-- Translates a message. -/
def translateMessage (item : Map Value) (limits : ModelLimits) : Except String Value := do
  let role ← match (item.get "role").bind Value.asStr with
    | some "developer" | some "system" => .ok "system"
    | some "user" => .ok "user"
    | some "assistant" => .ok "assistant"
    | other => .error ("message role '" ++ other.getD "(missing)" ++
        "' is not supported by the Z.ai provider")
  let content ← match item.get "content" with
    | some (.string text) => .ok (.string text)
    | some (.array parts) => translateContentParts parts role limits
    | none | some .null => .ok (.string "")
    | some _ => .error "message content must be a string or an array"
  return .obj [("role", .string role), ("content", content)]

/-- Adds a call to the messages: to the last one, when it is a message of calls, or else in a new
one. -/
def pushToolCall (messages : List Value) (call : Value) : List Value :=
  let calls := messages.getLast?.bind fun last => last.asObject.bind fun last =>
    if (last.get "role").bind Value.asStr = some "assistant" then
      ((last.get "tool_calls").bind Value.asArray).map fun calls =>
        .object (last.insert "tool_calls" (.array (calls ++ [call])))
    else none
  match calls with
  | some last => messages.dropLast ++ [last]
  | none => messages ++ [.obj [("role", .string "assistant"), ("content", .null),
      ("tool_calls", .array [call])]]

variable (serde : Serde)

/-- The arguments of a call on the wire. A freeform call wraps its input. -/
def wireArguments (freeform : Bool) (raw : String) : String :=
  if freeform then serde.toString (.obj [("input", .string raw)])
  else if raw = "" then "\x7b\x7d"
  else raw

/-- Translates a call. -/
def toolCall (item : Map Value) (argumentsField : String) (names : ToolNames) (freeform : Bool) :
    Except String (Value × ToolNames) :=
  match nonEmptyStr (item.get "call_id") with
  | none => .error "a tool call needs a call_id"
  | some callId => match nonEmptyStr (item.get "name") with
    | none => .error "a tool call needs a name"
    | some name => do
      let (encoded, names) ← names.record name freeform
      let raw := ((item.get argumentsField).bind Value.asStr).getD ""
      return (.obj [("id", .string callId),
        ("type", .string "function"),
        ("function", .obj [("name", .string encoded),
          ("arguments", .string (wireArguments serde freeform raw))])], names)

/-- Translates the result of a call. -/
def toolResult (item : Map Value) : Except String Value :=
  match nonEmptyStr (item.get "call_id") with
  | none => .error "a tool result needs a call_id"
  | some callId =>
    let content := match item.get "output" with
      | some (.string output) => output
      | some value => serde.toString value
      | none => ""
    .ok (.obj [("role", .string "tool"), ("tool_call_id", .string callId),
      ("content", .string content)])

/-- Translates an input item, after the items before it. Reasoning is left out. -/
def translateItem (limits : ModelLimits) (acc : List Value × ToolNames) (item : Value) :
    Except String (List Value × ToolNames) :=
  match item.asObject with
  | none => .error "each input item must be an object"
  | some item =>
    match (item.get "type").bind Value.asStr with
    | some "message" => do
      let message ← translateMessage item limits
      return (acc.1 ++ [message], acc.2)
    | some "reasoning" => .ok acc
    | some "function_call" => do
      let (call, names) ← toolCall serde item "arguments" acc.2 false
      return (pushToolCall acc.1 call, names)
    | some "custom_tool_call" => do
      let (call, names) ← toolCall serde item "input" acc.2 true
      return (pushToolCall acc.1 call, names)
    | some "function_call_output" | some "custom_tool_call_output" => do
      let result ← toolResult serde item
      return (acc.1 ++ [result], acc.2)
    | other => .error ("input item type '" ++ other.getD "(missing)" ++
        "' is not supported by the Z.ai provider")

/-- The message of the instructions of a request. -/
def instructionMessages (request : Map Value) : List Value :=
  ((nonEmptyStr (request.get "instructions")).map fun instructions =>
    .obj [("role", .string "system"), ("content", .string instructions)]).toList

/-- Translates the instructions and the input of a request. -/
def translateMessages (request : Map Value) (names : ToolNames) (limits : ModelLimits) :
    Except String (List Value × ToolNames) :=
  match request.get "input" with
  | none | some .null => .ok (instructionMessages request, names)
  | some (.array input) => input.foldlM (translateItem serde limits)
      (instructionMessages request, names)
  | some _ => .error "input must be an array"

/-! ## The request -/

/-- The effort on the wire; none switches the thinking off. -/
def mapReasoningEffort (effort : String) : Except String (Option String) :=
  match effort with
  | "none" => .ok none
  | "minimal" => .ok (some "minimal")
  | "low" => .ok (some "low")
  | "medium" => .ok (some "medium")
  | "high" => .ok (some "high")
  | "xhigh" | "max" | "ultra" => .ok (some "xhigh")
  | other => .error ("reasoning effort '" ++ other ++ "' is not supported by the Z.ai provider")

/-- The member that an effort leads to. -/
def effortEntry (request : Map Value) : Except String (List (String × Value)) :=
  match (((request.get "reasoning").bind Value.asObject).bind (·.get "effort")).bind
      Value.asStr with
  | none => .ok []
  | some effort => do
    match ← mapReasoningEffort effort with
    | some effort => return [("reasoning_effort", .string effort)]
    | none => return [("thinking", .obj [("type", .string "disabled")])]

/-- A request on the wire, with the names of its tools. -/
structure TranslatedRequest where
  body : Value
  tools : ToolNames

/-- The members that a request with tools has. -/
def toolEntries (tools : List Value) : List (String × Value) :=
  if tools = [] then []
  else [("tools", .array tools), ("tool_choice", .string "auto"), ("tool_stream", .bool true)]

/-- The limit of the output, within that of the model. -/
def limitEntry (request : Map Value) (limits : ModelLimits) : List (String × Value) :=
  (((request.get "max_output_tokens").bind Value.asU64).map fun n =>
    ("max_tokens", Value.ofNat (min (max 1 n) limits.maxOutputTokens))).toList

/-- Translates a request. -/
def translate (request : Value) (limits : ModelLimits) : Except String TranslatedRequest :=
  match request.asObject with
  | none => .error "the Responses request must be an object"
  | some object => match nonEmptyStr (object.get "model") with
    | none => .error "the Responses request needs a model"
    | some model =>
      match ["previous_response_id", "conversation"].find? fun field =>
          (object.get field).any (!·.isNull) with
      | some field => .error (field ++ " is not supported by the Z.ai provider")
      | none => do
        let (translatedTools, tools) ← translateTools (object.get "tools") {}
        let (messages, tools) ← translateMessages serde object tools limits
        let effort ← effortEntry object
        return ⟨.obj ([("model", .string model), ("messages", .array messages)] ++
          toolEntries translatedTools ++ effort ++ limitEntry object limits ++
          [("stream", .bool true)]), tools⟩

end MuseCodex.Zai
