import MuseCodex.Framing
import MuseCodex.Json.Serde

/-!
# The Responses stream synthesized from Z.ai

The state machine of `crates/codex-transport/src/zai/stream.rs`, which turns the server-sent
events of a chat completion into the events of a Responses stream. `Synthesis` is the state of the
source without the byte buffer: `handleChunk` reads one chunk of the completion, `complete` and
`fail` end the stream. `State` adds the buffer that `push` cuts into frames, and `next` is the
closure that drives the machine.

Reasoning and message items go through the same steps under different names, so those steps are
written once, for a `Channel`. An event is queued as its kind and its document and is printed
when the stream yields it (`Event.render`). The indices and the sequence numbers are natural
numbers. Two numbers from upstream can pass the width of a machine word: the sum of two token
counts, and the length that a tool call asks the table of calls to have. The loop that grows the
table does not end for the largest index there is, so neither does the poll that runs it, and the
stream yields nothing more (`Synthesis.isStuck`).
-/

namespace MuseCodex.Zai

open Text Json

/-- The largest number of bytes that are buffered. -/
def MAX_BUFFERED_BYTES : ℕ := 8 * 1024 * 1024

/-- The longest identifier that is taken over from upstream. -/
def MAX_IDENTIFIER_BYTES : ℕ := 64

/-! ## Frames -/

/-- The loop of `complete_frame_len`, at `index`, on the bytes of the buffer from there on. The
current line starts at `lineStart`. -/
def completeFrameLenFrom (lineStart index : ℕ) : Bytes → Option ℕ
  | [] => none
  | byte :: rest =>
    if byte ≠ LF ∧ byte ≠ CR then completeFrameLenFrom lineStart (index + 1) rest
    else if byte = CR ∧ rest.head? = some LF then
      if index = lineStart then some (index + 2)
      else completeFrameLenFrom (index + 2) (index + 2) rest.tail
    else
      if index = lineStart then some (index + 1)
      else completeFrameLenFrom (index + 1) (index + 1) rest
termination_by buffer => buffer.length
decreasing_by
  all_goals simp only [List.length_cons, List.length_tail]
  all_goals omega

/-- The length of a buffer through its first blank line. -/
def completeFrameLen (buffer : Bytes) : Option ℕ := completeFrameLenFrom 0 0 buffer

/-- The end of a frame lies within the bytes. -/
theorem completeFrameLenFrom_bounds {lineStart index : ℕ} {buffer : Bytes} {n : ℕ}
    (h : completeFrameLenFrom lineStart index buffer = some n) :
    index < n ∧ n ≤ index + buffer.length := by
  fun_induction completeFrameLenFrom lineStart index buffer with
  | case1 => cases h
  | case2 lineStart index byte rest hbyte ih =>
    have := ih h
    rw [List.length_cons]
    omega
  | case3 index byte rest hbyte hcrlf =>
    cases rest with
    | nil => simp at hcrlf
    | cons next rest =>
      cases h
      simp only [List.length_cons]
      omega
  | case4 lineStart index byte rest hbyte hcrlf hne ih =>
    cases rest with
    | nil => simp at hcrlf
    | cons next rest =>
      have := ih h
      simp only [List.length_cons, List.tail_cons] at this ⊢
      omega
  | case5 index byte rest =>
    cases h
    rw [List.length_cons]
    omega
  | case6 lineStart index byte rest hbyte hcrlf hne ih =>
    have := ih h
    rw [List.length_cons]
    omega

/-- `complete_frame_len` as a scanner. -/
def scanner : Framing.Scanner UInt8 where
  scan := completeFrameLen
  pos h := (completeFrameLenFrom_bounds h).1
  le_length h := by simpa using (completeFrameLenFrom_bounds h).2

/-- Adds the data of one line to the data of a frame. -/
def readLine (data line : String) : String :=
  let line := (stripPrefix '\ufeff' line).getD line
  if line = "" || startsWith ':' line then data
  else match splitOnce ':' line with
    | none => data
    | some (field, value) =>
      if field ≠ "data" then data
      else
        let data := if data = "" then data else data ++ "\n"
        data ++ (stripPrefix ' ' value).getD value

/-- The data of the text of a frame. -/
def frameData (text : String) : String := (lines text).foldl readLine ""

/-! ## Names and identifiers -/

/-- The tools of a request, under their names on the wire: the name that Muse knows each of them
by, and those that take freeform input. -/
structure ToolNames where
  decoded : Map String := []
  freeform : List String := []

/-- The name that Muse knows a tool by; an unknown name is passed through. -/
def ToolNames.decode (tools : ToolNames) (encoded : String) : String :=
  (tools.decoded.get encoded).getD encoded

/-- Whether a tool takes freeform input. -/
def ToolNames.isFreeform (tools : ToolNames) (encoded : String) : Bool :=
  encoded ∈ tools.freeform

/-- Reduces an identifier from upstream to a conservative alphabet. -/
def sanitizeIdentifier (value : String) : String :=
  let filtered := (value.toList.filter fun c => isAsciiAlphanumeric c || c = '_' || c = '-').take
    MAX_IDENTIFIER_BYTES
  if filtered = [] then "unknown" else String.ofList filtered

/-- The text of a member, unless it is empty. -/
def nonEmptyStr (value : Option Value) : Option String :=
  (value.bind Value.asStr).filter (· ≠ "")

/-! ## Events and items -/

/-- The type of an item, in a request or in a response. -/
def itemType (item : Value) : Option String := (item.get "type").bind Value.asStr

/-- Whether an item is reasoning. -/
def isReasoningItem (item : Value) : Bool := itemType item = some "reasoning"

/-- An event of the synthesized stream. -/
structure Event where
  kind : String
  value : Value
deriving DecidableEq

/-- The event with a sequence number, a kind, and further members. -/
def Event.of (sequence : ℕ) (kind : String) (body : List (String × Value)) : Event :=
  ⟨kind, .object (((Map.ofEntries body).insert "type" (.string kind)).insert "sequence_number"
    (.ofNat sequence))⟩

/-- The frame that sends an event. -/
def Event.render (serde : Serde) (event : Event) : Bytes :=
  toUtf8 ("event: " ++ event.kind ++ "\ndata: " ++ serde.toString event.value ++ "\n\n")

/-- A reasoning or message item that is being sent. -/
structure TextItem where
  id : String
  outputIndex : ℕ
  text : String

/-- A tool call whose fragments are being received. -/
structure PendingCall where
  id : String := ""
  outputIndex : ℕ := 0
  callId : String := ""
  encodedName : String := ""
  name : String := ""
  arguments : String := ""
  freeform : Bool := false
  announced : Bool := false

/-- The item of a call, with the text of its arguments or of its input. -/
def PendingCall.item (entry : PendingCall) (status text : String) : Value :=
  if entry.freeform then
    .obj [("id", .string entry.id),
      ("type", .string "custom_tool_call"),
      ("status", .string status),
      ("call_id", .string entry.callId),
      ("name", .string entry.name),
      ("input", .string text)]
  else
    .obj [("id", .string entry.id),
      ("type", .string "function_call"),
      ("status", .string status),
      ("call_id", .string entry.callId),
      ("name", .string entry.name),
      ("arguments", .string text)]

/-- The two kinds of items that carry text. -/
inductive Channel where
  | reasoning
  | message
deriving DecidableEq

namespace Channel

/-- The start of an item's id. -/
def idTag : Channel → String
  | .reasoning => "rs"
  | .message => "msg"

/-- The member that numbers the parts of an item. -/
def indexKey : Channel → String
  | .reasoning => "summary_index"
  | .message => "content_index"

/-- The kind of the event that adds a part. -/
def partAddedKind : Channel → String
  | .reasoning => "response.reasoning_summary_part.added"
  | .message => "response.content_part.added"

/-- The kind of the event that sends a piece of text. -/
def deltaKind : Channel → String
  | .reasoning => "response.reasoning_summary_text.delta"
  | .message => "response.output_text.delta"

/-- The kind of the event that ends the text. -/
def textDoneKind : Channel → String
  | .reasoning => "response.reasoning_summary_text.done"
  | .message => "response.output_text.done"

/-- The kind of the event that ends a part. -/
def partDoneKind : Channel → String
  | .reasoning => "response.reasoning_summary_part.done"
  | .message => "response.content_part.done"

/-- The part that carries a text. -/
def part (text : String) : Channel → Value
  | .reasoning => .obj [("type", .string "summary_text"), ("text", .string text)]
  | .message =>
    .obj [("type", .string "output_text"), ("text", .string text), ("annotations", .array [])]

/-- The item with an id and parts. Only a message has a status. -/
def item (id status : String) (parts : List Value) : Channel → Value
  | .reasoning =>
    .obj [("id", .string id), ("type", .string "reasoning"), ("summary", .array parts)]
  | .message =>
    .obj [("id", .string id),
      ("type", .string "message"),
      ("status", .string status),
      ("role", .string "assistant"),
      ("content", .array parts)]

end Channel

/-! ## The state of a response -/

/-- The state of the source, without the bytes that are buffered. The last field is not in the
source: it is the largest number of entries that a call has asked the table of calls to have. -/
structure Synthesis where
  model : String
  responseId : String := ""
  idStem : String := ""
  requestKey : String
  tools : ToolNames
  pending : List Event := []
  output : List Value := []
  calls : List PendingCall := []
  reasoning : Option TextItem := none
  message : Option TextItem := none
  usage : Option Value := none
  nextOutputIndex : ℕ := 0
  sequence : ℕ := 0
  started : Bool := false
  finished : Bool := false
  terminated : Bool := false
  peak : ℕ := 0

/-- The input of a freeform call: the one string member of its arguments, or the arguments as they
are when they do not have that shape. -/
def freeformInput (serde : Serde) (arguments : String) : String :=
  match serde.fromStr arguments with
  | .ok value => ((value.get "input").bind Value.asStr).getD arguments
  | .error _ => arguments

/-- The token counts of a completion under their names in a response. -/
def mapUsage (usage : Value) : Value :=
  let input := (usage.get "prompt_tokens").bind Value.asU64
  let output := (usage.get "completion_tokens").bind Value.asU64
  let total := ((usage.get "total_tokens").bind Value.asU64).getD
    ((input.getD 0 + output.getD 0) % 2 ^ 64)
  .obj ((input.map fun n => ("input_tokens", Value.ofNat n)).toList ++
    (output.map fun n => ("output_tokens", Value.ofNat n)).toList ++
    [("total_tokens", .ofNat total)])

namespace Synthesis

/-- The id of an item. -/
def itemId (tag : String) (outputIndex : ℕ) (st : Synthesis) : String :=
  tag ++ "_" ++ st.idStem ++ "_" ++ outputIndex.repr

/-- Queues an event. -/
def emit (kind : String) (body : List (String × Value)) (st : Synthesis) : Synthesis :=
  { st with
    pending := st.pending ++ [.of st.sequence kind body]
    sequence := st.sequence + 1 }

/-- Ends the stream with an error. -/
def fail (message : String) (st : Synthesis) : Synthesis :=
  if st.terminated then { st with finished := true }
  else
    let st := st.emit "error" ([("message", .string message), ("code", .string "invalid_request")]
      ++ if st.responseId ≠ "" then [("response_id", .string st.responseId)] else [])
    { st with terminated := true, finished := true }

/-- The document of the response. -/
def responseEnvelope (status : String) (finishReason : Option String) (includeOutput : Bool)
    (st : Synthesis) : Value :=
  .obj ([("id", .string st.responseId),
      ("object", .string "response"),
      ("status", .string status),
      ("model", .string st.model),
      ("output", .array (if includeOutput then st.output else []))] ++
    (st.usage.map fun usage => ("usage", usage)).toList ++
    if finishReason = some "length" then
      [("incomplete_details", .obj [("reason", .string "max_output_tokens")])]
    else [])

/-! ### Reasoning and text -/

/-- The item of a channel that is being sent. -/
def slot (c : Channel) (st : Synthesis) : Option TextItem :=
  match c with
  | .reasoning => st.reasoning
  | .message => st.message

/-- Sets the item of a channel that is being sent. -/
def setSlot (c : Channel) (item : Option TextItem) (st : Synthesis) : Synthesis :=
  match c with
  | .reasoning => { st with reasoning := item }
  | .message => { st with message := item }

/-- Starts an item of a channel, unless one is being sent. -/
def openItem (c : Channel) (st : Synthesis) : Synthesis :=
  match st.slot c with
  | some _ => st
  | none =>
    let outputIndex := st.nextOutputIndex
    let id := st.itemId c.idTag outputIndex
    let st := { st with nextOutputIndex := outputIndex + 1 }
    let st := st.emit "response.output_item.added"
      [("output_index", .ofNat outputIndex), ("item", c.item id "in_progress" [])]
    let st := st.emit c.partAddedKind
      [("item_id", .string id), ("output_index", .ofNat outputIndex), (c.indexKey, .ofNat 0),
        ("part", c.part "")]
    st.setSlot c (some ⟨id, outputIndex, ""⟩)

/-- Sends a piece of the text of an item. -/
def extendItem (c : Channel) (delta : String) (st : Synthesis) : Synthesis :=
  match st.slot c with
  | none => st
  | some current =>
    (st.setSlot c (some { current with text := current.text ++ delta })).emit c.deltaKind
      [("item_id", .string current.id), ("output_index", .ofNat current.outputIndex),
        (c.indexKey, .ofNat 0), ("delta", .string delta)]

/-- Ends the item of a channel, if one is being sent. -/
def closeItem (c : Channel) (st : Synthesis) : Synthesis :=
  match st.slot c with
  | none => st
  | some current =>
    let st := st.setSlot c none
    let st := st.emit c.textDoneKind
      [("item_id", .string current.id), ("output_index", .ofNat current.outputIndex),
        (c.indexKey, .ofNat 0), ("text", .string current.text)]
    let st := st.emit c.partDoneKind
      [("item_id", .string current.id), ("output_index", .ofNat current.outputIndex),
        (c.indexKey, .ofNat 0), ("part", c.part current.text)]
    let item := c.item current.id "completed" [c.part current.text]
    let st := st.emit "response.output_item.done"
      [("output_index", .ofNat current.outputIndex), ("item", item)]
    { st with output := st.output ++ [item] }

/-- Ends the reasoning item. -/
def closeReasoning (st : Synthesis) : Synthesis := st.closeItem .reasoning

/-- Ends the message item. -/
def closeMessage (st : Synthesis) : Synthesis := st.closeItem .message

/-- Sends a piece of reasoning, after the message that came before it. -/
def pushReasoning (delta : String) (st : Synthesis) : Synthesis :=
  (st.closeMessage.openItem .reasoning).extendItem .reasoning delta

/-- Sends a piece of text, after the reasoning that came before it. -/
def pushText (delta : String) (st : Synthesis) : Synthesis :=
  (st.closeReasoning.openItem .message).extendItem .message delta

/-! ### Tool calls -/

/-- The call at an index. -/
def callAt (index : ℕ) (st : Synthesis) : PendingCall := st.calls.getD index {}

/-- Sets the call at an index. -/
def setCall (index : ℕ) (entry : PendingCall) (st : Synthesis) : Synthesis :=
  { st with calls := st.calls.set index entry }

/-- Makes room for the call at an index. -/
def growCalls (index : ℕ) (st : Synthesis) : Synthesis :=
  { st with
    calls := st.calls ++ List.replicate (index + 1 - st.calls.length) {}
    peak := max st.peak (index + 1) }

/-- Whether a call has asked for a table of `2^64` entries or more. No table has as many, so the
loop that makes room for the call never ends, and what follows it is never done. -/
def isStuck (st : Synthesis) : Bool := 2 ^ 64 ≤ st.peak

/-- Gives a call its item id and its index in the output with its first fragment. -/
def reserveCall (index : ℕ) (st : Synthesis) : Synthesis :=
  let entry := st.callAt index
  if entry.id = "" then
    let outputIndex := st.nextOutputIndex
    { st with nextOutputIndex := outputIndex + 1 }.setCall index
      { entry with outputIndex, id := st.itemId "fc" outputIndex }
  else st

/-- Takes the call id of a fragment, unless the call has one. -/
def identifyCall (index : ℕ) (call : Value) (st : Synthesis) : Synthesis :=
  let entry := st.callAt index
  match nonEmptyStr (call.get "id") with
  | some callId =>
    if entry.callId = "" then st.setCall index { entry with callId := sanitizeIdentifier callId }
    else st
  | none => st

/-- The text of a member of a fragment's function, unless it is empty. -/
def functionStr (key : String) (call : Value) : Option String :=
  nonEmptyStr (((call.get "function").bind Value.asObject).bind (·.get key))

/-- Takes the tool name of a fragment, unless the call has one. -/
def nameCall (index : ℕ) (call : Value) (st : Synthesis) : Synthesis :=
  let entry := st.callAt index
  match functionStr "name" call with
  | some name =>
    if entry.encodedName = "" then
      st.setCall index { entry with
        encodedName := name
        name := st.tools.decode name
        freeform := st.tools.isFreeform name }
    else st
  | none => st

/-- Announces a call once its name and its call id are known. -/
def announceCall (index : ℕ) (st : Synthesis) : Synthesis :=
  let entry := st.callAt index
  if !entry.announced && entry.encodedName ≠ "" && entry.callId ≠ "" then
    (st.setCall index { entry with announced := true }).emit "response.output_item.added"
      [("output_index", .ofNat entry.outputIndex), ("item", entry.item "in_progress" "")]
  else st

/-- Adds the arguments of a fragment to a call and, unless the call is freeform or not yet
announced, sends them. -/
def pushArguments (index : ℕ) (call : Value) (st : Synthesis) : Synthesis :=
  let entry := st.callAt index
  match functionStr "arguments" call with
  | some fragment =>
    let st := st.setCall index { entry with arguments := entry.arguments ++ fragment }
    if !entry.freeform && entry.announced then
      st.emit "response.function_call_arguments.delta"
        [("item_id", .string entry.id), ("output_index", .ofNat entry.outputIndex),
          ("delta", .string fragment)]
    else st
  | none => st

/-- The index of the call that a fragment belongs to. -/
def callIndex (call : Value) : ℕ := ((call.get "index").bind Value.asU64).getD 0

/-- Takes in one fragment of a tool call. -/
def pushToolCall (call : Value) (st : Synthesis) : Synthesis :=
  let index := callIndex call
  let st := (st.closeReasoning.closeMessage.growCalls index).reserveCall index
  let st := (st.identifyCall index call).nameCall index call
  (st.announceCall index).pushArguments index call

variable (serde : Serde)

/-- The text that the done item of a call carries. -/
def callText (call : PendingCall) : String :=
  if call.freeform then freeformInput serde call.arguments
  else if call.arguments = "" then "\x7b\x7d"
  else call.arguments

/-- Ends the item of a call. -/
def closeToolCall (st : Synthesis) (call : PendingCall) : Synthesis :=
  let text := callText serde call
  let st :=
    if call.freeform then
      (st.emit "response.custom_tool_call_input.delta"
        [("item_id", .string call.id), ("output_index", .ofNat call.outputIndex),
          ("delta", .string text)]).emit "response.custom_tool_call_input.done"
        [("item_id", .string call.id), ("output_index", .ofNat call.outputIndex),
          ("input", .string text)]
    else
      st.emit "response.function_call_arguments.done"
        [("item_id", .string call.id), ("output_index", .ofNat call.outputIndex),
          ("arguments", .string text)]
  let item := call.item "completed" text
  let st := st.emit "response.output_item.done"
    [("output_index", .ofNat call.outputIndex), ("item", item)]
  { st with output := st.output ++ [item] }

/-- Ends the items of all calls that were announced, and forgets the others. -/
def closeToolCalls (st : Synthesis) : Synthesis :=
  (st.calls.filter (·.announced)).foldl (closeToolCall serde) { st with calls := [] }

/-! ### The life of a response -/

/-- Sends the response, whose items have all been ended, as the end of the stream. -/
def finish (finishReason : Option String) (st : Synthesis) : Synthesis :=
  let truncated := finishReason = some "length"
  let status := if truncated then "incomplete" else "completed"
  let response := st.responseEnvelope status finishReason true
  let st := st.emit (if truncated then "response.incomplete" else "response.completed")
    [("response", response)]
  { st with terminated := true, finished := true }

/-- Ends the stream with the response. -/
def complete (finishReason : Option String) (st : Synthesis) : Synthesis :=
  if st.terminated then st
  else if !st.started then st.fail "the Z.ai stream ended before any content arrived"
  else (st.closeReasoning.closeMessage.closeToolCalls serde).finish finishReason

/-- The stem of all ids: the id of the first chunk, or else the key of the request. -/
def deriveIdStem (chunk : Value) (st : Synthesis) : String :=
  sanitizeIdentifier ((nonEmptyStr (chunk.get "id")).getD st.requestKey)

/-- Starts the response with its first chunk. -/
def start (chunk : Value) (st : Synthesis) : Synthesis :=
  if st.started then st
  else
    let stem := st.deriveIdStem chunk
    let st := { st with
      started := true
      idStem := stem
      responseId := "resp_" ++ stem
      model := (nonEmptyStr (chunk.get "model")).getD st.model }
    let response := st.responseEnvelope "in_progress" none false
    (st.emit "response.created" [("response", response)]).emit "response.in_progress"
      [("response", response)]

/-- The first choice of a chunk. -/
def firstChoice (chunk : Value) : Option Value :=
  ((chunk.get "choices").bind Value.asArray).bind List.head?

/-- Takes in the delta of a choice: its reasoning, its text, and its fragments of tool calls. -/
def handleDelta (delta : Map Value) (st : Synthesis) : Synthesis :=
  let st := match nonEmptyStr (delta.get "reasoning_content") with
    | some reasoning => st.pushReasoning reasoning
    | none => st
  let st := match nonEmptyStr (delta.get "content") with
    | some content => st.pushText content
    | none => st
  (((delta.get "tool_calls").bind Value.asArray).getD []).foldl (fun st call =>
    st.pushToolCall call) st

/-- Notes the token counts that a chunk reports. -/
def noteUsage (chunk : Value) (st : Synthesis) : Synthesis :=
  match (chunk.get "usage").filter Value.isObject with
  | some usage => { st with usage := some (mapUsage usage) }
  | none => st

/-- Takes in one chunk of the completion. -/
def handleChunk (chunk : Value) (st : Synthesis) : Synthesis :=
  match (chunk.get "error").filter (fun error => !error.isNull) with
  | some error =>
    st.fail (((error.get "message").bind Value.asStr).getD "the Z.ai stream reported an error")
  | none =>
    let st := (st.start chunk).noteUsage chunk
    match firstChoice chunk with
    | none => st
    | some choice =>
      let st := match (choice.get "delta").bind Value.asObject with
        | some delta => st.handleDelta delta
        | none => st
      match nonEmptyStr (choice.get "finish_reason") with
      | some reason => st.complete serde (some reason)
      | none => st

/-- Takes in one frame, or returns the text of the error that ends the stream. -/
def handleFrame (frame : Bytes) (st : Synthesis) : Except String Synthesis :=
  match fromUtf8 frame with
  | none => .error "upstream response was invalid: the Z.ai stream was not UTF-8"
  | some text =>
    let data := frameData text
    if data = "" then .ok st
    else if trim data = "[DONE]" then
      let st :=
        if st.terminated then st
        else if st.started then st.complete serde none
        else st.fail "the Z.ai stream ended before any content arrived"
      .ok { st with finished := true }
    else match serde.fromStr data with
      | .error error =>
        .error ("upstream response was invalid: the Z.ai stream sent invalid JSON: " ++ error)
      | .ok chunk => .ok (st.handleChunk serde chunk)

/-- The upstream body ended. -/
def endOfStream (st : Synthesis) : Synthesis :=
  if st.terminated then { st with finished := true }
  else { st.fail "the Z.ai stream ended before a terminal event" with finished := true }

end Synthesis

/-! ## The stream -/

/-- The state of the source. -/
structure State extends Synthesis where
  buffer : Bytes := []

/-- What one poll of the upstream body returns: a chunk, or a transport error with its text. -/
inductive Poll where
  | chunk (bytes : Bytes)
  | error (message : String)

namespace State

variable (serde : Serde)

/-- Ends the stream with an error. -/
def fail (message : String) (st : State) : State :=
  { st with toSynthesis := st.toSynthesis.fail message }

/-- Takes in the frames of the buffer that are complete, until one of them ends the stream. -/
def drain (st : State) : State :=
  match _h : completeFrameLen st.buffer with
  | none => st
  | some length =>
    let frame := st.buffer.take length
    let buffer := st.buffer.drop length
    match st.toSynthesis.handleFrame serde frame with
    | .error error => ({ st with buffer } : State).fail error
    | .ok synthesis =>
      if synthesis.terminated then ⟨synthesis, buffer⟩ else drain ⟨synthesis, buffer⟩
termination_by st.buffer.length
decreasing_by
  have := scanner.pos _h
  have := scanner.le_length _h
  rw [List.length_drop]
  omega

/-- Takes in one chunk of bytes. -/
def push (chunk : Bytes) (st : State) : State :=
  if st.terminated then st
  else if MAX_BUFFERED_BYTES < st.buffer.length + chunk.length then
    st.fail "the Z.ai stream exceeded the buffered event limit"
  else drain serde { st with buffer := st.buffer ++ chunk }

/-- Takes in what one poll of the upstream body returned, or its end. -/
def poll (polled : Option Poll) (st : State) : State :=
  match polled with
  | some (.chunk bytes) => st.push serde bytes
  | some (.error message) => st.fail ("upstream stream failed: " ++ message)
  | none => { st with toSynthesis := st.toSynthesis.endOfStream }

/-- The next event that the stream yields, with the rest of the upstream body and the next state;
nothing when the stream has ended, and nothing when it is stuck. -/
def next (upstream : List Poll) (st : State) : Option (Event × List Poll × State) :=
  match st.pending with
  | event :: pending => some (event, upstream, { st with pending })
  | [] =>
    if st.finished then none
    else match upstream with
      | polled :: upstream =>
        -- A poll that is stuck does not return, and what it has queued is not yielded.
        if (st.poll serde (some polled)).isStuck then none
        else next upstream (st.poll serde (some polled))
      | [] =>
        -- The end of the body finishes the stream, so there is no further poll.
        match (st.poll serde none).pending with
        | event :: pending => some (event, [], { st.poll serde none with pending })
        | [] => none

/-- How many more polls a stream can make. -/
def pollsLeft (upstream : List Poll) (st : State) : ℕ :=
  upstream.length + if st.finished then 0 else 1

/-- The end of the body finishes the stream. -/
theorem endOfStream_finished (st : State) : (st.poll serde none).finished = true := by
  simp only [poll, Synthesis.endOfStream]
  split_ifs <;> rfl

/-- What the stream yields was queued, or took a further poll. -/
theorem next_decreases {upstream upstream' : List Poll} {st st' : State} {event : Event}
    (h : st.next serde upstream = some (event, upstream', st')) :
    st'.pollsLeft upstream' < st.pollsLeft upstream ∨
      (st'.pollsLeft upstream' = st.pollsLeft upstream ∧
        st'.pending.length < st.pending.length) := by
  induction upstream generalizing st with
  | nil =>
    rw [next] at h
    split at h
    · rename_i queued pending hp
      cases h
      exact .inr ⟨rfl, by simp [hp]⟩
    · split_ifs at h with hfin
      split at h
      · cases h
        left
        simp [pollsLeft, hfin, endOfStream_finished]
      · cases h
  | cons polled upstream ih =>
    rw [next] at h
    split at h
    · rename_i queued pending hp
      cases h
      exact .inr ⟨rfl, by simp [hp]⟩
    · split_ifs at h with hfin hstuck
      left
      -- The poll is gone, and the end of the stream may be gone with it.
      have hle : (st.poll serde (some polled)).pollsLeft upstream ≤ upstream.length + 1 := by
        unfold pollsLeft
        split_ifs <;> omega
      have hst : st.pollsLeft (polled :: upstream) = upstream.length + 2 := by
        simp [pollsLeft, hfin]
      rcases ih h with hlt | ⟨heq, -⟩ <;> omega

/-- All events that the stream yields. -/
def collect (upstream : List Poll) (st : State) : List Event :=
  match _h : st.next serde upstream with
  | none => []
  | some (event, upstream', st') => event :: collect upstream' st'
termination_by (st.pollsLeft upstream, st.pending.length)
decreasing_by
  rcases next_decreases serde _h with hlt | ⟨heq, hlt⟩
  · exact Prod.Lex.left _ _ hlt
  · rw [heq]
    exact Prod.Lex.right _ hlt

end State

/-- The events of the Responses stream that is synthesized from an upstream body. -/
def responsesEvents (serde : Serde) (upstream : List Poll) (model requestKey : String)
    (tools : ToolNames) : List Event :=
  State.collect serde upstream { model, requestKey, tools }

/-- The frames of the Responses stream that is synthesized from an upstream body. -/
def responsesStream (serde : Serde) (upstream : List Poll) (model requestKey : String)
    (tools : ToolNames) : List Bytes :=
  (responsesEvents serde upstream model requestKey tools).map (Event.render serde)

end MuseCodex.Zai
