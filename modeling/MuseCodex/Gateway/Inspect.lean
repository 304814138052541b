import MuseCodex.Json.Serde

/-!
# The inspection of one frame

`inspect_frame` of `crates/muse-codex-gateway/src/sse.rs` decides what becomes of one complete SSE
frame: it is kept, dropped, or the reason why the stream must fail. The decision reads the lines
of the frame, the JSON document that its data lines carry, the allowlist of event kinds, and the
shape that each kind must have.
-/

namespace MuseCodex.Gateway

open Text Json

/-! ## Event kinds -/

/-- The kinds that end a response. -/
def isTerminalEvent (kind : String) : Bool :=
  kind ∈ ["response.completed", "response.failed", "response.incomplete", "response.cancelled"]

/-- The kinds that carry metadata only. -/
def isMetadataEvent (kind : String) : Bool :=
  kind ∈ ["response.metadata", "codex.response.metadata", "codex.rate_limits"]

/-- The kinds that report a failure of the provider. -/
def isFailureEvent (kind : String) : Bool :=
  kind ∈ ["error", "response.failed", "response.cancelled"]

/-- The allowlist of event kinds. -/
def knownEvents : List String :=
  ["error",
    "response.created",
    "response.queued",
    "response.in_progress",
    "response.completed",
    "response.failed",
    "response.incomplete",
    "response.cancelled",
    "response.output_item.added",
    "response.output_item.done",
    "response.content_part.added",
    "response.content_part.done",
    "response.output_text.delta",
    "response.output_text.done",
    "response.output_text.annotation.added",
    "response.refusal.delta",
    "response.refusal.done",
    "response.function_call_arguments.delta",
    "response.function_call_arguments.done",
    "response.custom_tool_call_input.delta",
    "response.custom_tool_call_input.done",
    "response.reasoning_summary_part.added",
    "response.reasoning_summary_part.done",
    "response.reasoning_summary_text.delta",
    "response.reasoning_summary_text.done",
    "response.reasoning_text.delta",
    "response.reasoning_text.done",
    "response.audio.delta",
    "response.audio.done",
    "response.audio.transcript.delta",
    "response.audio.transcript.done",
    "response.output_audio.delta",
    "response.output_audio.done",
    "response.output_audio_transcript.delta",
    "response.output_audio_transcript.done",
    "response.file_search_call.in_progress",
    "response.file_search_call.searching",
    "response.file_search_call.completed",
    "response.web_search_call.in_progress",
    "response.web_search_call.searching",
    "response.web_search_call.completed",
    "response.code_interpreter_call.in_progress",
    "response.code_interpreter_call.interpreting",
    "response.code_interpreter_call.completed",
    "response.code_interpreter_call_code.delta",
    "response.code_interpreter_call_code.done",
    "response.mcp_call.in_progress",
    "response.mcp_call.completed",
    "response.mcp_call.failed",
    "response.mcp_call_arguments.delta",
    "response.mcp_call_arguments.done",
    "response.mcp_list_tools.in_progress",
    "response.mcp_list_tools.completed",
    "response.mcp_list_tools.failed",
    "response.image_generation_call.in_progress",
    "response.image_generation_call.generating",
    "response.image_generation_call.completed",
    "response.image_generation_call.partial_image"]

/-- Whether a kind is in the allowlist. -/
def isKnownEvent (kind : String) : Bool := kind ∈ knownEvents

/-- The kinds whose `response` must be an object with a valid id. -/
def isLifecycleEvent (kind : String) : Bool :=
  kind ∈ ["response.created", "response.completed", "response.failed", "response.incomplete"]

/-- The kinds that must carry a string `delta`. -/
def isDeltaEvent (kind : String) : Bool :=
  kind ∈ ["response.output_text.delta", "response.refusal.delta",
    "response.function_call_arguments.delta", "response.custom_tool_call_input.delta",
    "response.reasoning_summary_text.delta", "response.reasoning_text.delta",
    "response.audio.delta", "response.audio.transcript.delta", "response.output_audio.delta",
    "response.output_audio_transcript.delta", "response.code_interpreter_call_code.delta",
    "response.mcp_call_arguments.delta"]

/-- The kinds that must carry an `item` object. -/
def isItemEvent (kind : String) : Bool :=
  kind ∈ ["response.output_item.added", "response.output_item.done"]

/-! ## The shape of an event -/

/-- A response id or model name that may be repeated in a failure frame. -/
def safeProtocolIdentifier (value : String) : Bool :=
  value ≠ "" && value.utf8ByteSize ≤ 512 &&
    !value.toList.any fun character => isControl character || isWhitespace character

/-- The checks of one event, in order; the first that does not hold is the reason to fail. -/
def firstFailure : List (Bool × String) → Except String Unit
  | [] => .ok ()
  | (holds, reason) :: checks => if holds then firstFailure checks else .error reason

/-- Checks the members that an event of a kind must have. -/
def validateEventShape (kind : String) (value : Value) : Except String Unit :=
  let response := (value.get "response").bind Value.asObject
  let id := ((response.bind (·.get "id")).bind Value.asStr).filter safeProtocolIdentifier
  let cancelledId := ((((value.get "response").bind (·.get "id")).or
    (value.get "response_id")).bind Value.asStr).filter safeProtocolIdentifier
  firstFailure
    [(!isLifecycleEvent kind || response.isSome,
        "upstream response lifecycle event had no response object"),
      (!isLifecycleEvent kind || id.isSome,
        "upstream response lifecycle event had no valid response id"),
      (kind ≠ "response.cancelled" || cancelledId.isSome,
        "upstream response cancellation event had no valid response id"),
      (!isDeltaEvent kind || (value.get "delta").any Value.isString,
        "upstream response delta event had no string delta"),
      (!isItemEvent kind || (value.get "item").any Value.isObject,
        "upstream response item event had no item object"),
      (kind ≠ "error" || ((value.get "message").bind Value.asStr).any (· ≠ ""),
        "upstream error event had no message")]

/-- All checks hold when none of them is a reason to fail. -/
theorem firstFailure_eq_ok (checks : List (Bool × String)) :
    firstFailure checks = .ok () ↔ ∀ check ∈ checks, check.1 = true := by
  induction checks with
  | nil => simp [firstFailure]
  | cons check checks ih =>
    obtain ⟨holds, reason⟩ := check
    cases holds <;> simp [firstFailure, ih]

/-! ## The frame -/

/-- An event read from a frame. -/
structure InspectedEvent where
  kind : String
  sequenceNumber : Option ℕ
  value : Value
deriving DecidableEq

/-- What becomes of a frame that is well formed. -/
inductive FrameDisposition where
  | keep (event : InspectedEvent)
  | drop (event : InspectedEvent)
deriving DecidableEq

/-- The fields of a frame read so far: the event name and the data lines. -/
structure Fields where
  eventName : Option String := none
  dataLines : List String := []

/-- Reads one line of a frame. -/
def Fields.readLine (fields : Fields) (rawLine : String) : Fields :=
  if rawLine = "" || startsWith ':' rawLine then fields
  else
    let (field, value) := (splitOnce ':' rawLine).getD (rawLine, "")
    let value := (stripPrefix ' ' value).getD value
    if field = "event" then { fields with eventName := some value }
    else if field = "data" then { fields with dataLines := fields.dataLines ++ [value] }
    else fields

/-- The fields of the text of a frame. -/
def Fields.ofText (text : String) : Fields :=
  let text := (stripPrefix '\ufeff' text).getD text
  (splitTerminator (fun c => c = '\r' || c = '\n') text).foldl Fields.readLine {}

/-- The sequence number of an event, if it has one. -/
def sequenceNumberOf (value : Value) : Except String (Option ℕ) :=
  match value.get "sequence_number" with
  | none => .ok none
  | some sequence => match sequence.asU64 with
    | some n => .ok (some n)
    | none => .error "upstream SSE event had an invalid sequence_number"

/-- Inspects the document that a frame carries under the event name of its lines. -/
def inspectValue (eventName : Option String) (value : Value) : Except String FrameDisposition :=
  match (value.get "type").bind Value.asStr with
  | none => .error "upstream SSE event had no string type"
  | some kind =>
    if eventName.any fun name => name ≠ "message" && name ≠ kind then
      .error "upstream SSE event name did not match its JSON type"
    else if !isMetadataEvent kind && !isKnownEvent kind then
      .error "upstream emitted an unknown non-metadata event"
    else match sequenceNumberOf value with
      | .error reason => .error reason
      | .ok sequenceNumber => match validateEventShape kind value with
        | .error reason => .error reason
        | .ok () =>
          let event : InspectedEvent := ⟨kind, sequenceNumber, value⟩
          if isMetadataEvent kind then .ok (.drop event) else .ok (.keep event)

/-- Inspects one complete SSE frame. -/
def inspectFrame (serde : Serde) (frame : Bytes) : Except String FrameDisposition :=
  match fromUtf8 frame with
  | none => .error "upstream SSE event was not valid UTF-8"
  | some text =>
    let fields := Fields.ofText text
    if fields.dataLines = [] then
      if fields.eventName.isNone then .ok (.drop ⟨"sse.comment", none, .null⟩)
      else .error "upstream SSE event contained no data"
    else
      let data := String.intercalate "\n" fields.dataLines
      if data = "[DONE]" then .error "upstream sent [DONE] before response.completed"
      else match serde.fromStr data with
        | .error _ => .error "upstream SSE event contained malformed JSON"
        | .ok value => inspectValue fields.eventName value

/-! ## The lines of a frame -/

/-- An empty line is not read. -/
@[simp] theorem Fields.readLine_empty (fields : Fields) : fields.readLine "" = fields := rfl

/-- The fields of a frame are those of all its lines. -/
theorem Fields.ofText_eq (text : String) :
    Fields.ofText text =
      ((splitChars (fun c => c = '\r' || c = '\n')
        ((stripPrefix '\ufeff' text).getD text).toList).map String.ofList).foldl
        Fields.readLine {} := by
  unfold Fields.ofText splitTerminator
  dsimp only
  split_ifs with hlast
  · -- The empty piece after the last line is left out, and would not be read.
    obtain ⟨pieces, hpieces⟩ := List.getLast?_eq_some_iff.mp hlast
    rw [hpieces, List.dropLast_concat, List.map_append, List.foldl_append]
    rfl
  · rfl

/-- The value of a line that carries data. -/
def lineValue (line : String) : Option String :=
  if line = "data" then some ""
  else (stripText "data:" line).map fun value => (stripPrefix ' ' value).getD value

/-- A line adds its value to the data lines. -/
theorem Fields.readLine_dataLines (fields : Fields) (line : String) :
    (fields.readLine line).dataLines = fields.dataLines ++ (lineValue line).toList := by
  -- The line holds data exactly where its first colon ends the name of the field.
  have hfield {value : String} : splitOnce ':' line = some ("data", value) ↔
      stripText "data:" line = some value := splitOnce_eq_some_iff_stripText (by decide)
  unfold Fields.readLine lineValue
  by_cases hskip : (line = "" || startsWith ':' line) = true
  · -- Neither an empty line nor a comment starts with the name of the field.
    have hdata : line ≠ "data" := by
      rintro rfl
      exact absurd hskip (by decide)
    have hnone : stripText "data:" line = none := by
      rw [Option.eq_none_iff_forall_not_mem]
      intro value hvalue
      obtain rfl := stripText_eq_some.mp hvalue
      simp [startsWith, ← String.toList_inj] at hskip
    rw [if_pos hskip, if_neg hdata, hnone]
    simp
  rw [if_neg hskip]
  cases hsplit : splitOnce ':' line with
  | none =>
    have hnone : stripText "data:" line = none := by
      rw [Option.eq_none_iff_forall_not_mem]
      intro value hvalue
      rw [hfield.mpr hvalue] at hsplit
      cases hsplit
    simp only [Option.getD_none, hnone, Option.map_none]
    by_cases hdata : line = "data"
    · rw [hdata]
      rfl
    · rw [if_neg hdata, if_neg hdata]
      split_ifs <;> simp
  | some p =>
    obtain ⟨field, value⟩ := p
    have hne : line ≠ "data" := by
      rintro rfl
      cases hsplit
    simp only [Option.getD_some, if_neg hne]
    by_cases hdata : field = "data"
    · rw [hdata] at hsplit
      rw [hfield.mp hsplit]
      simp [hdata]
    · have hnone : stripText "data:" line = none := by
        rw [Option.eq_none_iff_forall_not_mem]
        intro value' hvalue'
        rw [hfield.mpr hvalue'] at hsplit
        cases hsplit
        exact hdata rfl
      rw [hnone, if_neg hdata]
      split_ifs <;> simp

/-! ## What the inspection accepts -/

/-- An accepted document has the kind, the sequence number and the shape that were checked, and it
is dropped exactly when it carries metadata. -/
theorem inspectValue_ok {eventName : Option String} {value : Value} {d : FrameDisposition}
    (h : inspectValue eventName value = .ok d) :
    ∃ kind sequenceNumber, (value.get "type").bind Value.asStr = some kind ∧
      (∀ name ∈ eventName, name = "message" ∨ name = kind) ∧
      sequenceNumberOf value = .ok sequenceNumber ∧ validateEventShape kind value = .ok () ∧
      ((isMetadataEvent kind ∧ d = .drop ⟨kind, sequenceNumber, value⟩) ∨
        (isMetadataEvent kind = false ∧ isKnownEvent kind ∧
          d = .keep ⟨kind, sequenceNumber, value⟩)) := by
  unfold inspectValue at h
  split at h
  · cases h
  · rename_i kind hkind
    by_cases hname : eventName.any fun name => name ≠ "message" && name ≠ kind
    · rw [if_pos hname] at h
      cases h
    rw [if_neg hname] at h
    by_cases hknown : !isMetadataEvent kind && !isKnownEvent kind
    · rw [if_pos hknown] at h
      cases h
    rw [if_neg hknown] at h
    split at h
    · cases h
    · rename_i sequenceNumber hseq
      split at h
      · cases h
      · rename_i hshape
        refine ⟨kind, sequenceNumber, hkind, ?_, hseq, hshape, ?_⟩
        · intro name hn
          by_contra hne
          rw [not_or] at hne
          exact hname (by rw [Option.mem_def.mp hn]; simp [hne])
        · dsimp only at h
          split_ifs at h with hmeta
          · exact .inl ⟨hmeta, (Except.ok.inj h).symm⟩
          · refine .inr ⟨by simpa using hmeta, ?_, (Except.ok.inj h).symm⟩
            simpa [hmeta] using hknown

/-- A frame that is kept carries an event of a known kind that is no metadata and has the shape
of its kind. -/
theorem inspectFrame_keep {serde : Serde} {frame : Bytes} {event : InspectedEvent}
    (h : inspectFrame serde frame = .ok (.keep event)) :
    isKnownEvent event.kind ∧ isMetadataEvent event.kind = false ∧
      validateEventShape event.kind event.value = .ok () := by
  unfold inspectFrame at h
  split at h
  · cases h
  · dsimp only at h
    split_ifs at h
    · cases h
    · split at h
      · cases h
      · obtain ⟨kind, sequenceNumber, -, -, -, hshape, hmeta | ⟨hmeta, hknown, hd⟩⟩ :=
          inspectValue_ok h
        · cases hmeta.2
        · cases hd
          exact ⟨hknown, hmeta, hshape⟩

/-- The sequence number of an event is a number of its document, so it fits 64 bits. -/
theorem inspectFrame_number_lt {serde : Serde} (hserde : serde.Lawful) {frame : Bytes}
    {event : InspectedEvent} (h : inspectFrame serde frame = .ok (.keep event) ∨
      inspectFrame serde frame = .ok (.drop event)) : ∀ n ∈ event.sequenceNumber, n < 2 ^ 64 := by
  have hvalue {name : Option String} {value : Value} {d : FrameDisposition} (hrange : InRange value)
      (hd : inspectValue name value = .ok d) (hevent : d = .keep event ∨ d = .drop event) :
      ∀ n ∈ event.sequenceNumber, n < 2 ^ 64 := by
    obtain ⟨kind, sequenceNumber, -, -, hnumber, -, hcase⟩ := inspectValue_ok hd
    -- The number of the event is the one that was read, whether the event is kept or not.
    have heq : event.sequenceNumber = sequenceNumber := by
      rcases hcase with ⟨-, rfl⟩ | ⟨-, -, rfl⟩ <;> rcases hevent with hevent | hevent <;> cases hevent
        <;> rfl
    rw [heq]
    unfold sequenceNumberOf at hnumber
    split at hnumber
    · cases hnumber
      exact fun n hn => by cases hn
    · rename_i sequence hget
      split at hnumber
      · rename_i n hn
        cases hnumber
        rintro _ ⟨⟩
        exact (hrange.get hget).asU64_lt hn
      · cases hnumber
  unfold inspectFrame at h
  split at h
  · rcases h with h | h <;> cases h
  · dsimp only at h
    split_ifs at h
    · rcases h with h | h <;> cases h
      exact fun n hn => by cases hn
    · rcases h with h | h <;> cases h
    · rcases h with h | h <;> cases h
    · split at h
      · rcases h with h | h <;> cases h
      · rename_i value hparse
        have hrange := hserde.fromStr_inRange _ value hparse
        rcases h with h | h
        · exact hvalue hrange h (.inl rfl)
        · exact hvalue hrange h (.inr rfl)

/-- A frame of comments, blank lines and fields other than the event name and the data. -/
def IsCommentFrame (frame : Bytes) : Prop :=
  ∃ text, fromUtf8 frame = some text ∧ (Fields.ofText text).dataLines = [] ∧
    (Fields.ofText text).eventName = none

/-- A frame that is dropped is a comment or a blank frame, or carries metadata. -/
theorem inspectFrame_drop {serde : Serde} {frame : Bytes} {event : InspectedEvent}
    (h : inspectFrame serde frame = .ok (.drop event)) :
    IsCommentFrame frame ∨ isMetadataEvent event.kind := by
  unfold inspectFrame at h
  split at h
  · cases h
  · rename_i text htext
    dsimp only at h
    split_ifs at h with hdata hname
    · exact .inl ⟨text, htext, hdata, by simpa using hname⟩
    · split at h
      · cases h
      · obtain ⟨kind, sequenceNumber, -, -, -, -, ⟨hmeta, hd⟩ | hkeep⟩ := inspectValue_ok h
        · cases hd
          exact .inr hmeta
        · cases hkeep.2.2

end MuseCodex.Gateway
