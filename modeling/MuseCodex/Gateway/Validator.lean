import Mathlib.Algebra.GroupWithZero.Nat
import MuseCodex.Gateway.Inspect
import MuseCodex.Gateway.Scanner

/-!
# The stream validator of the gateway

The state machine of `crates/muse-codex-gateway/src/sse.rs`. `State` buffers the upstream body,
`drainCompleteFrames` inspects the frames that have become complete, and `fail` ends the stream
with a failure frame of its own. `next` is the closure that drives the machine: it yields the
frames that are queued and polls the body when none is left. `validatedStream` collects what
the stream yields until it ends.

The upstream body is the list of what its polls return (`Poll`); its end is the end of the list.
The clock is read only for the `created_at` member of a failure frame, so it is a parameter
(`Options.now`), and the idle timeout is the poll that returns it.
-/

namespace MuseCodex.Gateway

open Text Json

/-! ## Failure frames -/

/-- The largest event that the gateway forwards. -/
def MAX_EVENT_BYTES : ℕ := 8 * 1024 * 1024

/-- What a failure frame repeats of a failure that the provider reported. -/
structure SanitizedStreamFailure where
  code : String
  message : String
  parameter : Option String

/-- A parameter name that may be repeated. -/
def safeErrorParameter (value : String) : Bool :=
  value ≠ "" && value.utf8ByteSize ≤ 128 &&
    value.toList.all fun c => isAsciiAlphanumeric c || c ∈ ['_', '-', '.', '[', ']']

/-- Reduces a failure event to its allowlisted code, a static message, and a safe parameter. -/
def sanitizeStreamFailure (value : Value) : SanitizedStreamFailure :=
  let error := (((value.get "response").bind (·.get "error")).or (value.get "error")).getD value
  let code := match (error.get "code").bind Value.asStr with
    | some "context_length_exceeded" => "context_length_exceeded"
    | some "rate_limit_exceeded" | some "usage_limit_reached" => "rate_limit_exceeded"
    | some "invalid_api_key" => "invalid_api_key"
    | some "model_not_found" => "model_not_found"
    | some "insufficient_quota" => "insufficient_quota"
    | some "invalid_request" => "invalid_request"
    | _ => "invalid_request"
  let message := match code with
    | "context_length_exceeded" => "The Codex stream reported that the model context window was " ++
        "exceeded; the request was not replayed and the session is resumable."
    | "rate_limit_exceeded" => "The Codex stream reported a rate limit; the request was not " ++
        "replayed and the session is resumable."
    | "invalid_api_key" => "The Codex stream rejected authentication; the request was not " ++
        "replayed and login is required."
    | "model_not_found" => "The Codex stream reported that the requested model was unavailable; " ++
        "the request was not replayed and the session is resumable."
    | "insufficient_quota" => "The Codex stream reported insufficient quota; the request was not " ++
        "replayed and the session is resumable."
    | _ => "The Codex stream reported a terminal provider error; the request was not replayed " ++
        "and the session is resumable."
  ⟨code, message, ((error.get "param").bind Value.asStr).filter safeErrorParameter⟩

/-- The failure that stands for a cancelled response. -/
def cancelledFailure : SanitizedStreamFailure where
  code := "invalid_request"
  message := "The Codex stream was cancelled; the request was not replayed and the session is " ++
    "resumable."
  parameter := none

/-- What the failure frame of an event that reports a failure repeats of it. -/
def providerFailure (event : InspectedEvent) : SanitizedStreamFailure :=
  if event.kind = "response.cancelled" then cancelledFailure
  else sanitizeStreamFailure event.value

/-- The first string of a header's value. -/
def jsonStringOrFirst : Value → Option String
  | .string value => some value
  | .array (value :: _) => jsonStringOrFirst value
  | _ => none

/-- The model that a headers object names. -/
def headerModel (value : Value) : Option String :=
  value.asObject.bind fun headers => headers.findSome? fun (name, value) =>
    if eqIgnoreAsciiCase name "openai-model" || eqIgnoreAsciiCase name "x-openai-model" then
      jsonStringOrFirst value
    else none

/-- The model that the headers of an event name. -/
def eventReportedModel (value : Value) : Option String :=
  (((value.get "response").bind (·.get "headers")).bind headerModel).or
    ((value.get "headers").bind headerModel)

/-- The options of a stream, with the JSON library and the clock that it uses. -/
structure Options where
  serde : Serde
  maxEventBytes : ℕ
  upstreamMediaType : Option String
  now : UInt64

/-- An optional text as a value. -/
def optionalString : Option String → Value
  | some s => .string s
  | none => .null

/-- The document of a failure frame. -/
def failureEvent (o : Options) (responseId model : Option String) (sequenceNumber : ℕ)
    (code message : String) (parameter : Option String) : Value :=
  let responseId := (responseId.filter safeProtocolIdentifier).getD
    "resp_muse_codex_protocol_error"
  let model := (model.filter safeProtocolIdentifier).getD "muse-codex"
  .obj [("type", .string "response.failed"),
    ("sequence_number", .ofNat sequenceNumber),
    ("response", .obj [("id", .string responseId),
      ("object", .string "response"),
      ("created_at", .ofNat o.now.toNat),
      ("status", .string "failed"),
      ("completed_at", .null),
      ("output", .array []),
      ("usage", .null),
      ("error", .obj [("code", .string code),
        ("message", .string message),
        ("param", optionalString parameter)]),
      ("previous_response_id", .null),
      ("model", .string model),
      ("metadata", .obj []),
      ("incomplete_details", .null)])]

/-- A `response.failed` frame built by the gateway. -/
def failureFrame (o : Options) (responseId model : Option String) (sequenceNumber : ℕ)
    (code message : String) (parameter : Option String) : Bytes :=
  toUtf8 ("event: response.failed\ndata: " ++ o.serde.toString
    (failureEvent o responseId model sequenceNumber code message parameter) ++ "\n\n")

/-- The failure frame of a protocol failure. -/
def protocolFailureFrame (o : Options) (responseId model : Option String) (sequenceNumber : ℕ)
    (reason : String) : Bytes :=
  failureFrame o responseId model sequenceNumber "invalid_request"
    ("muse_codex_protocol_error: " ++ reason ++ "; session is resumable") none

/-! ## The state -/

/-- What one poll of the upstream body returns: a chunk, a transport error, or nothing before the
idle timeout elapsed. -/
inductive Poll where
  | chunk (bytes : Bytes)
  | error
  | elapsed

/-- The bytes that a poll returns. -/
def Poll.bytes : Poll → Bytes
  | .chunk bytes => bytes
  | .error | .elapsed => []

/-- What the events so far report of the response, for a failure frame to repeat. -/
structure Identity where
  responseId : Option String := none
  model : Option String := none
  lastSequence : ℕ := 0

namespace Identity

variable (o : Options)

/-- Remembers the sequence number and the identity that an event reports. -/
def observe (id : Identity) (event : InspectedEvent) : Identity :=
  let response := event.value.get "response"
  let safe (value : Option Value) := (value.bind Value.asStr).filter safeProtocolIdentifier
  { lastSequence := max id.lastSequence (event.sequenceNumber.getD 0)
    responseId := (safe (event.value.get "response_id")).or
      ((safe (response.bind (·.get "id"))).or id.responseId)
    model := ((eventReportedModel event.value).filter safeProtocolIdentifier).or
      ((safe (response.bind (·.get "model"))).or id.model) }

/-- The failure frame of a protocol failure after the events so far. -/
def protocolFailure (id : Identity) (reason : String) : Bytes :=
  let reason := match o.upstreamMediaType with
    | none => reason
    | some mediaType => reason ++ " (upstream media type " ++ mediaType ++ ")"
  protocolFailureFrame o id.responseId id.model (min (id.lastSequence + 1) (2 ^ 64 - 1)) reason

/-- The failure frame of an event that reports a failure, itself the last of the events so far. -/
def reportedFailure (id : Identity) (event : InspectedEvent) : Bytes :=
  let failure := providerFailure event
  failureFrame o id.responseId id.model id.lastSequence failure.code failure.message
    failure.parameter

end Identity

/-- The state of a stream. -/
structure State extends Identity where
  body : List Poll
  buffer : Bytes := []
  pending : List Bytes := []
  finished : Bool := false

namespace State

variable (o : Options)

/-- Remembers what an event reports. -/
def observe (st : State) (event : InspectedEvent) : State :=
  { st with toIdentity := st.toIdentity.observe event }

/-- Ends the stream with a protocol failure. -/
def fail (reason : String) (st : State) : State :=
  if st.finished then st
  else
    { st with
      pending := st.pending ++ [st.protocolFailure o reason]
      finished := true
      buffer := [] }

/-- What becomes of a frame that has been taken from the buffer. -/
def dispose (frame : Bytes) (st : State) : State :=
  match inspectFrame o.serde frame with
  | .ok (.keep event) =>
    let st := st.observe event
    if isFailureEvent event.kind then
      { st with
        pending := st.pending ++ [st.reportedFailure o event]
        finished := true
        buffer := [] }
    else if isTerminalEvent event.kind then
      { st with pending := st.pending ++ [frame], finished := true, buffer := [] }
    else { st with pending := st.pending ++ [frame] }
  | .ok (.drop event) => st.observe event
  | .error reason => st.fail o reason

/-- A failure buffers nothing. -/
theorem fail_buffer_length_le (reason : String) (st : State) :
    (st.fail o reason).buffer.length ≤ st.buffer.length := by
  unfold fail
  split_ifs
  · exact Nat.le_refl _
  · exact Nat.zero_le _

/-- A frame that is disposed of buffers nothing. -/
theorem dispose_buffer_length_le (frame : Bytes) (st : State) :
    (st.dispose o frame).buffer.length ≤ st.buffer.length := by
  unfold dispose
  split
  · dsimp only
    split_ifs
    · exact Nat.zero_le _
    · exact Nat.zero_le _
    · exact Nat.le_refl _
  · exact Nat.le_refl _
  · exact fail_buffer_length_le o _ st

/-- Inspects the frames of the buffer that are complete, until one of them ends the stream. -/
def drainCompleteFrames (st : State) : State :=
  if st.finished then st
  else match _h : completeFrameLen st.buffer with
    | none => st
    | some frameLen =>
      if o.maxEventBytes < frameLen then
        st.fail o "upstream SSE event exceeded the safety limit"
      else
        let frame := st.buffer.take frameLen
        drainCompleteFrames
          (({ st with buffer := st.buffer.drop frameLen } : State).dispose o frame)
termination_by st.buffer.length
decreasing_by
  have hpos := scanner.pos _h
  have hle := scanner.le_length _h
  refine lt_of_le_of_lt (dispose_buffer_length_le o _ _) ?_
  rw [List.length_drop]
  omega

/-- Polls the upstream body once. -/
def poll (st : State) : State :=
  match st.body with
  | .chunk bytes :: body =>
    let st := ({ st with body, buffer := st.buffer ++ bytes } : State).drainCompleteFrames o
    if !st.finished && o.maxEventBytes < st.buffer.length then
      st.fail o "upstream SSE event exceeded the safety limit"
    else st
  | .error :: body =>
    ({ st with body } : State).fail o "upstream response stream was interrupted"
  | .elapsed :: body =>
    ({ st with body } : State).fail o "upstream response stream exceeded the idle timeout"
  | [] =>
    if st.buffer.all isAsciiWhitespace then
      ({ st with buffer := [] } : State).fail o
        "upstream stream ended before a terminal response event"
    else st.fail o "upstream stream ended with an incomplete SSE event"

/-! ## Termination

Every frame that is queued was taken from at least one byte of the buffer, except the one failure
frame that ends the stream. So the frames queued, the bytes buffered and the bytes and polls to
come bound what the stream can still yield. -/

/-- A bound on what a stream can still yield. -/
def weight (st : State) : ℕ :=
  st.pending.length + st.buffer.length + (st.body.map fun p => p.bytes.length + 1).sum +
    if st.finished then 0 else 2

/-- A failure takes the stream towards its end. -/
theorem fail_weight_lt (reason : String) {st : State} (h : st.finished = false) :
    (st.fail o reason).weight < st.weight := by
  simp only [fail, h, weight, Bool.false_eq_true, if_false, if_true, List.length_append,
    List.length_singleton, List.length_nil]
  omega

/-- An observation leaves the stream where it is. -/
@[simp] theorem observe_weight (event : InspectedEvent) (st : State) :
    (st.observe event).weight = st.weight := rfl

/-- Disposing of a frame queues at most one frame. -/
theorem dispose_weight_le (frame : Bytes) {st : State} (h : st.finished = false) :
    (st.dispose o frame).weight ≤ st.weight + 1 := by
  unfold dispose
  split
  · rename_i event _
    have hfin : (st.observe event).finished = false := h
    rw [← observe_weight event st]
    generalize st.observe event = st₁ at hfin ⊢
    dsimp only
    split_ifs
    · simp only [weight, hfin, List.length_append, List.length_singleton, List.length_nil,
        Bool.false_eq_true, if_true, if_false]
      omega
    · simp only [weight, hfin, List.length_append, List.length_singleton, List.length_nil,
        Bool.false_eq_true, if_true, if_false]
      omega
    · simp only [weight, List.length_append, List.length_singleton]
      omega
  · rw [observe_weight]
    omega
  · have := fail_weight_lt o ‹_› h
    omega

/-- Draining does not add to what the stream can still yield. -/
theorem drainCompleteFrames_weight_le (st : State) :
    (st.drainCompleteFrames o).weight ≤ st.weight := by
  fun_induction drainCompleteFrames o st with
  | case1 | case2 => exact Nat.le_refl _
  | case3 st hfin =>
    exact le_of_lt (fail_weight_lt o _ (by simpa using hfin))
  | case4 st hfin frameLen hlen hmax frame ih =>
    have hpos : 0 < frameLen := scanner.pos hlen
    have hle : frameLen ≤ st.buffer.length := scanner.le_length hlen
    have hfin' : ({ st with buffer := st.buffer.drop frameLen } : State).finished = false := by
      simpa using hfin
    have hdispose := dispose_weight_le o frame hfin'
    have hdrop : ({ st with buffer := st.buffer.drop frameLen } : State).weight + frameLen
        = st.weight := by
      simp only [weight, List.length_drop]
      omega
    omega

/-- A poll brings an unfinished stream closer to its end. -/
theorem poll_weight_lt {st : State} (h : st.finished = false) : (st.poll o).weight < st.weight := by
  unfold poll
  split
  · rename_i bytes body hbody
    have hdrain := drainCompleteFrames_weight_le o { st with body, buffer := st.buffer ++ bytes }
    have harrive : ({ st with body, buffer := st.buffer ++ bytes } : State).weight + 1
        = st.weight := by
      simp only [weight, hbody, List.map_cons, List.sum_cons, List.length_append, Poll.bytes]
      omega
    dsimp only
    split_ifs with hlong
    · rw [Bool.and_eq_true, Bool.not_eq_true'] at hlong
      have := fail_weight_lt o "upstream SSE event exceeded the safety limit" hlong.1
      omega
    · omega
  · rename_i body hbody
    refine lt_of_lt_of_le (fail_weight_lt o _ h) ?_
    simp only [weight, hbody, List.map_cons, List.sum_cons]
    omega
  · rename_i body hbody
    refine lt_of_lt_of_le (fail_weight_lt o _ h) ?_
    simp only [weight, hbody, List.map_cons, List.sum_cons]
    omega
  · split_ifs
    · refine lt_of_lt_of_le (fail_weight_lt o _ h) ?_
      simp only [weight, List.length_nil]
      omega
    · exact fail_weight_lt o _ h

/-! ## The stream -/

/-- The next frame that the stream yields, or nothing at its end. -/
def next (st : State) : Option (Bytes × State) :=
  match st.pending with
  | frame :: pending => some (frame, { st with pending })
  | [] =>
    if st.finished then none
    else
      let drained := st.drainCompleteFrames o
      match drained.pending with
      | frame :: pending => some (frame, { drained with pending })
      | [] => if _h : drained.finished then none else next (drained.poll o)
termination_by st.weight
decreasing_by
  exact lt_of_lt_of_le (poll_weight_lt o (by simpa using _h)) (drainCompleteFrames_weight_le o st)

/-- What the stream yields leaves less to yield. -/
theorem next_weight_lt {st st' : State} {frame : Bytes} (h : st.next o = some (frame, st')) :
    st'.weight < st.weight := by
  fun_induction next o st with
  | case1 st frame' pending hp =>
    cases h
    simp only [weight, hp, List.length_cons]
    omega
  | case2 => cases h
  | case3 st hp hfin drained frame' pending hd =>
    cases h
    have := drainCompleteFrames_weight_le o st
    refine lt_of_lt_of_le ?_ this
    simp only [weight, hd, List.length_cons, drained]
    omega
  | case4 => cases h
  | case5 st hp hfin drained hd hfin' ih =>
    exact lt_trans (ih h) (lt_of_lt_of_le (poll_weight_lt o (by simpa using hfin'))
      (drainCompleteFrames_weight_le o st))

/-- All frames that the stream yields. -/
def collect (st : State) : List Bytes :=
  match _h : st.next o with
  | none => []
  | some (frame, st') => frame :: collect st'
termination_by st.weight
decreasing_by exact next_weight_lt o _h

end State

/-- The frames that the validated stream of an upstream body yields. -/
def validatedFrames (o : Options) (body : List Poll) : List Bytes := State.collect o { body }

/-- The bytes that the validated stream of an upstream body yields. -/
def validatedStream (o : Options) (body : List Poll) : Bytes := (validatedFrames o body).flatten

end MuseCodex.Gateway
