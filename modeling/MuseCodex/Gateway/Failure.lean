import MuseCodex.Gateway.Frame

/-!
# What a failure frame repeats

When the gateway builds a failure frame, it repeats little of what upstream sent: the sequence
number, the response id and the model of the events so far, each only when it is safe, and of an
event that reports a failure the class of its error code and a safe parameter. `failurePoint`
finds the frames that the stream gets past and the cause of its failure, and `Cause.Agrees` says
when two causes agree in all that may be repeated. Streams that fail after the same frames for
causes that agree are the same, byte for byte (`validatedStream_eq_of_agrees`).
-/

namespace MuseCodex.Gateway

open Text Json

/-! ## The failure of the provider -/

/-- The error that an event reports: that of its response, its own, or the event itself. -/
def reportedError (value : Value) : Value :=
  (((value.get "response").bind (·.get "error")).or (value.get "error")).getD value

/-- The classes of error codes. -/
inductive CodeClass where
  | contextLength
  | rateLimit
  | apiKey
  | model
  | quota
  | request
deriving DecidableEq

/-- The class of an error code; all codes that are not in the allowlist are in one class. -/
def codeClass (code : Option String) : CodeClass :=
  match code with
  | some "context_length_exceeded" => .contextLength
  | some "rate_limit_exceeded" | some "usage_limit_reached" => .rateLimit
  | some "invalid_api_key" => .apiKey
  | some "model_not_found" => .model
  | some "insufficient_quota" => .quota
  | _ => .request

/-- The code that stands for a class. -/
def CodeClass.code : CodeClass → String
  | .contextLength => "context_length_exceeded"
  | .rateLimit => "rate_limit_exceeded"
  | .apiKey => "invalid_api_key"
  | .model => "model_not_found"
  | .quota => "insufficient_quota"
  | .request => "invalid_request"

/-- The message that stands for a class. -/
def CodeClass.message : CodeClass → String
  | .contextLength => "The Codex stream reported that the model context window was " ++
      "exceeded; the request was not replayed and the session is resumable."
  | .rateLimit => "The Codex stream reported a rate limit; the request was not " ++
      "replayed and the session is resumable."
  | .apiKey => "The Codex stream rejected authentication; the request was not " ++
      "replayed and login is required."
  | .model => "The Codex stream reported that the requested model was unavailable; " ++
      "the request was not replayed and the session is resumable."
  | .quota => "The Codex stream reported insufficient quota; the request was not " ++
      "replayed and the session is resumable."
  | .request => "The Codex stream reported a terminal provider error; the request was not " ++
      "replayed and the session is resumable."

/-- The class of the error that an event reports. -/
def reportedClass (value : Value) : CodeClass :=
  codeClass (((reportedError value).get "code").bind Value.asStr)

/-- The parameter that an event reports, when it is safe. -/
def reportedParameter (value : Value) : Option String :=
  (((reportedError value).get "param").bind Value.asStr).filter safeErrorParameter

/-- The code of a sanitized failure is that of its class. -/
theorem sanitizeStreamFailure_code (value : Value) :
    (sanitizeStreamFailure value).code = (reportedClass value).code := by
  unfold sanitizeStreamFailure reportedClass reportedError
  dsimp only
  generalize (((((value.get "response").bind (·.get "error")).or
    (value.get "error")).getD value).get "code").bind Value.asStr = code
  split
  iterate 7 rfl
  -- A code that is not in the allowlist.
  unfold codeClass
  split <;> simp_all [CodeClass.code]

/-- The message of a sanitized failure depends on its code only. -/
theorem sanitizeStreamFailure_message (value : Value) :
    (sanitizeStreamFailure value).message = (reportedClass value).message := by
  have hcode := sanitizeStreamFailure_code value
  unfold sanitizeStreamFailure at hcode ⊢
  dsimp only at hcode ⊢
  rw [hcode]
  cases reportedClass value <;> rfl

/-- A sanitized failure says the class of the error and the parameter, and nothing else. -/
theorem sanitizeStreamFailure_eq (value : Value) : sanitizeStreamFailure value =
    ⟨(reportedClass value).code, (reportedClass value).message, reportedParameter value⟩ := by
  rw [← sanitizeStreamFailure_code, ← sanitizeStreamFailure_message]
  rfl

/-! ## The identity of the response -/

/-- The text of a member, when it is a safe identifier. -/
def safeIdentifier (value : Option Value) : Option String :=
  (value.bind Value.asStr).filter safeProtocolIdentifier

/-- The response id that an event reports, when it is safe. -/
def reportedId (value : Value) : Option String :=
  (safeIdentifier (value.get "response_id")).or
    (safeIdentifier ((value.get "response").bind (·.get "id")))

/-- The model that an event reports, when it is safe. -/
def reportedModel (value : Value) : Option String :=
  ((eventReportedModel value).filter safeProtocolIdentifier).or
    (safeIdentifier ((value.get "response").bind (·.get "model")))

/-- Of an event, the sequence number, the safe response id and the safe model are remembered, and
nothing else. -/
theorem Identity.observe_eq (id : Identity) (event : InspectedEvent) : id.observe event =
    { lastSequence := max id.lastSequence (event.sequenceNumber.getD 0)
      responseId := (reportedId event.value).or id.responseId
      model := (reportedModel event.value).or id.model } := by
  rw [reportedId, reportedModel, Option.or_assoc, Option.or_assoc]
  rfl

/-- The largest number so far fits 64 bits, since the number of every frame does. -/
theorem Identity.observe_lt {serde : Serde} (hserde : serde.Lawful) {frame : Bytes}
    {event : InspectedEvent} (h : inspectFrame serde frame = .ok (.keep event) ∨
      inspectFrame serde frame = .ok (.drop event)) {id : Identity}
    (hid : id.lastSequence < 2 ^ 64) : (id.observe event).lastSequence < 2 ^ 64 := by
  have hnumber := inspectFrame_number_lt hserde h
  rw [Identity.observe_eq]
  refine max_lt hid ?_
  cases hsequence : event.sequenceNumber with
  | none => decide
  | some n => exact hnumber n hsequence

/-! ## The cause of a failure -/

/-- Why a stream fails: an event reports a failure, or something is rejected for a reason. -/
inductive Cause where
  | reported (event : InspectedEvent)
  | rejected (reason : String)
deriving DecidableEq

/-- The failure frame that a cause leads to, after events that reported `id`. -/
def Cause.frame (o : Options) (id : Identity) : Cause → Bytes
  | .reported event => (id.observe event).reportedFailure o event
  | .rejected reason => id.protocolFailure o reason

/-- The frames that a stream gets past before it fails and the cause of the failure, unless the
response ends. -/
def failurePoint (o : Options) (e : Ending) : List Bytes → Bytes → Option (List Bytes × Cause)
  | [], rest => some ([], .rejected (endingReason o e rest))
  | frame :: frames, rest =>
    if o.maxEventBytes < frame.length then
      some ([], .rejected "upstream SSE event exceeded the safety limit")
    else match inspectFrame o.serde frame with
      | .ok (.keep event) =>
        if isFailureEvent event.kind then some ([], .reported event)
        else if isTerminalEvent event.kind then none
        else (failurePoint o e frames rest).map fun (before, cause) => (frame :: before, cause)
      | .ok (.drop _) =>
        (failurePoint o e frames rest).map fun (before, cause) => (frame :: before, cause)
      | .error reason => some ([], .rejected reason)

/-- A frame makes the stream fail, for the cause that it is, or the stream gets past it and fails
later. -/
theorem failurePoint_cons {o : Options} {e : Ending} {frame : Bytes} {frames : List Bytes}
    {rest : Bytes} {before : List Bytes} {cause : Cause}
    (h : failurePoint o e (frame :: frames) rest = some (before, cause)) :
    before = [] ∧
        (o.maxEventBytes < frame.length ∧
            cause = .rejected "upstream SSE event exceeded the safety limit" ∨
          frame.length ≤ o.maxEventBytes ∧
            ((∃ event, inspectFrame o.serde frame = .ok (.keep event) ∧
              isFailureEvent event.kind = true ∧ cause = .reported event) ∨
            ∃ reason, inspectFrame o.serde frame = .error reason ∧ cause = .rejected reason)) ∨
      ∃ before', before = frame :: before' ∧
        failurePoint o e frames rest = some (before', cause) ∧ frame.length ≤ o.maxEventBytes ∧
        ((∃ event, inspectFrame o.serde frame = .ok (.keep event) ∧
          isFailureEvent event.kind = false ∧ isTerminalEvent event.kind = false) ∨
        ∃ event, inspectFrame o.serde frame = .ok (.drop event)) := by
  rw [failurePoint] at h
  by_cases hlen : o.maxEventBytes < frame.length
  · rw [if_pos hlen] at h
    cases h
    exact .inl ⟨rfl, .inl ⟨hlen, rfl⟩⟩
  rw [if_neg hlen] at h
  have hle : frame.length ≤ o.maxEventBytes := Nat.le_of_not_lt hlen
  -- The stream gets past the frame.
  have hlater (hpoint : ((failurePoint o e frames rest).map fun (before, cause) =>
        (frame :: before, cause)) = some (before, cause)) :
      ∃ before', before = frame :: before' ∧
        failurePoint o e frames rest = some (before', cause) := by
    obtain ⟨⟨before', cause'⟩, hpoint, heq⟩ := Option.map_eq_some_iff.mp hpoint
    cases heq
    exact ⟨before', rfl, hpoint⟩
  cases hframe : inspectFrame o.serde frame with
  | error reason =>
    rw [hframe] at h
    cases h
    exact .inl ⟨rfl, .inr ⟨hle, .inr ⟨reason, rfl, rfl⟩⟩⟩
  | ok disposition =>
    rw [hframe] at h
    cases disposition with
    | keep event =>
      dsimp only at h
      split_ifs at h with hfail hterm
      · cases h
        exact .inl ⟨rfl, .inr ⟨hle, .inl ⟨event, rfl, hfail, rfl⟩⟩⟩
      · obtain ⟨before', hbefore, hpoint⟩ := hlater h
        exact .inr ⟨before', hbefore, hpoint, hle, .inl ⟨event, rfl, Bool.eq_false_iff.mpr hfail,
          Bool.eq_false_iff.mpr hterm⟩⟩
    | drop event =>
      obtain ⟨before', hbefore, hpoint⟩ := hlater h
      exact .inr ⟨before', hbefore, hpoint, hle, .inr ⟨event, rfl⟩⟩

/-- Whether a frame is kept. -/
def isKept (serde : Serde) (frame : Bytes) : Bool :=
  match inspectFrame serde frame with
  | .ok (.keep _) => true
  | .ok (.drop _) | .error _ => false

/-- A stream that fails yields the frames before that it keeps, and the failure frame of the
cause. -/
theorem verdict_of_failurePoint (o : Options) (e : Ending) (id : Identity) {frames : List Bytes}
    {rest : Bytes} {before : List Bytes} {cause : Cause}
    (h : failurePoint o e frames rest = some (before, cause)) :
    verdict o e id frames rest = before.filter (isKept o.serde) ++
      [cause.frame o (before.foldl (Identity.observeFrame o) id)] := by
  induction frames generalizing id before with
  | nil =>
    cases h
    rfl
  | cons frame frames ih =>
    rw [verdict]
    rcases failurePoint_cons h with ⟨rfl, ⟨hlong, rfl⟩ | ⟨hle, hcause⟩⟩ |
      ⟨before, rfl, hpoint, hle, hcase⟩
    · rw [if_pos hlong]
      rfl
    · rw [if_neg (by omega)]
      rcases hcause with ⟨event, hframe, hfail, rfl⟩ | ⟨reason, hframe, rfl⟩
      · rw [hframe]
        exact if_pos hfail
      · rw [hframe]
        rfl
    · rw [if_neg (by omega)]
      rcases hcase with ⟨event, hframe, hfail, hterm⟩ | ⟨event, hframe⟩
      · have hkept : isKept o.serde frame = true := by rw [isKept, hframe]
        have hobserve : id.observeFrame o frame = id.observe event := by
          rw [Identity.observeFrame, hframe]
        rw [hframe, List.filter_cons_of_pos hkept, List.foldl_cons, hobserve, List.cons_append,
          ← ih _ hpoint]
        dsimp only
        rw [if_neg (by simp [hfail]), if_neg (by simp [hterm])]
      · -- A frame that is dropped is not sent, but its event is observed.
        have hdropped : ¬ isKept o.serde frame = true := by
          rw [isKept, hframe]
          exact Bool.false_ne_true
        have hobserve : id.observeFrame o frame = id.observe event := by
          rw [Identity.observeFrame, hframe]
        rw [hframe, List.filter_cons_of_neg hdropped, List.foldl_cons, hobserve, ← ih _ hpoint]

/-- A stream without a point of failure yields upstream frames only, of which the last ends the
response. -/
theorem verdict_copied {o : Options} (e : Ending) (id : Identity) {frames : List Bytes}
    {rest : Bytes} (h : failurePoint o e frames rest = none) :
    ∃ copies terminal event, verdict o e id frames rest = copies ++ [terminal] ∧
      (∀ frame ∈ copies, frame ∈ frames ∧ Copied o frame) ∧ terminal ∈ frames ∧
      terminal.length ≤ o.maxEventBytes ∧ inspectFrame o.serde terminal = .ok (.keep event) ∧
      (event.kind = "response.completed" ∨ event.kind = "response.incomplete") := by
  induction frames generalizing id with
  | nil => cases h
  | cons frame frames ih =>
    rw [failurePoint] at h
    rw [verdict]
    split_ifs at h ⊢ with hlen
    have hle : frame.length ≤ o.maxEventBytes := Nat.le_of_not_lt hlen
    cases hframe : inspectFrame o.serde frame with
    | error reason =>
      rw [hframe] at h
      cases h
    | ok disposition =>
      rw [hframe] at h
      cases disposition with
      | keep event =>
        dsimp only at h ⊢
        split_ifs at h ⊢ with hfail hterm
        · exact ⟨[], frame, event, rfl, (fun f hf => by cases hf), List.mem_cons_self, hle, hframe,
            completed_or_incomplete hterm (Bool.eq_false_iff.mpr hfail)⟩
        · obtain ⟨copies, terminal, last, hverdict, hcopies, hterminal, hrest⟩ :=
            ih (id.observe event) (Option.map_eq_none_iff.mp h)
          obtain ⟨hknown, hmeta, hshape⟩ := inspectFrame_keep hframe
          -- A frame that neither ends nor fails the stream is copied.
          have hcopied : Copied o frame := ⟨hle, event, hframe, hknown, hshape, hmeta,
            Bool.eq_false_iff.mpr hterm, Bool.eq_false_iff.mpr hfail⟩
          refine ⟨frame :: copies, terminal, last, by rw [hverdict, List.cons_append], ?_,
            List.mem_cons_of_mem _ hterminal, hrest⟩
          refine List.forall_mem_cons.mpr ⟨⟨List.mem_cons_self, hcopied⟩, fun f hf => ?_⟩
          exact ⟨List.mem_cons_of_mem _ (hcopies f hf).1, (hcopies f hf).2⟩
      | drop event =>
        obtain ⟨copies, terminal, last, hverdict, hcopies, hterminal, hrest⟩ :=
          ih (id.observe event) (Option.map_eq_none_iff.mp h)
        refine ⟨copies, terminal, last, hverdict, fun f hf => ?_,
          List.mem_cons_of_mem _ hterminal, hrest⟩
        exact ⟨List.mem_cons_of_mem _ (hcopies f hf).1, (hcopies f hf).2⟩

/-! ## Two streams that fail -/

/-- Two events agree in all that a failure frame may repeat of them. -/
structure InspectedEvent.Agrees (event event' : InspectedEvent) : Prop where
  cancelled : event.kind = "response.cancelled" ↔ event'.kind = "response.cancelled"
  sequenceNumber : event.sequenceNumber = event'.sequenceNumber
  responseId : reportedId event.value = reportedId event'.value
  model : reportedModel event.value = reportedModel event'.value
  /-- The class of the error code, of an event that is no cancellation. -/
  code : event.kind ≠ "response.cancelled" →
    reportedClass event.value = reportedClass event'.value
  /-- The safe parameter, of an event that is no cancellation. -/
  parameter : event.kind ≠ "response.cancelled" →
    reportedParameter event.value = reportedParameter event'.value

/-- Two causes agree: their events agree, or their reasons are the same. -/
def Cause.Agrees : Cause → Cause → Prop
  | .reported event, .reported event' => event.Agrees event'
  | .rejected reason, .rejected reason' => reason = reason'
  | _, _ => False

/-- Causes that agree lead to the same failure frame. -/
theorem Cause.Agrees.frame_eq (o : Options) (id : Identity) {cause cause' : Cause}
    (h : cause.Agrees cause') : cause.frame o id = cause'.frame o id := by
  match cause, cause', h with
  | .rejected _, .rejected _, rfl => rfl
  | .reported event, .reported event', h =>
    have hobserve : id.observe event = id.observe event' := by
      rw [Identity.observe_eq, Identity.observe_eq, h.sequenceNumber, h.responseId, h.model]
    have hfailure : providerFailure event = providerFailure event' := by
      unfold providerFailure
      by_cases hkind : event.kind = "response.cancelled"
      · rw [if_pos hkind, if_pos (h.cancelled.mp hkind)]
      · rw [if_neg hkind, if_neg fun h' => hkind (h.cancelled.mpr h'), sanitizeStreamFailure_eq,
          sanitizeStreamFailure_eq, h.code hkind, h.parameter hkind]
    rw [Cause.frame, Cause.frame, hobserve, Identity.reportedFailure, Identity.reportedFailure,
      hfailure]

/-- The frames that the stream of an upstream body gets past before it fails, and the cause. -/
def streamFailure (o : Options) (body : List Poll) : Option (List Bytes × Cause) :=
  failurePoint o (ending body) (scanner.frames (upstreamBytes body))
    (scanner.rest (upstreamBytes body))

/-- Streams that fail after the same frames for causes that agree are the same: nothing else of what
upstream sent is in them. -/
theorem validatedStream_eq_of_agrees (o : Options) {body body' : List Poll}
    {before : List Bytes} {cause cause' : Cause}
    (h : streamFailure o body = some (before, cause))
    (h' : streamFailure o body' = some (before, cause')) (hagrees : cause.Agrees cause') :
    validatedStream o body = validatedStream o body' := by
  rw [validatedStream, validatedStream, validatedFrames_eq, validatedFrames_eq, verdictOf,
    verdictOf, verdict_of_failurePoint o _ _ h, verdict_of_failurePoint o _ _ h',
    hagrees.frame_eq o]

/-- An error event with a message, after a comment. -/
def strangeError (message : String) : List Poll :=
  [.chunk (toUtf8 (":\n\ndata: \x7b\"type\":\"error\",\"message\":\"" ++ message ++
    "\"\x7d\n\n"))]

/-- The message is not in the stream. -/
theorem validatedStream_eq_of_agrees_error :
    validatedStream ⟨Compact.serde, MAX_EVENT_BYTES, none, 0⟩ (strangeError "a") =
      validatedStream ⟨Compact.serde, MAX_EVENT_BYTES, none, 0⟩ (strangeError "b") := by
  have hpoint : streamFailure ⟨Compact.serde, MAX_EVENT_BYTES, none, 0⟩ (strangeError "a") =
        some ([toUtf8 ":\n\n"], .reported ⟨"error", none,
          .obj [("type", .string "error"), ("message", .string "a")]⟩) ∧
      streamFailure ⟨Compact.serde, MAX_EVENT_BYTES, none, 0⟩ (strangeError "b") =
        some ([toUtf8 ":\n\n"], .reported ⟨"error", none,
          .obj [("type", .string "error"), ("message", .string "b")]⟩) := by
    decide +kernel
  refine validatedStream_eq_of_agrees _ hpoint.1 hpoint.2 ⟨Iff.rfl, rfl, ?_, ?_, ?_, ?_⟩
  all_goals decide

/-! ## Failure frames read back -/

/-- The document of a failure frame reads back from its own text, when its sequence number fits 64
bits. -/
theorem failureEvent_plain (o : Options) (responseId model : Option String) {sequenceNumber : ℕ}
    (hnumber : sequenceNumber < 2 ^ 64) (code message : String) (parameter : Option String) :
    Plain 127 (failureEvent o responseId model sequenceNumber code message parameter) := by
  have hparameter : Plain 0 (optionalString parameter) := by
    cases parameter with
    | none => exact .null 0
    | some parameter => exact .string 0 parameter
  have hobj {d : ℕ} {entries : List (String × Value)} (h : entries.Forall fun p => Plain d p.2) :
      Plain (d + 1) (.obj entries) := Plain.obj (List.forall_iff_forall_mem.mp h)
  have herror : Plain 1 (.obj [("code", .string code), ("message", .string message),
      ("param", optionalString parameter)]) :=
    hobj ⟨.string _ _, .string _ _, hparameter⟩
  refine Plain.mono (d := 3) (hobj ⟨.string _ _, .posInt _ hnumber, ?_⟩) (by decide)
  exact hobj ⟨.string _ _, .string _ _, .posInt _ o.now.toNat_lt, .string _ _, .null _,
    .array _ nofun, .null _, herror, .null _, .string _ _, hobj trivial, .null _⟩

/-- A failure frame is a frame of an event line and a data line. -/
theorem failureFrame_eq_eventFrame (o : Options) (responseId model : Option String)
    (sequenceNumber : ℕ) (code message : String) (parameter : Option String) :
    failureFrame o responseId model sequenceNumber code message parameter =
      eventFrame "response.failed" (o.serde.toString
        (failureEvent o responseId model sequenceNumber code message parameter)) := rfl

/-- The text of an object is not that of the end marker. -/
theorem toString_obj_ne_done {serde : Serde} (hserde : serde.Lawful)
    (entries : List (String × Value)) : serde.toString (.obj entries) ≠ "[DONE]" := by
  intro h
  have hhead := hserde.toString_object (Map.ofEntries entries)
  rw [show Value.object (Map.ofEntries entries) = .obj entries from rfl, h] at hhead
  exact absurd hhead (by decide)

/-- A failure frame is inspected as the event that it was built of. -/
theorem inspectFrame_failureFrame {o : Options} (hserde : o.serde.Lawful)
    (responseId model : Option String) {sequenceNumber : ℕ} (hnumber : sequenceNumber < 2 ^ 64)
    (code message : String) (parameter : Option String) :
    inspectFrame o.serde (failureFrame o responseId model sequenceNumber code message parameter) =
      .ok (.keep ⟨"response.failed", some sequenceNumber,
        failureEvent o responseId model sequenceNumber code message parameter⟩) := by
  have hinspect := inspectFrame_eventFrame (show OneLine "response.failed" by decide)
    (hserde.toString_line (failureEvent o responseId model sequenceNumber code message parameter))
    (toString_obj_ne_done hserde _)
    (hserde.fromStr_toString _ (failureEvent_plain o responseId model hnumber ..))
  rw [failureFrame_eq_eventFrame, hinspect]
  have hid : safeProtocolIdentifier ((responseId.filter safeProtocolIdentifier).getD
      "resp_muse_codex_protocol_error") = true := by
    cases hfilter : responseId.filter safeProtocolIdentifier with
    | none => decide
    | some id => exact (Option.filter_eq_some_iff.mp hfilter).2
  have htype : ((failureEvent o responseId model sequenceNumber code message parameter).get
      "type").bind Value.asStr = some "response.failed" := by
    simp [failureEvent, Value.obj, Map.ofEntries]
  have hsequence : sequenceNumberOf (failureEvent o responseId model sequenceNumber code message
      parameter) = .ok (some sequenceNumber) := by
    simp [sequenceNumberOf, failureEvent, Value.obj, Map.ofEntries]
  have hshape : validateEventShape "response.failed" (failureEvent o responseId model
      sequenceNumber code message parameter) = .ok () := by
    simp [validateEventShape, firstFailure, isLifecycleEvent, isDeltaEvent, isItemEvent,
      failureEvent, Value.obj, Map.ofEntries, hid]
  rw [inspectValue, htype]
  simp only [hsequence, hshape]
  rfl

/-- The message of a failure frame can be read from it. -/
theorem failureFrame_message {o : Options} (hserde : o.serde.Lawful)
    {responseId model responseId' model' : Option String} {sequenceNumber sequenceNumber' : ℕ}
    (hnumber : sequenceNumber < 2 ^ 64) (hnumber' : sequenceNumber' < 2 ^ 64)
    {code message code' message' : String} {parameter parameter' : Option String}
    (h : failureFrame o responseId model sequenceNumber code message parameter =
      failureFrame o responseId' model' sequenceNumber' code' message' parameter') :
    message = message' := by
  have htext := congrArg String.toList (toUtf8_injective h)
  simp only [String.toList_append, List.append_left_inj, List.append_right_inj,
    String.toList_inj] at htext
  -- The two texts are of the same document, and the message is a member of it.
  have hvalue := congrArg o.serde.fromStr htext
  rw [hserde.fromStr_toString _ (failureEvent_plain o responseId model hnumber ..),
    hserde.fromStr_toString _ (failureEvent_plain o responseId' model' hnumber' ..)] at hvalue
  have hread (responseId model : Option String) (sequenceNumber : ℕ) (code message : String)
      (parameter : Option String) :
      (((failureEvent o responseId model sequenceNumber code message parameter).get
        "response").bind (·.get "error")).bind (·.get "message") = some (.string message) := by
    simp [failureEvent, Value.obj, Map.ofEntries]
  have hmessage := congrArg (fun v => ((v.get "response").bind (·.get "error")).bind
    (·.get "message")) (Except.ok.inj hvalue)
  simp only [hread] at hmessage
  exact Value.string.inj (Option.some.inj hmessage)

/-- The messages that stand for a class are not those of protocol failures. -/
theorem CodeClass.message_head (c : CodeClass) : c.message.toList.head? = some 'T' := by
  cases c <;> decide +kernel

/-- The failure frame of a provider's failure is not that of a protocol failure. -/
theorem reportedFailure_ne_protocolFailure {o : Options} (hserde : o.serde.Lawful)
    {id : Identity} (hnumber : id.lastSequence < 2 ^ 64) (id' : Identity) (event : InspectedEvent)
    (reason : String) : id.reportedFailure o event ≠ id'.protocolFailure o reason := by
  intro h
  have hmessage := failureFrame_message hserde hnumber (by omega) h
  have hhead : (providerFailure event).message.toList.head? = some 'T' := by
    unfold providerFailure
    split_ifs
    · simp [cancelledFailure]
    · exact (congrArg (·.toList.head?) (sanitizeStreamFailure_message event.value)).trans
        (reportedClass event.value).message_head
  rw [hmessage] at hhead
  simp [String.toList_append] at hhead

end MuseCodex.Gateway
