import MuseCodex.Gateway.Failure
import MuseCodex.Zai.Validated

/-!
# The gateway reports a stream that fails

A stream that cannot end with its response ends with an `error` event. The gateway forwards what
comes before it and replaces the event by a failure frame with a message of its own, unless the
event itself does not have the shape that the gateway asks for. That is so when its message is
empty, which only a chunk that reports an error without a text can cause
(`validatedStream_failing`): the turn is then reported as a protocol failure.
-/

namespace MuseCodex.Zai

open Text Json

/-! ## The error event -/

namespace Synthesis

/-- The event that ends a stream with an error. -/
def errorEvent (message : String) (st : Synthesis) : Event :=
  .of st.sequence "error" ([("message", .string message), ("code", .string "invalid_request")] ++
    if st.responseId ≠ "" then [("response_id", .string st.responseId)] else [])

/-- A failure queues its event. -/
theorem fail_pending_eq (message : String) {st : Synthesis} (h : st.terminated = false) :
    (st.fail message).pending = st.pending ++ [st.errorEvent message] := by
  rw [fail, if_neg (by rw [h]; exact Bool.false_ne_true)]
  rfl

/-- The gateway can read the error event of a stream whose events can all be numbered. -/
theorem errorEvent_readable (message : String) {st : Synthesis} (hn : st.sequence < 2 ^ 64) :
    Readable (st.errorEvent message) := by
  refine readable_of (by decide) (by decide) (by decide) hn fun p hp => ?_
  have hstring : ∃ s, p.2 = .string s := by
    rcases List.mem_append.mp hp with hp | hp
    · simp only [List.mem_cons, List.not_mem_nil, or_false] at hp
      rcases hp with rfl | rfl <;> exact ⟨_, rfl⟩
    · split_ifs at hp
      · rw [List.mem_singleton.mp hp]
        exact ⟨_, rfl⟩
      · cases hp
  obtain ⟨s, hs⟩ := hstring
  rw [hs]
  exact .string _ _

/-- The error event has the shape that the gateway asks for exactly when its message is not
empty. -/
theorem errorEvent_shape (message : String) (st : Synthesis) :
    Gateway.validateEventShape "error" (st.errorEvent message).value =
      if message = "" then .error "upstream error event had no message" else .ok () := by
  have hmessage : (st.errorEvent message).value.get "message" = some (.string message) := by
    rw [errorEvent, Event.of_get _ _ _ (by decide) (by decide)]
    split_ifs <;> simp [Map.ofEntries]
  unfold Gateway.validateEventShape
  rw [hmessage]
  by_cases h : message = ""
  · rw [if_pos h]
    simp [Gateway.firstFailure, h, Gateway.isLifecycleEvent, Gateway.isDeltaEvent,
      Gateway.isItemEvent]
  · rw [if_neg h]
    simp [Gateway.firstFailure, h, Gateway.isLifecycleEvent, Gateway.isDeltaEvent,
      Gateway.isItemEvent]

end Synthesis

/-! ## The message of the error -/

/-- A transcript ends with a chunk that reports an error with an empty message. -/
def Transcript.isWordless (t : Transcript) : Bool :=
  match t.last with
  | .chunk chunk => (Synthesis.chunkError chunk).any fun error =>
    (error.get "message").bind Value.asStr = some ""
  | .done | .fault _ => false

/-- The fault of a frame says what is wrong. -/
theorem frameSignal_fault_ne_empty {serde : Serde} {frame : Bytes} {message : String}
    (h : frameSignal serde frame = some (.fault message)) : message ≠ "" := by
  unfold frameSignal at h
  split at h
  · cases h
    decide
  · dsimp only at h
    split_ifs at h
    · cases h
    split at h
    · cases h
      intro hempty
      have hlist := congrArg String.toList hempty
      simp [String.toList_append] at hlist
    · cases h

/-- The faults of an upstream body say what is wrong. -/
theorem signals_fault_ne_empty {serde : Serde} {buffer : Bytes} {upstream : List Poll}
    {message : String} (h : .fault message ∈ signals serde buffer upstream) : message ≠ "" := by
  induction upstream generalizing buffer with
  | nil => cases h
  | cons polled upstream ih =>
    cases polled with
    | error text =>
      rw [signals, List.mem_singleton] at h
      cases h
      intro hempty
      have hlist := congrArg String.toList hempty
      simp [String.toList_append] at hlist
    | chunk bytes =>
      rw [signals] at h
      split_ifs at h
      · rw [List.mem_singleton] at h
        cases h
        decide
      · rcases List.mem_append.mp h with h | h
        · obtain ⟨frame, -, hframe⟩ := List.mem_filterMap.mp h
          exact frameSignal_fault_ne_empty hframe
        · exact ih h

/-- A transcript ends with a fault among its signals, or with that of the end of the body. -/
theorem transcribe_fault {signals : List Signal} {message : String}
    (h : (transcribe signals).last = .fault message) :
    message = "the Z.ai stream ended before a terminal event" ∨ .fault message ∈ signals := by
  induction signals with
  | nil =>
    cases h
    exact .inl rfl
  | cons signal signals ih =>
    cases signal with
    | chunk chunk =>
      rw [transcribe] at h
      split_ifs at h
      exact (ih h).imp_right (List.mem_cons_of_mem _)
    | done => cases h
    | fault message =>
      cases h
      exact .inr List.mem_cons_self

/-- The message of a failure is empty exactly when a chunk reports it with an empty message. -/
theorem failure_eq_empty_iff (serde : Serde) (upstream : List Poll) :
    (transcript serde upstream).failure = some "" ↔
      (transcript serde upstream).isWordless = true := by
  unfold Transcript.failure Transcript.isWordless
  cases hlast : (transcript serde upstream).last with
  | fault message =>
    -- Each fault comes with a text of the source.
    have hne : message ≠ "" := by
      rcases transcribe_fault hlast with rfl | hmem
      · decide
      · exact signals_fault_ne_empty hmem
    simp [hne]
  | done =>
    dsimp only
    split_ifs <;> simp
  | chunk chunk =>
    dsimp only
    cases Synthesis.chunkError chunk with
    | none => simp
    | some error =>
      simp only [Option.map_some, Option.any_some, decide_eq_true_eq]
      generalize (error.get "message").bind Value.asStr = text
      cases text <;> simp

/-! ## What the gateway yields -/

/-- What the gateway knows of the response after some events. -/
def observed (es : List Event) : Gateway.Identity :=
  es.foldl (fun id e => id.observe e.inspected) {}

/-- The failure frame that the gateway builds from the error event of a stream. -/
def sanitizedFrame (o : Gateway.Options) (es : List Event) (last : Event) : Bytes :=
  let failure := Gateway.sanitizeStreamFailure last.value
  Gateway.failureFrame o (observed es).responseId (observed es).model (observed es).lastSequence
    failure.code failure.message failure.parameter

/-- The failure frame of an event that is no cancellation is built from what it says. -/
theorem reportedFailure_eq (o : Gateway.Options) (es : List Event) {last : Event}
    (h : last.kind ≠ "response.cancelled") :
    (observed es).reportedFailure o last.inspected = sanitizedFrame o es last := by
  unfold Gateway.Identity.reportedFailure Gateway.providerFailure Event.inspected
  rw [if_neg h]
  rfl

/-- The gateway yields the events before the error event of a stream as they are, and then one
failure frame that it builds from the error event, and that is no protocol failure. -/
def ReportsFailure (o : Gateway.Options) (es : List Event) (yielded : Bytes) : Prop :=
  ∃ before last, es = before ++ [last] ∧
    yielded = (before.map (Event.render o.serde)).flatten ++ sanitizedFrame o es last ∧
    ∀ id reason, sanitizedFrame o es last ≠ Gateway.Identity.protocolFailure o id reason

/-- The gateway observes presentable events as they are. -/
theorem foldl_observeFrame {o : Gateway.Options} (hserde : o.serde.Lawful) {es : List Event}
    (h : ∀ e ∈ es, Presentable e) (id : Gateway.Identity) :
    (es.map (Event.render o.serde)).foldl (Gateway.Identity.observeFrame o) id =
      es.foldl (fun id e => id.observe e.inspected) id := by
  induction es generalizing id with
  | nil => rfl
  | cons e es ih =>
    have hframe : id.observeFrame o (e.render o.serde) = id.observe e.inspected := by
      rw [Gateway.Identity.observeFrame, (h e List.mem_cons_self).inspectFrame hserde]
    rw [List.map_cons, List.foldl_cons, List.foldl_cons, hframe,
      ih fun e he => h e (List.mem_cons_of_mem _ he)]

/-- The events of a stream that fails: those of the response so far, which are presentable, and the
error event, which can be numbered. -/
theorem responsesEvents_failing {serde : Serde} (hspelled : serde.Spelled) {upstream : List Poll}
    (hreceived : received upstream < 2 ^ 63) (haddressable : (transcript serde upstream).Addressable)
    (model requestKey : String) (tools : ToolNames)
    (h : (transcript serde upstream).terminal = "error") :
    ∃ st message, responsesEvents serde upstream model requestKey tools =
        st.pending ++ [Synthesis.errorEvent message st] ∧
      (transcript serde upstream).failure = some message ∧ (∀ e ∈ st.pending, Presentable e) ∧
      st.sequence < 2 ^ 64 := by
  have h₀ : Synthesis.Fresh { model, requestKey, tools } := ⟨⟨rfl, rfl⟩, rfl⟩
  have hload := replay_load_le hspelled upstream model requestKey tools
  rw [responsesEvents_eq serde haddressable]
  rcases Synthesis.replay_cases serde (transcript serde upstream) h₀ with
    ⟨-, st, message, hst, heq, hfailure⟩ | ⟨st, reason, -, -, -, hterminal⟩
  · have hon : st.GoesOn := by
      rcases hst with rfl | hbegun
      · exact h₀.1
      · exact hbegun.goesOn serde h₀
    have hroom : st.sequence < 2 ^ 64 ∧ st.nextOutputIndex ≤ 2 ^ 64 := by
      rw [heq, Synthesis.fail, if_neg (by rw [hon.1]; exact Bool.false_ne_true)] at hload
      simp only [Synthesis.load, Synthesis.emit] at hload
      omega
    refine ⟨st, message, ?_, hfailure, ?_, hroom.1⟩
    · rw [heq, Synthesis.fail_pending_eq message hon.1]
    · rcases hst with rfl | hbegun
      · exact fun e he => by cases he
      · exact (hbegun.presented ⟨hroom.1.le, hroom.2⟩).1.pending
  · rw [h] at hterminal
    split_ifs at hterminal
    · exact absurd hterminal (by decide)
    · exact absurd hterminal (by decide)

/-- The gateway judges the error event of a stream by its message. -/
theorem validatedStream_errorEvent (o : Gateway.Options) (hserde : o.serde.Lawful)
    {st : Synthesis} {message : String} (h : ∀ e ∈ st.pending, Presentable e)
    (hn : st.sequence < 2 ^ 64) (hbefore : ∀ e ∈ st.pending, e.isTerminal = false)
    (hlength : ∀ frame ∈ (st.pending ++ [st.errorEvent message]).map (Event.render o.serde),
      frame.length ≤ o.maxEventBytes) {body : List Gateway.Poll}
    (hbody : Gateway.upstreamBytes body =
      ((st.pending ++ [st.errorEvent message]).map (Event.render o.serde)).flatten) :
    Gateway.validatedStream o body = (st.pending.map (Event.render o.serde)).flatten ++
      if message = "" then
        (observed st.pending).protocolFailure o "upstream error event had no message"
      else sanitizedFrame o (st.pending ++ [st.errorEvent message]) (st.errorEvent message) := by
  have hframes : (st.pending ++ [st.errorEvent message]).map (Event.render o.serde) =
      st.pending.map (Event.render o.serde) ++ [(st.errorEvent message).render o.serde] := by
    rw [List.map_append, List.map_singleton]
  have hreadable := Synthesis.errorEvent_readable message hn
  have hinspect := hreadable.inspectFrame hserde
  rw [show (st.errorEvent message).kind = "error" from rfl, st.errorEvent_shape] at hinspect
  rw [hframes] at hlength hbody
  have hlast := hlength _ (List.mem_append_right _ (List.mem_singleton_self _))
  rw [Gateway.validatedStream_append o ?_ ?_ hbody, foldl_observeFrame hserde h]
  · refine congrArg (_ ++ ·) ?_
    -- The check of an error event fails exactly on an empty message.
    by_cases hempty : message = ""
    · rw [if_pos hempty] at hinspect ⊢
      rw [Gateway.verdict_refused o _ _ hlast hinspect, List.flatten_singleton]
      rfl
    · rw [if_neg hempty] at hinspect ⊢
      rw [Gateway.verdict_failed o _ _ hlast hinspect (show Gateway.isFailureEvent "error" = true by decide),
        List.flatten_singleton,
        ← reportedFailure_eq o _ (show "error" ≠ "response.cancelled" by decide), observed,
        List.foldl_append]
      rfl
  · intro frame hframe t
    rcases List.mem_append.mp hframe with hframe | hframe
    · obtain ⟨e, he, rfl⟩ := List.mem_map.mp hframe
      exact (h e he).readable.scan hserde t
    · rw [List.mem_singleton.mp hframe]
      exact hreadable.scan hserde t
  · intro frame hframe
    have hle := hlength frame (List.mem_append_left _ hframe)
    obtain ⟨e, he, rfl⟩ := List.mem_map.mp hframe
    exact (h e he).copied hserde (hbefore e he) hle

/-- What the gateway knows of the response after presentable events has a number that fits 64
bits. -/
theorem observed_lt {serde : Serde} (hserde : serde.Lawful) {es : List Event}
    (h : ∀ e ∈ es, Presentable e) : (observed es).lastSequence < 2 ^ 64 := by
  unfold observed
  refine List.foldlRecOn (motive := fun id : Gateway.Identity => id.lastSequence < 2 ^ 64) es _
    (by decide) fun id hid e he => ?_
  exact Gateway.Identity.observe_lt hserde (.inl ((h e he).inspectFrame hserde)) hid

/-- The failure frame built from an error event with a message is no protocol failure. -/
theorem sanitizedFrame_ne {o : Gateway.Options} (hserde : o.serde.Lawful) {st : Synthesis}
    (h : ∀ e ∈ st.pending, Presentable e) (hn : st.sequence < 2 ^ 64) {message : String}
    (hmessage : message ≠ "") (id : Gateway.Identity) (reason : String) :
    sanitizedFrame o (st.pending ++ [st.errorEvent message]) (st.errorEvent message) ≠
      id.protocolFailure o reason := by
  have hinspect := (Synthesis.errorEvent_readable message hn).inspectFrame hserde
  rw [show (st.errorEvent message).kind = "error" from rfl, st.errorEvent_shape, if_neg hmessage]
    at hinspect
  have hlast : (observed (st.pending ++ [st.errorEvent message])).lastSequence < 2 ^ 64 := by
    rw [observed, List.foldl_append]
    exact Gateway.Identity.observe_lt hserde (.inl hinspect) (observed_lt hserde h)
  rw [← reportedFailure_eq o _ (show (st.errorEvent message).kind ≠ "response.cancelled" by
    rw [show (st.errorEvent message).kind = "error" from rfl]; decide)]
  exact Gateway.reportedFailure_ne_protocolFailure hserde hlast _ _ _

/-- The turn of a stream whose error event has no message is reported as a protocol failure. -/
theorem not_reportsFailure {o : Gateway.Options} {st : Synthesis} {yielded : Bytes}
    (h : yielded = (st.pending.map (Event.render o.serde)).flatten ++
      (observed st.pending).protocolFailure o "upstream error event had no message") :
    ¬ ReportsFailure o (st.pending ++ [st.errorEvent ""]) yielded := by
  rintro ⟨before, last, hsplit, hyielded, hprotocol⟩
  obtain ⟨rfl, hlast⟩ := List.append_inj' hsplit rfl
  rw [h] at hyielded
  exact hprotocol _ _ (List.append_cancel_left hyielded).symm

/-- The gateway reports a stream that fails by what its error event says, unless a chunk reported
the error with an empty message. The counters of the synthesizer are words of 64 bits, which no body
of fewer than `2^63` bytes exceeds. -/
theorem validatedStream_failing {serde : Serde} (hserde : serde.Lawful) (hspelled : serde.Spelled)
    {upstream : List Poll} (hreceived : received upstream < 2 ^ 63) (model requestKey : String)
    (tools : ToolNames)
    (hlast : (responsesEvents serde upstream model requestKey tools).getLast?.map Event.kind =
      some "error")
    (hlength : ∀ frame ∈ responsesStream serde upstream model requestKey tools,
      frame.length ≤ Gateway.MAX_EVENT_BYTES)
    (mediaType : Option String) (now : UInt64) (e : Gateway.Ending) {chunks : List Bytes}
    (hchunks : chunks.flatten = (responsesStream serde upstream model requestKey tools).flatten) :
    ReportsFailure ⟨serde, Gateway.MAX_EVENT_BYTES, mediaType, now⟩
        (responsesEvents serde upstream model requestKey tools)
        (Gateway.validatedStream ⟨serde, Gateway.MAX_EVENT_BYTES, mediaType, now⟩
          (chunks.map .chunk ++ e.polls)) ↔
      (transcript serde upstream).isWordless = false := by
  have haddressable := addressable_of_getLast (List.mem_cons_self) hlast
  have hwell := responsesEvents_wellFormed haddressable model requestKey tools
  rw [responsesEvents_getLast serde haddressable] at hlast
  obtain ⟨st, message, heq, hfailure, hpresentable, hn⟩ := responsesEvents_failing hspelled
    hreceived haddressable model requestKey tools (Option.some.inj hlast)
  unfold responsesStream at hlength hchunks
  rw [heq] at hwell hlength hchunks ⊢
  -- The error is the only terminal event.
  have hbefore : ∀ e ∈ st.pending, e.isTerminal = false := by
    obtain ⟨before, last, hsplit, -, hbefore⟩ := hwell.terminal
    rw [(List.append_inj' hsplit rfl).1]
    exact hbefore
  have hbody := (Gateway.upstreamBytes_chunks chunks e).trans hchunks
  have hstream := validatedStream_errorEvent ⟨serde, Gateway.MAX_EVENT_BYTES, mediaType, now⟩ hserde
    hpresentable hn hbefore hlength hbody
  rw [hstream]
  have hwordless := failure_eq_empty_iff serde upstream
  rw [hfailure, Option.some_inj] at hwordless
  constructor
  · intro hreports
    rw [← Bool.not_eq_true, ← hwordless]
    -- An event without a message is refused, and the report is lost.
    rintro rfl
    exact not_reportsFailure (by rw [if_pos rfl]) hreports
  · intro hspoken
    have hmessage : message ≠ "" := by
      rw [Ne, hwordless, hspoken]
      exact Bool.false_ne_true
    rw [if_neg hmessage]
    exact ⟨st.pending, st.errorEvent message, rfl, rfl,
      sanitizedFrame_ne hserde hpresentable hn hmessage⟩

/-- A completion whose first chunk reports an error with a message. -/
def reportedError (message : String) : List Poll :=
  [.chunk (toUtf8 ("data: \x7b\"error\":\x7b\"message\":\"" ++ message ++ "\"\x7d\x7d\n\n"))]

/-- The gateway reports an error that comes with a message. -/
theorem validatedStream_failing_message :
    ReportsFailure ⟨Compact.serde, Gateway.MAX_EVENT_BYTES, none, 0⟩
      (responsesEvents Compact.serde (reportedError "no") "glm" "key" {})
      (Gateway.validatedStream ⟨Compact.serde, Gateway.MAX_EVENT_BYTES, none, 0⟩
        ((responsesStream Compact.serde (reportedError "no") "glm" "key" {}).map .chunk ++
          Gateway.Ending.eof.polls)) := by
  have htranscript : (transcript Compact.serde (reportedError "no")).isWordless = false ∧
      (transcript Compact.serde (reportedError "no")).terminal = "error" ∧
      (transcript Compact.serde (reportedError "no")).Addressable ∧
      received (reportedError "no") < 2 ^ 63 := by
    decide +kernel
  obtain ⟨hwordless, hterminal, haddressable, hreceived⟩ := htranscript
  have hsmall : ∀ e ∈ responsesEvents Compact.serde (reportedError "no") "glm" "key" {},
      e.kind.toList.length + (Compact.print e.value).length ≤ 1000 := by
    rw [responsesEvents_eq _ haddressable]
    decide +kernel
  refine (validatedStream_failing Compact.lawful Compact.spelled hreceived "glm" "key" {} ?_ ?_
    none 0 .eof rfl).mpr hwordless
  · rw [responsesEvents_getLast _ haddressable, hterminal]
  · intro frame hframe
    obtain ⟨e, he, rfl⟩ := List.mem_map.mp hframe
    exact render_length_le (hsmall e he)

/-- The gateway reports an error that comes with an empty message as a protocol failure. -/
theorem validatedStream_failing_wordless :
    (responsesEvents Compact.serde (reportedError "") "glm" "key" {}).getLast?.map Event.kind =
        some "error" ∧
      (∀ frame ∈ responsesStream Compact.serde (reportedError "") "glm" "key" {},
        frame.length ≤ Gateway.MAX_EVENT_BYTES) ∧
      ¬ ReportsFailure ⟨Compact.serde, Gateway.MAX_EVENT_BYTES, none, 0⟩
        (responsesEvents Compact.serde (reportedError "") "glm" "key" {})
        (Gateway.validatedStream ⟨Compact.serde, Gateway.MAX_EVENT_BYTES, none, 0⟩
          ((responsesStream Compact.serde (reportedError "") "glm" "key" {}).map .chunk ++
            Gateway.Ending.eof.polls)) := by
  have hevents : ∃ st : Synthesis, st.pending = [] ∧ st.sequence = 0 ∧
      responsesEvents Compact.serde (reportedError "") "glm" "key" {} =
        st.pending ++ [st.errorEvent ""] ∧
      ∀ e ∈ responsesEvents Compact.serde (reportedError "") "glm" "key" {},
        e.kind.toList.length + (Compact.print e.value).length ≤ 1000 := by
    have haddressable : (transcript Compact.serde (reportedError "")).Addressable := by
      decide +kernel
    refine ⟨{ model := "glm", requestKey := "key", tools := {} }, rfl, rfl, ?_⟩
    rw [responsesEvents_eq _ haddressable]
    decide +kernel
  obtain ⟨st, hpending, hsequence, hevents, hsmall⟩ := hevents
  have hlength : ∀ frame ∈ responsesStream Compact.serde (reportedError "") "glm" "key" {},
      frame.length ≤ Gateway.MAX_EVENT_BYTES := by
    intro frame hframe
    obtain ⟨e, he, rfl⟩ := List.mem_map.mp hframe
    exact render_length_le (hsmall e he)
  refine ⟨by rw [hevents, hpending]; rfl, hlength, ?_⟩
  rw [responsesStream, hevents] at hlength ⊢
  refine not_reportsFailure ((validatedStream_errorEvent
    ⟨Compact.serde, Gateway.MAX_EVENT_BYTES, none, 0⟩ Compact.lawful ?_ (by omega) ?_ hlength
      ?_).trans (by rw [if_pos rfl]))
  · rw [hpending]
    exact nofun
  · rw [hpending]
    exact nofun
  · rw [Gateway.upstreamBytes_chunks]

end MuseCodex.Zai
