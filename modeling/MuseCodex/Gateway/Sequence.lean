import MuseCodex.Gateway.Failure

/-!
# The sequence number of a failure

A failure frame goes on counting where upstream stopped. A protocol failure takes the number after
the largest so far. A failure that upstream reports takes the largest so far itself, which is right
when the event that reports it has a number of its own and that is new; when the event has none,
the failure frame repeats the number of a frame that was already forwarded. The number of a failure
frame is above all numbers before it exactly when, for a reported failure, each of these is
exceeded by the number of the event or by that of a frame that was left out
(`validatedFrames_numbered`).
-/

namespace MuseCodex.Gateway

open Text Json

variable (o : Options)

/-- The sequence number that a frame carries. -/
def frameNumber (frame : Bytes) : Option ℕ :=
  match inspectFrame o.serde frame with
  | .ok (.keep event) | .ok (.drop event) => event.sequenceNumber
  | .error _ => none

/-- A failure frame that the gateway builds. Its number is a word of 64 bits. -/
def IsFailureFrame (frame : Bytes) : Prop :=
  ∃ responseId model sequenceNumber code message parameter, sequenceNumber < 2 ^ 64 ∧
    frame = failureFrame o responseId model sequenceNumber code message parameter

/-- When the last of some frames is a failure frame, it carries a number that is above those of all
frames before it. -/
def FailureNumbered (frames : List Bytes) : Prop :=
  ∀ before failure, frames = before ++ [failure] → IsFailureFrame o failure →
    ∃ n, frameNumber o failure = some n ∧ ∀ frame ∈ before, ∀ m ∈ frameNumber o frame, m < n

/-- The number of a failure frame. -/
theorem frameNumber_failureFrame {o : Options} (hserde : o.serde.Lawful)
    (responseId model : Option String) {sequenceNumber : ℕ} (hnumber : sequenceNumber < 2 ^ 64)
    (code message : String) (parameter : Option String) :
    frameNumber o (failureFrame o responseId model sequenceNumber code message parameter) =
      some sequenceNumber := by
  rw [frameNumber, inspectFrame_failureFrame hserde _ _ hnumber]

/-- The number that a frame carries fits 64 bits. -/
theorem frameNumber_lt {o : Options} (hserde : o.serde.Lawful) (frame : Bytes) :
    ∀ n ∈ frameNumber o frame, n < 2 ^ 64 := by
  unfold frameNumber
  cases hframe : inspectFrame o.serde frame with
  | error reason => exact fun n hn => by cases hn
  | ok disposition =>
    cases disposition with
    | keep event => exact inspectFrame_number_lt hserde (.inl hframe)
    | drop event => exact inspectFrame_number_lt hserde (.inr hframe)

/-- The largest number so far is that of the start or of one of the frames. -/
theorem lastSequence_cases (frames : List Bytes) (id : Identity) :
    (∀ frame ∈ frames, ∀ m ∈ frameNumber o frame,
        m ≤ (frames.foldl (Identity.observeFrame o) id).lastSequence) ∧
      id.lastSequence ≤ (frames.foldl (Identity.observeFrame o) id).lastSequence ∧
      ((frames.foldl (Identity.observeFrame o) id).lastSequence = id.lastSequence ∨
        ∃ frame ∈ frames, frameNumber o frame =
          some (frames.foldl (Identity.observeFrame o) id).lastSequence) := by
  induction frames generalizing id with
  | nil => exact ⟨nofun, le_refl _, .inl rfl⟩
  | cons frame frames ih =>
    obtain ⟨hall, hle, hcases⟩ := ih (id.observeFrame o frame)
    rw [List.foldl_cons]
    have hstep : (id.observeFrame o frame).lastSequence =
        max id.lastSequence ((frameNumber o frame).getD 0) := by
      unfold Identity.observeFrame frameNumber
      split <;> simp_all [Identity.observe]
    refine ⟨fun f hf m hm => ?_, by omega, ?_⟩
    · rcases List.mem_cons.mp hf with rfl | hf
      · rw [Option.mem_def.mp hm, Option.getD_some] at hstep
        omega
      · exact hall f hf m hm
    · rcases hcases with heq | ⟨f, hf, hnumber⟩
      · rw [heq, hstep]
        cases hnumber : frameNumber o frame with
        | none => exact .inl (by simp)
        | some n =>
          rw [Option.getD_some]
          rcases max_choice id.lastSequence n with hmax | hmax
          · exact .inl hmax
          · exact .inr ⟨frame, List.mem_cons_self, by rw [hnumber, hmax]⟩
      · exact .inr ⟨f, List.mem_cons_of_mem _ hf, hnumber⟩

/-- The number of the failure frame of a cause. -/
def Cause.number (id : Identity) : Cause → ℕ
  | .reported event => (id.observe event).lastSequence
  | .rejected _ => min (id.lastSequence + 1) (2 ^ 64 - 1)

/-- A failure frame carries the number of its cause. -/
theorem frameNumber_cause {o : Options} (hserde : o.serde.Lawful) {id : Identity} {cause : Cause}
    (hnumber : cause.number id < 2 ^ 64) :
    frameNumber o (cause.frame o id) = some (cause.number id) := by
  cases cause with
  | reported event => exact frameNumber_failureFrame hserde _ _ hnumber ..
  | rejected reason => exact frameNumber_failureFrame hserde _ _ hnumber ..

/-- The frame of a failure is a failure frame. -/
theorem isFailureFrame_cause {id : Identity} {cause : Cause} (hnumber : cause.number id < 2 ^ 64) :
    IsFailureFrame o (cause.frame o id) := by
  cases cause with
  | reported event => exact ⟨_, _, _, _, _, _, hnumber, rfl⟩
  | rejected reason => exact ⟨_, _, _, _, _, _, hnumber, rfl⟩

/-- A failure frame carries the number of its cause, so that is what has to be above the numbers
before it. -/
theorem failureNumbered_iff (hserde : o.serde.Lawful) {cause : Cause} {id : Identity}
    (hnumber : cause.number id < 2 ^ 64) {forwarded : List Bytes} :
    FailureNumbered o (forwarded ++ [cause.frame o id]) ↔
      ∀ frame ∈ forwarded, ∀ m ∈ frameNumber o frame, m < cause.number id := by
  constructor
  · intro h
    obtain ⟨n, hn, hall⟩ := h _ _ rfl (isFailureFrame_cause o hnumber)
    rw [frameNumber_cause hserde hnumber, Option.some_inj] at hn
    rwa [hn]
  · intro h before' failure heq _
    obtain ⟨rfl, hlast⟩ := List.append_inj' heq rfl
    cases hlast
    exact ⟨_, frameNumber_cause hserde hnumber, h⟩

/-- The frames that a stream gets past are frames of upstream. -/
theorem failurePoint_mem {e : Ending} {frames : List Bytes} {rest : Bytes} {before : List Bytes}
    {cause : Cause} (h : failurePoint o e frames rest = some (before, cause)) {frame : Bytes}
    (hframe : frame ∈ before) : frame ∈ frames := by
  induction frames generalizing before with
  | nil =>
    cases h
    exact hframe
  | cons first frames ih =>
    rcases failurePoint_cons h with ⟨rfl, -⟩ | ⟨before, rfl, hpoint, -, -⟩
    · cases hframe
    · rcases List.mem_cons.mp hframe with rfl | hmem
      · exact List.mem_cons_self
      · exact List.mem_cons_of_mem _ (ih hpoint hmem)

/-- The event that reports a failure was inspected. -/
theorem failurePoint_reported {o : Options} {e : Ending} {frames : List Bytes} {rest : Bytes}
    {before : List Bytes} {event : InspectedEvent}
    (h : failurePoint o e frames rest = some (before, .reported event)) :
    ∃ frame ∈ frames, inspectFrame o.serde frame = .ok (.keep event) := by
  induction frames generalizing before with
  | nil => cases h
  | cons frame frames ih =>
    rcases failurePoint_cons h with ⟨-, ⟨-, hcause⟩ | ⟨-, ⟨event', hkeep, -, hcause⟩ |
      ⟨reason, -, hcause⟩⟩⟩ | ⟨before, -, hpoint, -, -⟩
    · cases hcause
    · cases hcause
      exact ⟨frame, List.mem_cons_self, hkeep⟩
    · cases hcause
    · obtain ⟨frame', hmem, hkeep⟩ := ih hpoint
      exact ⟨frame', List.mem_cons_of_mem _ hmem, hkeep⟩

/-- The number of a failure frame fits 64 bits, and it is not below those of the frames that were
forwarded. -/
theorem failurePoint_number {o : Options} (hserde : o.serde.Lawful) {e : Ending}
    {frames : List Bytes} {rest : Bytes} {before : List Bytes} {cause : Cause}
    (h : failurePoint o e frames rest = some (before, cause)) :
    cause.number (before.foldl (Identity.observeFrame o) {}) < 2 ^ 64 ∧
      ((before.filter (isKept o.serde)).foldl (Identity.observeFrame o) {}).lastSequence ≤
        cause.number (before.foldl (Identity.observeFrame o) {}) := by
  obtain ⟨hall, -, hlast⟩ := lastSequence_cases o before {}
  obtain ⟨-, -, hlast'⟩ := lastSequence_cases o (before.filter (isKept o.serde)) {}
  have hbound : (before.foldl (Identity.observeFrame o) {}).lastSequence < 2 ^ 64 := by
    rcases hlast with hzero | ⟨largest, hmem, hnumber⟩
    · rw [hzero]
      decide
    · exact frameNumber_lt hserde largest _ hnumber
  have hle : ((before.filter (isKept o.serde)).foldl (Identity.observeFrame o) {}).lastSequence ≤
      (before.foldl (Identity.observeFrame o) {}).lastSequence := by
    rcases hlast' with hzero | ⟨largest, hmem, hnumber⟩
    · rw [hzero]
      exact Nat.zero_le _
    · exact hall largest (List.mem_of_mem_filter hmem) _ hnumber
  generalize before.foldl (Identity.observeFrame o) {} = id at hbound hle ⊢
  cases cause with
  | rejected reason =>
    rw [Cause.number]
    omega
  | reported event =>
    obtain ⟨frame, -, hkeep⟩ := failurePoint_reported h
    have hnumber : (Cause.reported event).number id =
        max id.lastSequence (event.sequenceNumber.getD 0) := rfl
    exact ⟨Identity.observe_lt hserde (.inl hkeep) hbound, hnumber ▸ le_max_of_le_left hle⟩

/-- Each number of a frame that was forwarded is exceeded by that of the event which reports the
failure, or by that of a frame that was left out. -/
def Outnumbered (before : List Bytes) (event : InspectedEvent) : Prop :=
  ∀ frame ∈ before, isKept o.serde frame = true → ∀ m ∈ frameNumber o frame,
    (∃ n ∈ event.sequenceNumber, m < n) ∨
      ∃ dropped ∈ before, isKept o.serde dropped = false ∧
        ∃ n ∈ frameNumber o dropped, m < n

/-- The number of a reported failure is above those of the forwarded frames exactly when they are
outnumbered. -/
theorem outnumbered_iff (before : List Bytes) (event : InspectedEvent) :
    (∀ frame ∈ before.filter (isKept o.serde), ∀ m ∈ frameNumber o frame,
      m < (Cause.reported event).number (before.foldl (Identity.observeFrame o) {})) ↔
        Outnumbered o before event := by
  obtain ⟨hall, -, hlast⟩ := lastSequence_cases o before {}
  generalize before.foldl (Identity.observeFrame o) {} = id at hall hlast
  have hnumber : (Cause.reported event).number id =
      max id.lastSequence (event.sequenceNumber.getD 0) := rfl
  rw [hnumber]
  constructor
  · intro h frame hframe hkept m hm
    have hlt := h frame (List.mem_filter.mpr ⟨hframe, hkept⟩) m hm
    rcases lt_max_iff.mp hlt with hlow | hnew
    · -- The largest number so far is above `m`; it is that of a frame.
      rcases hlast with hzero | ⟨largest, hmem, hnumber'⟩
      · rw [hzero] at hlow
        exact absurd hlow (Nat.not_lt_zero _)
      · by_cases hkept' : isKept o.serde largest = true
        · have hlt' := h largest (List.mem_filter.mpr ⟨hmem, hkept'⟩) _ hnumber'
          cases hsequence : event.sequenceNumber with
          | none =>
            rw [hsequence, Option.getD_none] at hlt'
            omega
          | some n =>
            rw [hsequence, Option.getD_some] at hlt'
            exact .inl ⟨n, rfl, by omega⟩
        · exact .inr ⟨largest, hmem, Bool.eq_false_iff.mpr hkept', _, hnumber', hlow⟩
    · cases hsequence : event.sequenceNumber with
      | none =>
        rw [hsequence, Option.getD_none] at hnew
        exact absurd hnew (Nat.not_lt_zero _)
      | some n =>
        rw [hsequence, Option.getD_some] at hnew
        exact .inl ⟨n, rfl, hnew⟩
  · intro h frame hframe m hm
    obtain ⟨hmem, hkept⟩ := List.mem_filter.mp hframe
    rcases h frame hmem hkept m hm with ⟨n, hn, hlt⟩ | ⟨dropped, hdropped, -, n, hn, hlt⟩
    · rw [Option.mem_def.mp hn, Option.getD_some]
      omega
    · have hle := hall dropped hdropped n hn
      omega

/-- Of a body whose numbers can all be exceeded, the number of a failure frame is above those of
all frames before it exactly when upstream reported no failure, or reported it after frames that
are outnumbered. -/
theorem validatedFrames_numbered (hserde : o.serde.Lawful) (body : List Poll)
    (hmax : ∀ frame ∈ scanner.frames (upstreamBytes body), ∀ n ∈ frameNumber o frame,
      n < 2 ^ 64 - 1) :
    FailureNumbered o (validatedFrames o body) ↔
      ∀ before event, streamFailure o body = some (before, .reported event) →
        Outnumbered o before event := by
  rw [validatedFrames_eq, verdictOf]
  cases hpoint : streamFailure o body with
  | none =>
    refine iff_of_true (fun before failure heq hbuilt => ?_) fun _ _ hcause => by cases hcause
    -- The last frame ends the response, so it is none of the gateway.
    obtain ⟨copies, terminal, event, hverdict, -, -, -, hevent, hkind⟩ :=
      verdict_copied (ending body) {} hpoint
    rw [hverdict] at heq
    obtain ⟨-, hlast⟩ := List.append_inj' heq rfl
    cases hlast
    obtain ⟨responseId, model, sequenceNumber, code, message, parameter, hnumber, rfl⟩ := hbuilt
    rw [inspectFrame_failureFrame hserde _ _ hnumber] at hevent
    cases hevent
    simp at hkind
  | some point =>
    obtain ⟨before, cause⟩ := point
    rw [verdict_of_failurePoint o (ending body) {} hpoint,
      failureNumbered_iff o hserde (failurePoint_number hserde hpoint).1]
    cases cause with
    | reported event =>
      rw [outnumbered_iff]
      constructor
      · rintro h _ _ ⟨⟩
        exact h
      · intro h
        exact h before event rfl
    | rejected reason =>
      refine iff_of_true (fun frame hframe m hm => ?_) fun _ _ hcause => by cases hcause
      obtain ⟨hall, -, hlast⟩ := lastSequence_cases o before {}
      have hle := hall frame (List.mem_of_mem_filter hframe) m hm
      have hroom : (before.foldl (Identity.observeFrame o) {}).lastSequence < 2 ^ 64 - 1 := by
        rcases hlast with hzero | ⟨largest, hmem, hnumber⟩
        · rw [hzero]
          decide
        · exact hmax largest (failurePoint_mem o hpoint hmem) _ hnumber
      have hnumber : (Cause.rejected reason).number (before.foldl (Identity.observeFrame o) {}) =
          min ((before.foldl (Identity.observeFrame o) {}).lastSequence + 1) (2 ^ 64 - 1) := rfl
      omega

/-- A delta with a number, and what comes after it. -/
def numberedDelta (after : String) : List Poll :=
  [.chunk (toUtf8 ("data: \x7b\"type\":\"response.output_text.delta\",\"delta\":\"\"," ++
    "\"sequence_number\":7\x7d\n\n" ++ after))]

/-- The frame of the delta carries the number, and the stream gets past it. -/
theorem numberedDelta_reads : ∃ frame,
    scanner.frames (upstreamBytes (numberedDelta "")) = [frame] ∧
      frameNumber ⟨Compact.serde, MAX_EVENT_BYTES, none, 0⟩ frame = some 7 ∧
      isKept Compact.serde frame = true ∧
      streamFailure ⟨Compact.serde, MAX_EVENT_BYTES, none, 0⟩ (numberedDelta "") =
        some ([frame], .rejected "upstream stream ended before a terminal response event") ∧
      streamFailure ⟨Compact.serde, MAX_EVENT_BYTES, none, 0⟩ (numberedDelta
          "data: \x7b\"type\":\"error\",\"message\":\"m\"\x7d\n\n") =
        some ([frame], .reported ⟨"error", none,
          .obj [("type", .string "error"), ("message", .string "m")]⟩) :=
  ⟨toUtf8 ("data: \x7b\"type\":\"response.output_text.delta\",\"delta\":\"\"," ++
    "\"sequence_number\":7\x7d\n\n"), by decide +kernel⟩

/-- The stream breaks off after the delta, and the failure frame has a new number. -/
theorem validatedFrames_numbered_delta :
    FailureNumbered ⟨Compact.serde, MAX_EVENT_BYTES, none, 0⟩
      (validatedFrames ⟨Compact.serde, MAX_EVENT_BYTES, none, 0⟩ (numberedDelta "")) := by
  obtain ⟨frame, hframes, hnumber, -, hpoint, -⟩ := numberedDelta_reads
  refine (validatedFrames_numbered _ Compact.lawful _ ?_).mpr ?_
  · rw [hframes]
    intro frame' hmem n hn
    rw [List.mem_singleton.mp hmem, Option.mem_def, hnumber] at hn
    cases hn
    decide
  · rw [hpoint]
    nofun

/-- Upstream reports an error without a number after the delta, and the failure frame repeats the
number of the delta. -/
theorem validatedFrames_numbered_error :
    (∀ frame ∈ scanner.frames (upstreamBytes (numberedDelta
        "data: \x7b\"type\":\"error\",\"message\":\"m\"\x7d\n\n")),
      ∀ n ∈ frameNumber ⟨Compact.serde, MAX_EVENT_BYTES, none, 0⟩ frame, n < 2 ^ 64 - 1) ∧
    ¬ FailureNumbered ⟨Compact.serde, MAX_EVENT_BYTES, none, 0⟩
      (validatedFrames ⟨Compact.serde, MAX_EVENT_BYTES, none, 0⟩ (numberedDelta
        "data: \x7b\"type\":\"error\",\"message\":\"m\"\x7d\n\n")) := by
  refine ⟨by decide +kernel, ?_⟩
  obtain ⟨frame, -, hnumber, hkept, -, hpoint⟩ := numberedDelta_reads
  rw [validatedFrames_eq, verdictOf, verdict_of_failurePoint _ _ {} hpoint,
    failureNumbered_iff _ Compact.lawful (failurePoint_number Compact.lawful hpoint).1]
  intro h
  have hmem : frame ∈ [frame].filter (isKept Compact.serde) := by simp [hkept]
  obtain ⟨-, -, hlast⟩ := lastSequence_cases ⟨Compact.serde, MAX_EVENT_BYTES, none, 0⟩ [frame] {}
  have hlt := h frame hmem 7 hnumber
  have hseven : ((Identity.observeFrame ⟨Compact.serde, MAX_EVENT_BYTES, none, 0⟩ {}
      frame)).lastSequence ≤ 7 := by
    rcases hlast with hzero | ⟨frame', hmem', hnumber'⟩
    · exact le_of_eq_of_le hzero (by decide)
    · rw [List.mem_singleton.mp hmem', hnumber, Option.some_inj] at hnumber'
      exact le_of_eq hnumber'.symm
  exact absurd (lt_of_lt_of_le hlt (max_le hseven (by decide))) (lt_irrefl _)

end MuseCodex.Gateway
