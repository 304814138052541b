import MuseCodex.Gateway.Validator
import MuseCodex.Json.Compact

/-!
# The validator as a function of the upstream bytes

What the validated stream yields is a function of the bytes of the upstream body and of how it
ends: `verdict` reads the frames that the scanner cuts the bytes into, in order, until one of them
ends the stream. `validatedFrames_eq` proves that the state machine of `Validator.lean` computes
it, whatever chunks the bytes arrive in. The size limit is checked in two places of the machine,
on a complete frame and on what is left of the buffer after a chunk. Both agree with the one check
of `verdict`, because a frame that completes later is at least as long as what was buffered of
it.

The shape of the output and its independence of the chunks are then facts about `verdict`.
-/

namespace MuseCodex.Gateway

open Text Json

/-! ## The upstream body -/

/-- How an upstream body ends. -/
inductive Ending where
  | eof
  | error
  | elapsed
deriving DecidableEq

/-- The polls that make an upstream body end. -/
def Ending.polls : Ending → List Poll
  | .eof => []
  | .error => [.error]
  | .elapsed => [.elapsed]

/-- The bytes of an upstream body before it ends. -/
def upstreamBytes : List Poll → Bytes
  | .chunk bytes :: body => bytes ++ upstreamBytes body
  | _ => []

/-- How an upstream body ends. -/
def ending : List Poll → Ending
  | .chunk _ :: body => ending body
  | .error :: _ => .error
  | .elapsed :: _ => .elapsed
  | [] => .eof

/-- The bytes of a body are those of its chunks. -/
theorem upstreamBytes_chunks (chunks : List Bytes) (e : Ending) :
    upstreamBytes (chunks.map .chunk ++ e.polls) = chunks.flatten := by
  induction chunks with
  | nil => cases e <;> rfl
  | cons bytes chunks ih => simp [upstreamBytes, ih]

/-- The ending of a body is what comes after its chunks. -/
theorem ending_chunks (chunks : List Bytes) (e : Ending) :
    ending (chunks.map .chunk ++ e.polls) = e := by
  induction chunks with
  | nil => cases e <;> rfl
  | cons bytes chunks ih => simp [ending, ih]

/-! ## The verdict -/

/-- The reason why a stream fails that ends with `rest` after its last frame. -/
def endingReason (o : Options) (e : Ending) (rest : Bytes) : String :=
  if o.maxEventBytes < rest.length then "upstream SSE event exceeded the safety limit"
  else match e with
    | .error => "upstream response stream was interrupted"
    | .elapsed => "upstream response stream exceeded the idle timeout"
    | .eof =>
      if rest.all isAsciiWhitespace then "upstream stream ended before a terminal response event"
      else "upstream stream ended with an incomplete SSE event"

/-- What the stream yields for the frames of an upstream body and for what follows them, after
events that reported `id`. -/
def verdict (o : Options) (e : Ending) : Identity → List Bytes → Bytes → List Bytes
  | id, [], rest => [id.protocolFailure o (endingReason o e rest)]
  | id, frame :: frames, rest =>
    if o.maxEventBytes < frame.length then
      [id.protocolFailure o "upstream SSE event exceeded the safety limit"]
    else match inspectFrame o.serde frame with
      | .ok (.keep event) =>
        if isFailureEvent event.kind then [(id.observe event).reportedFailure o event]
        else if isTerminalEvent event.kind then [frame]
        else frame :: verdict o e (id.observe event) frames rest
      | .ok (.drop event) => verdict o e (id.observe event) frames rest
      | .error reason => [id.protocolFailure o reason]

/-- The verdict on the frames that the scanner cuts a sequence of bytes into. -/
def verdictOf (o : Options) (e : Ending) (id : Identity) (bytes : Bytes) : List Bytes :=
  verdict o e id (scanner.frames bytes) (scanner.rest bytes)

/-- When more is buffered than the limit allows and no frame is complete, the stream fails,
whatever comes. -/
theorem verdictOf_oversized (o : Options) (e : Ending) (id : Identity) {b : Bytes}
    (hscan : completeFrameLen b = none) (hlong : o.maxEventBytes < b.length) (t : Bytes) :
    verdictOf o e id (b ++ t) =
      [id.protocolFailure o "upstream SSE event exceeded the safety limit"] := by
  have hle := scanner_stable.length_le_head hscan t
  unfold verdictOf
  cases hf : scanner.frames (b ++ t) with
  | nil =>
    rw [hf, List.headD_nil] at hle
    have hlong' : o.maxEventBytes < (scanner.rest (b ++ t)).length := by omega
    rw [verdict, endingReason.eq_def, if_pos hlong']
  | cons frame frames =>
    rw [hf, List.headD_cons] at hle
    rw [verdict, if_pos (by omega)]

/-- When no frame is complete at the end, the stream fails for the reason of its ending. -/
theorem verdictOf_end (o : Options) (e : Ending) (id : Identity) {b : Bytes}
    (hscan : completeFrameLen b = none) :
    verdictOf o e id b = [id.protocolFailure o (endingReason o e b)] := by
  rw [verdictOf, Framing.Scanner.frames_of_none hscan, Framing.Scanner.rest_of_none hscan, verdict]

/-! ## The state machine computes the verdict -/

namespace State

variable (o : Options)

/-- What a state has yet to yield when its upstream body goes on with the bytes `t` and ends
with `e`. -/
def outcome (e : Ending) (t : Bytes) (st : State) : List Bytes :=
  st.pending ++ if st.finished then [] else verdictOf o e st.toIdentity (st.buffer ++ t)

/-- Before the end, what is still to be sent comes before what the rest brings. -/
theorem outcome_of_not_finished (e : Ending) (t : Bytes) {st : State} (h : st.finished = false) :
    st.outcome o e t = st.pending ++ verdictOf o e st.toIdentity (st.buffer ++ t) := by
  simp [outcome, h]

/-- A failure is the last frame. -/
theorem fail_outcome (reason : String) (e : Ending) (t : Bytes) {st : State}
    (h : st.finished = false) :
    (st.fail o reason).outcome o e t = st.pending ++ [st.protocolFailure o reason] := by
  simp [fail, outcome, h]

/-- A failure finishes the stream. -/
theorem fail_finished (reason : String) (st : State) : (st.fail o reason).finished = true := by
  unfold fail
  split_ifs with h
  · exact h
  · rfl

/-- Disposing of a frame within the limit is one step of the verdict. -/
theorem dispose_outcome (frame : Bytes) (e : Ending) (t : Bytes) {st : State}
    (h : st.finished = false) (hlen : ¬ o.maxEventBytes < frame.length) :
    (st.dispose o frame).outcome o e t = st.pending ++ verdict o e st.toIdentity
      (frame :: scanner.frames (st.buffer ++ t)) (scanner.rest (st.buffer ++ t)) := by
  rw [verdict, if_neg hlen, dispose]
  cases hi : inspectFrame o.serde frame with
  | error reason => exact fail_outcome o reason e t h
  | ok disposition =>
    cases disposition with
    | keep event =>
      dsimp only
      split_ifs with hfail hterm
      · simp [outcome, observe]
      · simp [outcome, observe]
      · simp [outcome, observe, h, verdictOf]
    | drop event => simp [outcome, observe, h, verdictOf]

/-- Draining the buffer does not change what is to be yielded. -/
theorem drainCompleteFrames_outcome (e : Ending) (t : Bytes) (st : State) :
    (st.drainCompleteFrames o).outcome o e t = st.outcome o e t := by
  fun_induction drainCompleteFrames o st with
  | case1 | case2 => rfl
  | case3 st hfin frameLen hlen hmax =>
    have hfin' : st.finished = false := by simpa using hfin
    have hle : frameLen ≤ st.buffer.length := scanner.le_length hlen
    have hlong : o.maxEventBytes < ((st.buffer ++ t).take frameLen).length := by
      rw [List.take_append_of_le_length hle, List.length_take]
      omega
    rw [fail_outcome o _ e t hfin', outcome_of_not_finished o e t hfin', verdictOf,
      Framing.Scanner.frames_of_some (scanner_stable.append hlen t), verdict, if_pos hlong]
  | case4 st hfin frameLen hlen hmax frame ih =>
    have hfin' : st.finished = false := by simpa using hfin
    have hle : frameLen ≤ st.buffer.length := scanner.le_length hlen
    have hframe : ¬ o.maxEventBytes < frame.length := by
      simp only [frame, List.length_take]
      omega
    rw [ih, dispose_outcome o frame e t (by exact hfin') hframe,
      outcome_of_not_finished o e t hfin', verdictOf,
      Framing.Scanner.frames_of_some (scanner_stable.append hlen t),
      Framing.Scanner.rest_of_some (scanner_stable.append hlen t),
      List.take_append_of_le_length hle, List.drop_append_of_le_length hle]

/-- After draining, an unfinished stream has no complete frame in its buffer. -/
theorem drainCompleteFrames_scan {st : State}
    (h : (st.drainCompleteFrames o).finished = false) :
    completeFrameLen (st.drainCompleteFrames o).buffer = none := by
  fun_induction drainCompleteFrames o st with
  | case1 st hfin => rw [h] at hfin; cases hfin
  | case2 st hfin hscan => exact hscan
  | case3 st => rw [fail_finished] at h; cases h
  | case4 st hfin frameLen hlen hmax frame ih => exact ih h

/-- A failure leaves the body to be read. -/
theorem fail_body (reason : String) (st : State) : (st.fail o reason).body = st.body := by
  unfold fail
  split_ifs <;> rfl

/-- A frame that is disposed of leaves the body to be read. -/
theorem dispose_body (frame : Bytes) (st : State) : (st.dispose o frame).body = st.body := by
  unfold dispose
  split
  · dsimp only
    split_ifs <;> rfl
  · rfl
  · exact fail_body o _ st

/-- So do all complete frames. -/
theorem drainCompleteFrames_body (st : State) : (st.drainCompleteFrames o).body = st.body := by
  fun_induction drainCompleteFrames o st with
  | case1 | case2 => rfl
  | case3 st => exact fail_body o _ st
  | case4 st hfin frameLen hlen hmax frame ih => rw [ih, dispose_body]

/-- A state between two polls: it is finished, or its buffer is the start of a frame within the
limit. -/
def Rested (st : State) : Prop :=
  st.finished = false → completeFrameLen st.buffer = none ∧ st.buffer.length ≤ o.maxEventBytes

/-- A finished stream is at rest. -/
theorem rested_of_finished {st : State} (h : st.finished = true) : st.Rested o := by
  intro h'
  rw [h] at h'
  cases h'

/-- A poll leaves the stream between two polls. -/
theorem poll_rested (st : State) : (st.poll o).Rested o := by
  unfold poll
  split
  · dsimp only
    split_ifs with hlong
    · exact rested_of_finished o (fail_finished o _ _)
    · intro hfin
      rw [hfin] at hlong
      exact ⟨drainCompleteFrames_scan o hfin, by simpa using hlong⟩
  · exact rested_of_finished o (fail_finished o _ _)
  · exact rested_of_finished o (fail_finished o _ _)
  · split_ifs
    · exact rested_of_finished o (fail_finished o _ _)
    · exact rested_of_finished o (fail_finished o _ _)

/-- There is nothing to drain between two polls. -/
theorem drainCompleteFrames_of_rested {st : State} (h : st.Rested o) :
    st.drainCompleteFrames o = st := by
  rw [drainCompleteFrames]
  split_ifs with hfin
  · rfl
  · have hscan := (h (by simpa using hfin)).1
    split
    · rfl
    · rename_i hlen
      rw [hscan] at hlen
      cases hlen

/-- A poll does not change what is to be yielded. -/
theorem poll_outcome {st : State} (hfin : st.finished = false) (h : st.Rested o) :
    (st.poll o).outcome o (ending (st.poll o).body) (upstreamBytes (st.poll o).body) =
      st.outcome o (ending st.body) (upstreamBytes st.body) := by
  obtain ⟨hscan, hlen⟩ := h hfin
  have hshort : ¬ o.maxEventBytes < st.buffer.length := by omega
  rw [outcome_of_not_finished o _ _ hfin]
  unfold poll
  split
  · rename_i bytes body hbody
    dsimp only
    have hd := drainCompleteFrames_outcome o (ending body) (upstreamBytes body)
      { st with body, buffer := st.buffer ++ bytes }
    have hfin' : ({ st with body, buffer := st.buffer ++ bytes } : State).finished = false := hfin
    rw [outcome_of_not_finished o _ _ hfin'] at hd
    rw [hbody, upstreamBytes, ending, ← List.append_assoc, ← hd]
    generalize hdrained : drainCompleteFrames o { st with body, buffer := st.buffer ++ bytes } = d
    have hdbody : d.body = body := by rw [← hdrained, drainCompleteFrames_body]
    split_ifs with hlong
    · -- The buffer outgrew the limit without a complete frame.
      simp only [Bool.and_eq_true, Bool.not_eq_true', decide_eq_true_eq] at hlong
      have hdscan : completeFrameLen d.buffer = none := by
        rw [← hdrained]
        exact drainCompleteFrames_scan o (by rw [hdrained]; exact hlong.1)
      rw [fail_outcome o _ _ _ hlong.1, outcome_of_not_finished o _ _ hlong.1,
        verdictOf_oversized o _ _ hdscan hlong.2]
    · rw [hdbody]
  · rename_i body hbody
    rw [fail_outcome o _ _ _ (by exact hfin), hbody]
    simp only [upstreamBytes, ending, List.append_nil]
    rw [verdictOf_end o _ _ hscan, endingReason.eq_def, if_neg hshort]
  · rename_i body hbody
    rw [fail_outcome o _ _ _ (by exact hfin), hbody]
    simp only [upstreamBytes, ending, List.append_nil]
    rw [verdictOf_end o _ _ hscan, endingReason.eq_def, if_neg hshort]
  · rename_i hbody
    rw [hbody]
    simp only [upstreamBytes, ending, List.append_nil]
    rw [verdictOf_end o _ _ hscan, endingReason.eq_def, if_neg hshort]
    dsimp only
    split_ifs
    · rw [fail_outcome o _ _ _ (by exact hfin)]
    · rw [fail_outcome o _ _ _ hfin]

/-- Between two polls, a stream without a queued frame goes on as it does after the next poll. -/
theorem collect_poll {st : State} (hp : st.pending = []) (hfin : st.finished = false)
    (h : st.Rested o) : st.collect o = (st.poll o).collect o := by
  have hnext : st.next o = (st.poll o).next o := by
    rw [next, hp]
    dsimp only
    rw [if_neg (by simp [hfin]), drainCompleteFrames_of_rested o h, hp]
    simp [hfin]
  rw [collect, collect, hnext]

/-- A state between two polls yields what is left of its outcome. -/
theorem collect_eq (st : State) (h : st.Rested o) :
    st.collect o = st.outcome o (ending st.body) (upstreamBytes st.body) := by
  induction hw : st.weight using Nat.strong_induction_on generalizing st with
  | _ w ih =>
    cases hp : st.pending with
    | cons frame pending =>
      have hnext : st.next o = some (frame, { st with pending }) := by rw [next, hp]
      rw [collect, hnext]
      dsimp only
      rw [ih _ (by rw [← hw]; exact next_weight_lt o hnext) _ (by exact h) rfl]
      simp [outcome, hp]
    | nil =>
      cases hfin : st.finished with
      | true =>
        have hnext : st.next o = none := by rw [next, hp]; simp [hfin]
        rw [collect, hnext]
        simp [outcome, hp, hfin]
      | false =>
        rw [collect_poll o hp hfin h, ← poll_outcome o hfin h]
        exact ih _ (by rw [← hw]; exact poll_weight_lt o hfin) _ (poll_rested o st) rfl

end State

/-- The validated stream yields the verdict on the bytes of its upstream body and on how it
ends. -/
theorem validatedFrames_eq (o : Options) (body : List Poll) :
    validatedFrames o body = verdictOf o (ending body) {} (upstreamBytes body) := by
  have hrest : ({ body } : State).Rested o := fun _ => ⟨rfl, Nat.zero_le _⟩
  rw [validatedFrames, State.collect_eq o _ hrest, State.outcome_of_not_finished o _ _ rfl]
  rfl

/-! ## What the stream yields -/

/-- A frame that the stream copies before it goes on: within the limit, and inspected as a known
and well-shaped event that is no metadata, ends no response and reports no failure. -/
def Copied (o : Options) (frame : Bytes) : Prop :=
  frame.length ≤ o.maxEventBytes ∧ ∃ event, inspectFrame o.serde frame = .ok (.keep event) ∧
    isKnownEvent event.kind ∧ validateEventShape event.kind event.value = .ok () ∧
    isMetadataEvent event.kind = false ∧ isTerminalEvent event.kind = false ∧
    isFailureEvent event.kind = false

/-- A frame that the stream leaves out before it goes on: within the limit, and a comment or a
blank frame, or inspected as metadata. -/
def LeftOut (o : Options) (frame : Bytes) : Prop :=
  frame.length ≤ o.maxEventBytes ∧ ∃ event, inspectFrame o.serde frame = .ok (.drop event) ∧
    (IsCommentFrame frame ∨ isMetadataEvent event.kind)

/-- A frame that makes the stream fail: beyond the limit, malformed or unknown, or an event that
reports a failure. -/
def Refused (o : Options) (frame : Bytes) : Prop :=
  o.maxEventBytes < frame.length ∨ (∃ reason, inspectFrame o.serde frame = .error reason) ∨
    ∃ event, inspectFrame o.serde frame = .ok (.keep event) ∧ isFailureEvent event.kind

/-- `Copies o frames copies` says that the stream gets past all of `frames`, of which `copies` are
those that it copies. -/
inductive Copies (o : Options) : List Bytes → List Bytes → Prop where
  | nil : Copies o [] []
  | keep {frame frames copies} : Copied o frame → Copies o frames copies →
      Copies o (frame :: frames) (frame :: copies)
  | drop {frame frames copies} : LeftOut o frame → Copies o frames copies →
      Copies o (frame :: frames) copies

/-- `EndsWith o frames terminal` says that the stream ends with `terminal` when it comes to the
first of `frames`, or when there is none. -/
inductive EndsWith (o : Options) : List Bytes → Bytes → Prop where
  | copied {frame frames event} : frame.length ≤ o.maxEventBytes →
      inspectFrame o.serde frame = .ok (.keep event) →
      event.kind = "response.completed" ∨ event.kind = "response.incomplete" →
      EndsWith o (frame :: frames) frame
  | failed {frames} (responseId model : Option String) (sequenceNumber : ℕ)
      (code message : String) (parameter : Option String) : (∀ frame ∈ frames.head?, Refused o frame) →
      EndsWith o frames (failureFrame o responseId model sequenceNumber code message parameter)

/-- A terminal event that reports no failure is `response.completed` or `response.incomplete`. -/
theorem completed_or_incomplete {kind : String} (hterm : isTerminalEvent kind)
    (hfail : isFailureEvent kind = false) :
    kind = "response.completed" ∨ kind = "response.incomplete" := by
  simp only [isTerminalEvent, isFailureEvent, List.mem_cons, List.not_mem_nil, or_false,
    decide_eq_true_eq, decide_eq_false_iff_not, not_or] at hterm hfail
  obtain ⟨-, hfailed, hcancelled⟩ := hfail
  rcases hterm with h | h | h | h
  · exact .inl h
  · exact absurd h hfailed
  · exact .inr h
  · exact absurd h hcancelled

/-- The verdict copies the frames up to the first that ends the stream. -/
theorem verdict_shape (o : Options) (e : Ending) (id : Identity) (frames : List Bytes)
    (rest : Bytes) :
    ∃ before after copies terminal, frames = before ++ after ∧ Copies o before copies ∧
      EndsWith o after terminal ∧ verdict o e id frames rest = copies ++ [terminal] := by
  induction frames generalizing id with
  | nil =>
    have hnone : ∀ frame ∈ ([] : List Bytes).head?, Refused o frame := by simp
    exact ⟨[], [], [], _, rfl, .nil, .failed _ _ _ _ _ _ hnone, rfl⟩
  | cons frame frames ih =>
    -- A frame that is refused ends the stream at once.
    have refused (h : Refused o frame) : ∀ f ∈ (frame :: frames).head?, Refused o f := by
      intro f hf
      cases hf
      exact h
    by_cases hlen : o.maxEventBytes < frame.length
    · rw [verdict, if_pos hlen]
      exact ⟨[], _, [], _, rfl, .nil, .failed _ _ _ _ _ _ (refused (.inl hlen)), rfl⟩
    have hle : frame.length ≤ o.maxEventBytes := Nat.le_of_not_lt hlen
    rw [verdict, if_neg hlen]
    cases hi : inspectFrame o.serde frame with
    | error reason =>
      exact ⟨[], _, [], _, rfl, .nil,
        .failed _ _ _ _ _ _ (refused (.inr (.inl ⟨reason, hi⟩))), rfl⟩
    | ok disposition =>
      cases disposition with
      | drop event =>
        obtain ⟨before, after, copies, terminal, hframes, hcopies, hends, hverdict⟩ :=
          ih (id.observe event)
        refine ⟨frame :: before, after, copies, terminal, ?_, ?_, hends, hverdict⟩
        · rw [hframes, List.cons_append]
        · exact .drop ⟨hle, event, hi, inspectFrame_drop hi⟩ hcopies
      | keep event =>
        dsimp only
        split_ifs with hfail hterm
        · exact ⟨[], _, [], _, rfl, .nil,
            .failed _ _ _ _ _ _ (refused (.inr (.inr ⟨event, hi, hfail⟩))), rfl⟩
        · have hkind := completed_or_incomplete hterm (by simpa using hfail)
          exact ⟨[], _, [], _, rfl, .nil, .copied hle hi hkind, rfl⟩
        · obtain ⟨before, after, copies, terminal, hframes, hcopies, hends, hverdict⟩ :=
            ih (id.observe event)
          obtain ⟨hknown, hmeta, hshape⟩ := inspectFrame_keep hi
          have hcopied : Copied o frame :=
            ⟨hle, event, hi, hknown, hshape, hmeta, by simpa using hterm, by simpa using hfail⟩
          refine ⟨frame :: before, after, frame :: copies, terminal, ?_, .keep hcopied hcopies,
            hends, ?_⟩
          · rw [hframes, List.cons_append]
          · rw [hverdict, List.cons_append]

/-- The validated stream is a sequence of upstream frames, copied in upstream order, and then one
terminal frame: of the upstream frames before the one that ends the stream, only comments and
metadata are left out, and the terminal frame is either the upstream frame that ends it or a
failure frame of the gateway. -/
theorem validatedStream_shape (o : Options) (body : List Poll) :
    ∃ before after copies terminal, scanner.frames (upstreamBytes body) = before ++ after ∧
      Copies o before copies ∧ EndsWith o after terminal ∧
      validatedStream o body = copies.flatten ++ terminal := by
  obtain ⟨before, after, copies, terminal, hframes, hcopies, hends, hverdict⟩ :=
    verdict_shape o (ending body) {} (scanner.frames (upstreamBytes body))
      (scanner.rest (upstreamBytes body))
  refine ⟨before, after, copies, terminal, hframes, hcopies, hends, ?_⟩
  rw [validatedStream, validatedFrames_eq, verdictOf, hverdict, List.flatten_append,
    List.flatten_singleton]

/-- The validated stream does not depend on how the bytes of the upstream body are cut into
chunks. -/
theorem validatedStream_chunks (o : Options) (e : Ending) {chunks chunks' : List Bytes}
    (h : chunks.flatten = chunks'.flatten) :
    validatedStream o (chunks.map .chunk ++ e.polls) =
      validatedStream o (chunks'.map .chunk ++ e.polls) := by
  rw [validatedStream, validatedStream, validatedFrames_eq, validatedFrames_eq,
    upstreamBytes_chunks, upstreamBytes_chunks, ending_chunks, ending_chunks, h]

/-- The chunks cut the blank line inside a CRLF pair, and not at all. -/
theorem validatedStream_chunks_crlf :
    validatedStream ⟨Compact.serde, MAX_EVENT_BYTES, none, 0⟩
        ([toUtf8 ": ping\r", toUtf8 "\n\r", toUtf8 "\n: pong"].map .chunk ++ Ending.eof.polls) =
      validatedStream ⟨Compact.serde, MAX_EVENT_BYTES, none, 0⟩
        ([toUtf8 ": ping\r\n\r\n: pong"].map .chunk ++ Ending.eof.polls) :=
  validatedStream_chunks _ _ (by decide)

end MuseCodex.Gateway
