import MuseCodex.Zai.Account
import MuseCodex.Json.Compact

/-!
# The stream as a function of what upstream said

The bytes of the upstream body, cut into frames, are a list of signals: chunks of the completion,
the `[DONE]` sentinel, and faults. The first decisive one ends the stream, so a body is
transcribed as the chunks before it and that signal (`Transcript`), where the end of the body is
itself a fault. `responsesEvents_eq` proves that the stream yields exactly the events of replaying
the transcript on the initial state, as long as the indices of the tool calls in it are positions
that a table can have (`Transcript.Addressable`). Else the stream is stuck at some poll, and it
yields the events of a start of the transcript (`responsesEvents_stuck`).

The machine takes events from the queue while it runs, and its methods only ever add to it. So a
run from a queue that is already filled differs only in the events before its own
(`handleChunk_after` and the lemmas before it), and the events of the stream are those that stand
in the queue of a run that takes none.
-/

namespace MuseCodex.Zai

open Text Json

/-! ## The queue -/

namespace Synthesis

variable (serde : Serde) (q : List Event)

/-- The state with further events before those in the queue. -/
def after (st : Synthesis) : Synthesis := { st with pending := q ++ st.pending }

/-- An event goes to the end of the queue, whatever is queued before it. -/
theorem emit_after (kind : String) (body : List (String × Value)) (st : Synthesis) :
    (st.after q).emit kind body = (st.emit kind body).after q := by
  simp [emit, after]

/-- What is queued has no part in the change of a call. -/
theorem setCall_after (index : ℕ) (entry : PendingCall) (st : Synthesis) :
    (st.after q).setCall index entry = (st.setCall index entry).after q := rfl

/-- What is queued has no part in the change of an open item. -/
theorem setSlot_after (c : Channel) (item : Option TextItem) (st : Synthesis) :
    (st.after q).setSlot c item = (st.setSlot c item).after q := by
  cases c <;> rfl

/-- The open items are the same behind a queue. -/
@[simp] theorem slot_after (c : Channel) (st : Synthesis) : (st.after q).slot c = st.slot c := by
  cases c <;> rfl

/-- The calls are the same behind a queue. -/
@[simp] theorem callAt_after (index : ℕ) (st : Synthesis) :
    (st.after q).callAt index = st.callAt index := rfl

/-- A failure is reported behind what is queued. -/
theorem fail_after (message : String) (st : Synthesis) :
    (st.after q).fail message = (st.fail message).after q := by
  by_cases h : st.terminated <;> simp [fail, after, emit, h]

/-- An item is opened behind what is queued. -/
theorem openItem_after (c : Channel) (st : Synthesis) :
    (st.after q).openItem c = (st.openItem c).after q := by
  unfold openItem
  rw [slot_after]
  cases st.slot c with
  | some item => rfl
  | none =>
    dsimp only
    rw [← setSlot_after, ← emit_after, ← emit_after]
    rfl

/-- An item is extended behind what is queued. -/
theorem extendItem_after (c : Channel) (delta : String) (st : Synthesis) :
    (st.after q).extendItem c delta = (st.extendItem c delta).after q := by
  unfold extendItem
  rw [slot_after]
  cases st.slot c with
  | none => rfl
  | some item =>
    dsimp only
    rw [← emit_after, ← setSlot_after]

/-- An item is closed behind what is queued. -/
theorem closeItem_after (c : Channel) (st : Synthesis) :
    (st.after q).closeItem c = (st.closeItem c).after q := by
  unfold closeItem
  rw [slot_after]
  cases st.slot c with
  | none => rfl
  | some item =>
    dsimp only
    rw [setSlot_after, emit_after, emit_after, emit_after]
    rfl

/-- The table of calls grows alike behind a queue. -/
theorem growCalls_after (index : ℕ) (st : Synthesis) :
    (st.after q).growCalls index = (st.growCalls index).after q := rfl

/-- A call is given its place in the output alike behind a queue. -/
theorem reserveCall_after (index : ℕ) (st : Synthesis) :
    (st.after q).reserveCall index = (st.reserveCall index).after q := by
  unfold reserveCall
  rw [callAt_after, apply_ite (after q)]
  rfl

/-- A call takes its id alike behind a queue. -/
theorem identifyCall_after (index : ℕ) (call : Value) (st : Synthesis) :
    (st.after q).identifyCall index call = (st.identifyCall index call).after q := by
  unfold identifyCall
  rw [callAt_after]
  cases nonEmptyStr (call.get "id") with
  | none => rfl
  | some callId =>
    dsimp only
    rw [apply_ite (after q), setCall_after]

/-- A call takes its name alike behind a queue. -/
theorem nameCall_after (index : ℕ) (call : Value) (st : Synthesis) :
    (st.after q).nameCall index call = (st.nameCall index call).after q := by
  unfold nameCall
  rw [callAt_after]
  cases functionStr "name" call with
  | none => rfl
  | some name =>
    dsimp only
    rw [apply_ite (after q), setCall_after]
    rfl

/-- A call is announced behind what is queued. -/
theorem announceCall_after (index : ℕ) (st : Synthesis) :
    (st.after q).announceCall index = (st.announceCall index).after q := by
  unfold announceCall
  rw [callAt_after]
  dsimp only
  rw [apply_ite (after q), setCall_after, emit_after]

/-- The arguments of a call are sent behind what is queued. -/
theorem pushArguments_after (index : ℕ) (call : Value) (st : Synthesis) :
    (st.after q).pushArguments index call = (st.pushArguments index call).after q := by
  unfold pushArguments
  rw [callAt_after]
  cases functionStr "arguments" call with
  | none => rfl
  | some fragment =>
    dsimp only
    rw [apply_ite (after q), setCall_after, emit_after]

/-- A fragment of a call is taken in alike behind a queue. -/
theorem pushToolCall_after (call : Value) (st : Synthesis) :
    (st.after q).pushToolCall call = (st.pushToolCall call).after q := by
  simp only [pushToolCall, closeReasoning, closeMessage, closeItem_after, growCalls_after,
    reserveCall_after, identifyCall_after, nameCall_after, announceCall_after,
    pushArguments_after]

/-- A call is closed behind what is queued. -/
theorem closeToolCall_after (call : PendingCall) (st : Synthesis) :
    closeToolCall serde (st.after q) call = (closeToolCall serde st call).after q := by
  cases h : call.freeform <;> simp [closeToolCall, after, emit, h]

/-- The calls are closed behind what is queued. -/
theorem closeToolCalls_after (st : Synthesis) :
    (st.after q).closeToolCalls serde = (st.closeToolCalls serde).after q := by
  have hfold (calls : List PendingCall) (st : Synthesis) :
      calls.foldl (closeToolCall serde) (st.after q) =
        (calls.foldl (closeToolCall serde) st).after q :=
    List.foldl_hom (after q) fun st call => closeToolCall_after serde q call st
  unfold closeToolCalls
  rw [← hfold]
  rfl

/-- The terminal event goes behind what is queued. -/
theorem finish_after (finishReason : Option String) (st : Synthesis) :
    (st.after q).finish finishReason = (st.finish finishReason).after q := by
  unfold finish
  dsimp only
  rw [emit_after]
  rfl

/-- A response is completed behind what is queued. -/
theorem complete_after (finishReason : Option String) (st : Synthesis) :
    (st.after q).complete serde finishReason = (st.complete serde finishReason).after q := by
  unfold complete
  rw [closeReasoning, closeMessage, closeItem_after, closeItem_after, closeToolCalls_after,
    finish_after, fail_after, apply_ite (after q), apply_ite (after q)]
  rfl

/-- A response starts behind what is queued. -/
theorem start_after (chunk : Value) (st : Synthesis) :
    (st.after q).start chunk = (st.start chunk).after q := by
  unfold start
  rw [apply_ite (after q), ← emit_after, ← emit_after]
  rfl

/-- A delta is taken in alike behind a queue. -/
theorem handleDelta_after (delta : Map Value) (st : Synthesis) :
    (st.after q).handleDelta delta = (st.handleDelta delta).after q := by
  have hreasoning (delta : String) (st : Synthesis) :
      (st.after q).pushReasoning delta = (st.pushReasoning delta).after q := by
    simp only [pushReasoning, closeMessage, closeItem_after, openItem_after, extendItem_after]
  have htext (delta : String) (st : Synthesis) :
      (st.after q).pushText delta = (st.pushText delta).after q := by
    simp only [pushText, closeReasoning, closeItem_after, openItem_after, extendItem_after]
  have hfold (calls : List Value) (st : Synthesis) :
      calls.foldl (fun st call => st.pushToolCall call) (st.after q) =
        (calls.foldl (fun st call => st.pushToolCall call) st).after q :=
    List.foldl_hom (after q) fun st call => pushToolCall_after q call st
  unfold handleDelta
  rw [← hfold]
  cases nonEmptyStr (delta.get "reasoning_content") <;> cases nonEmptyStr (delta.get "content") <;>
    simp only [hreasoning, htext]

/-- A chunk that is not decisive is taken in alike behind a queue. -/
theorem progress_after (chunk : Value) (st : Synthesis) :
    (st.after q).progress chunk = (st.progress chunk).after q := by
  have husage (st : Synthesis) : (st.after q).noteUsage chunk = (st.noteUsage chunk).after q := by
    unfold noteUsage
    cases (chunk.get "usage").filter Value.isObject <;> rfl
  unfold progress
  rw [start_after, husage]
  cases (firstChoice chunk).bind fun choice => (choice.get "delta").bind Value.asObject with
  | none => rfl
  | some delta => exact handleDelta_after q delta _

/-- So are any number of chunks. -/
theorem foldl_progress_after (chunks : List Value) (st : Synthesis) :
    chunks.foldl (fun st chunk => st.progress chunk) (st.after q) =
      (chunks.foldl (fun st chunk => st.progress chunk) st).after q :=
  List.foldl_hom (after q) fun st chunk => progress_after q chunk st

/-- A chunk is handled alike behind a queue. -/
theorem handleChunk_after (chunk : Value) (st : Synthesis) :
    (st.after q).handleChunk serde chunk = (st.handleChunk serde chunk).after q := by
  cases herror : chunkError chunk with
  | some error =>
    unfold handleChunk
    rw [show (chunk.get "error").filter (fun error => !error.isNull) = some error from herror]
    exact fail_after q _ st
  | none =>
    rw [handleChunk_eq serde herror, handleChunk_eq serde herror, progress_after]
    cases finishReason chunk with
    | none => rfl
    | some reason => exact complete_after serde q _ _

end Synthesis

/-! ## Signals -/

/-- What a frame of the upstream body says: a chunk of the completion, the end of the completion,
or a fault, with the text of its error. -/
inductive Signal where
  | chunk (value : Value)
  | done
  | fault (message : String)
deriving DecidableEq

/-- The signal of a frame, unless it carries no data. -/
def frameSignal (serde : Serde) (frame : Bytes) : Option Signal :=
  match fromUtf8 frame with
  | none => some (.fault "upstream response was invalid: the Z.ai stream was not UTF-8")
  | some text =>
    let data := frameData text
    if data = "" then none
    else if trim data = "[DONE]" then some .done
    else match serde.fromStr data with
      | .error error => some (.fault
          ("upstream response was invalid: the Z.ai stream sent invalid JSON: " ++ error))
      | .ok chunk => some (.chunk chunk)

/-- The signals of an upstream body after the bytes that are buffered. -/
def signals (serde : Serde) : Bytes → List Poll → List Signal
  | _, [] => []
  | _, .error message :: _ => [.fault ("upstream stream failed: " ++ message)]
  | buffer, .chunk bytes :: upstream =>
    if MAX_BUFFERED_BYTES < buffer.length + bytes.length then
      [.fault "the Z.ai stream exceeded the buffered event limit"]
    else
      (scanner.frames (buffer ++ bytes)).filterMap (frameSignal serde) ++
        signals serde (scanner.rest (buffer ++ bytes)) upstream

/-- Whether a chunk reports an error or the end of the completion. -/
def isDecisive (chunk : Value) : Bool :=
  (Synthesis.chunkError chunk).isSome || (Synthesis.finishReason chunk).isSome

/-- Whether a signal is decisive: it ends the stream. -/
def Signal.isDecisive : Signal → Bool
  | .chunk value => Zai.isDecisive value
  | .done | .fault _ => true

/-- What upstream said: the chunks before the first decisive signal, and that signal. -/
structure Transcript where
  chunks : List Value
  last : Signal
  chunks_not_decisive : ∀ chunk ∈ chunks, isDecisive chunk = false
  last_decisive : last.isDecisive = true

/-- All chunks of a transcript. -/
def Transcript.spoken (t : Transcript) : List Value :=
  match t.last with
  | .chunk chunk => t.chunks ++ [chunk]
  | _ => t.chunks

/-- The chunks that are taken in: a chunk that reports an error is not looked at further. -/
def Transcript.taken (t : Transcript) : List Value :=
  t.spoken.filter fun chunk => (Synthesis.chunkError chunk).isNone

/-- The tool calls that are taken in have indices that are positions in a table. Only the largest
index of 64 bits is none, since the table would have `2^64` entries. -/
def Transcript.Addressable (t : Transcript) : Prop :=
  ∀ call ∈ t.taken.flatMap chunkFragments, Synthesis.callIndex call < 2 ^ 64 - 1

/-- A bound on the indices can be checked fragment by fragment. -/
instance (t : Transcript) : Decidable t.Addressable :=
  List.decidableBAll (fun call => Synthesis.callIndex call < 2 ^ 64 - 1)
    (t.taken.flatMap chunkFragments)

/-- The transcript of a list of signals. That the body ends is a fault. -/
def transcribe : List Signal → Transcript
  | [] => ⟨[], .fault "the Z.ai stream ended before a terminal event", by simp, rfl⟩
  | .chunk chunk :: signals =>
    if h : isDecisive chunk then ⟨[], .chunk chunk, by simp, h⟩
    else
      let t := transcribe signals
      ⟨chunk :: t.chunks, t.last, by simpa [h] using t.chunks_not_decisive, t.last_decisive⟩
  | .done :: _ => ⟨[], .done, by simp, rfl⟩
  | .fault message :: _ => ⟨[], .fault message, by simp, rfl⟩

/-- Chunks that are not decisive stand at the start of the transcript. -/
theorem transcribe_append {chunks : List Value}
    (hchunks : ∀ chunk ∈ chunks, isDecisive chunk = false) (signals : List Signal) :
    (transcribe (chunks.map .chunk ++ signals)).chunks = chunks ++ (transcribe signals).chunks := by
  induction chunks with
  | nil => rfl
  | cons chunk chunks ih =>
    obtain ⟨hchunk, hchunks⟩ := List.forall_mem_cons.mp hchunks
    rw [List.map_cons, List.cons_append, transcribe, dif_neg (by simp [hchunk]),
      List.cons_append, ← ih hchunks]

/-- The transcript of an upstream body. -/
def transcript (serde : Serde) (upstream : List Poll) : Transcript :=
  transcribe (signals serde [] upstream)

/-- The numbers of a chunk are those of its text, so they fit 64 bits. -/
theorem frameSignal_inRange {serde : Serde} (hserde : serde.Lawful) {frame : Bytes} {chunk : Value}
    (h : frameSignal serde frame = some (.chunk chunk)) : InRange chunk := by
  unfold frameSignal at h
  split at h
  · cases h
  · dsimp only at h
    split_ifs at h
    · cases h
    split at h
    · cases h
    · rename_i value hparse
      cases h
      exact hserde.fromStr_inRange _ chunk hparse

/-- So do those of every chunk of a body. -/
theorem signals_inRange {serde : Serde} (hserde : serde.Lawful) {buffer : Bytes}
    {upstream : List Poll} {chunk : Value} (h : .chunk chunk ∈ signals serde buffer upstream) :
    InRange chunk := by
  induction upstream generalizing buffer with
  | nil => cases h
  | cons polled upstream ih =>
    cases polled with
    | error message =>
      rw [signals, List.mem_singleton] at h
      cases h
    | chunk bytes =>
      rw [signals] at h
      split_ifs at h
      · rw [List.mem_singleton] at h
        cases h
      · rcases List.mem_append.mp h with h | h
        · obtain ⟨frame, -, hframe⟩ := List.mem_filterMap.mp h
          exact frameSignal_inRange hserde hframe
        · exact ih h

/-- The chunks of a transcript are among the signals. -/
theorem mem_signals_of_spoken {signals : List Signal} {chunk : Value}
    (h : chunk ∈ (transcribe signals).spoken) : .chunk chunk ∈ signals := by
  induction signals with
  | nil => cases h
  | cons signal signals ih =>
    cases signal with
    | done => cases h
    | fault message => cases h
    | chunk first =>
      rw [transcribe] at h
      split_ifs at h
      · rw [Transcript.spoken] at h
        dsimp only at h
        rw [List.nil_append, List.mem_singleton] at h
        rw [h]
        exact List.mem_cons_self
      · have hspoken : chunk ∈ first :: (transcribe signals).spoken := by
          unfold Transcript.spoken at h ⊢
          dsimp only at h
          cases hlast : (transcribe signals).last <;> rw [hlast] at h <;> exact h
        rcases List.mem_cons.mp hspoken with rfl | hmem
        · exact List.mem_cons_self
        · exact List.mem_cons_of_mem _ (ih hmem)

/-- The numbers of the chunks fit 64 bits. -/
theorem transcript_inRange {serde : Serde} (hserde : serde.Lawful) (upstream : List Poll) :
    ∀ chunk ∈ (transcript serde upstream).spoken, InRange chunk :=
  fun _ hchunk => signals_inRange hserde (mem_signals_of_spoken hchunk)

namespace Synthesis

variable (serde : Serde)

/-- Takes in one signal. -/
def accept (signal : Signal) (st : Synthesis) : Synthesis :=
  match signal with
  | .chunk chunk => st.handleChunk serde chunk
  | .done => st.complete serde none
  | .fault message => st.fail message

/-- Takes in signals until one of them ends the stream. -/
def hear : List Signal → Synthesis → Synthesis
  | [], st => st
  | signal :: signals, st => if st.terminated then st else hear signals (st.accept serde signal)

/-- Takes in signals, and then the end of the body. -/
def conclude (signals : List Signal) (st : Synthesis) : Synthesis :=
  if (st.hear serde signals).terminated then st.hear serde signals
  else (st.hear serde signals).fail "the Z.ai stream ended before a terminal event"

/-- Takes in the chunks of a transcript, and then its decisive signal. -/
def replay (t : Transcript) (st : Synthesis) : Synthesis :=
  (t.chunks.foldl (fun st chunk => st.handleChunk serde chunk) st).accept serde t.last

/-- After a terminal event nothing is heard any more. -/
theorem hear_of_terminated (signals : List Signal) {st : Synthesis} (h : st.terminated = true) :
    st.hear serde signals = st := by
  cases signals with
  | nil => rfl
  | cons signal signals => rw [hear, if_pos h]

/-- Before it, the next signal is taken in. -/
theorem hear_cons (signal : Signal) (signals : List Signal) {st : Synthesis}
    (h : st.terminated = false) :
    st.hear serde (signal :: signals) = (st.accept serde signal).hear serde signals := by
  rw [hear, if_neg (by simp [h])]

/-- Signals can be heard in two parts. -/
theorem hear_append (signals signals' : List Signal) (st : Synthesis) :
    st.hear serde (signals ++ signals') = (st.hear serde signals).hear serde signals' := by
  induction signals generalizing st with
  | nil => rfl
  | cons signal signals ih =>
    rw [List.cons_append, hear, hear]
    split_ifs with h
    · rw [hear_of_terminated serde signals' h]
    · exact ih _

/-- A signal is taken in alike behind a queue. -/
theorem accept_after (q : List Event) (signal : Signal) (st : Synthesis) :
    (st.after q).accept serde signal = (st.accept serde signal).after q := by
  cases signal with
  | chunk chunk => exact handleChunk_after serde q chunk st
  | done => exact complete_after serde q none st
  | fault message => exact fail_after q message st

/-- Signals are heard alike behind a queue. -/
theorem hear_after (q : List Event) (signals : List Signal) (st : Synthesis) :
    (st.after q).hear serde signals = (st.hear serde signals).after q := by
  induction signals generalizing st with
  | nil => rfl
  | cons signal signals ih =>
    rw [hear, hear, apply_ite (after q), accept_after, ih]
    rfl

/-- The end of a stream is taken in alike behind a queue. -/
theorem conclude_after (q : List Event) (signals : List Signal) (st : Synthesis) :
    (st.after q).conclude serde signals = (st.conclude serde signals).after q := by
  unfold conclude
  rw [hear_after, fail_after, apply_ite (after q)]
  rfl

/-! ### What ends a stream -/

/-- A stream that has ended. -/
def Ended (st : Synthesis) : Prop := st.terminated = true ∧ st.finished = true

/-- A stream that goes on. -/
def GoesOn (st : Synthesis) : Prop := st.terminated = false ∧ st.finished = false

/-- A failure ends a response. -/
theorem fail_ended (message : String) {st : Synthesis} (h : st.GoesOn) :
    (st.fail message).Ended := by
  simp [fail, h.1, Ended]

/-- A completion ends a response. -/
theorem complete_ended (finishReason : Option String) {st : Synthesis} (h : st.GoesOn) :
    (st.complete serde finishReason).Ended := by
  simp only [complete, h.1, Bool.false_eq_true, if_false]
  split_ifs
  · exact fail_ended _ h
  · exact ⟨rfl, rfl⟩

/-- A response that starts goes on. -/
theorem start_goesOn (chunk : Value) {st : Synthesis} (h : st.GoesOn) :
    (st.start chunk).GoesOn := by
  unfold start
  split_ifs
  · exact h
  · exact h

/-- A response is started once. -/
theorem start_started (chunk : Value) (st : Synthesis) : (st.start chunk).started = true := by
  unfold start
  split_ifs with h
  · exact h
  · rfl

/-- A move does not end a response. -/
theorem Moves.goesOn {st st' : Synthesis} (h : Moves serde st st') (hst : st.GoesOn) :
    st'.GoesOn := by
  have hturn := h.turn_eq
  exact ⟨(congrArg Turn.terminated hturn).trans hst.1, (congrArg Turn.finished hturn).trans hst.2⟩

/-- A decisive chunk ends the stream. -/
theorem handleChunk_ended {chunk : Value} (hchunk : isDecisive chunk = true) {st : Synthesis}
    (h : st.GoesOn) : (st.handleChunk serde chunk).Ended := by
  cases herror : chunkError chunk with
  | some error =>
    rw [handleChunk, show (chunk.get "error").filter (fun error => !error.isNull) = some error
      from herror]
    exact fail_ended _ h
  | none =>
    simp only [isDecisive, herror, Option.isSome_none, Bool.false_or] at hchunk
    obtain ⟨reason, hreason⟩ := Option.isSome_iff_exists.mp hchunk
    rw [handleChunk_eq serde herror, hreason]
    exact complete_ended serde _ ((progress_moves serde chunk st).goesOn serde
      (start_goesOn chunk h))

/-- Any other chunk makes progress only. -/
theorem handleChunk_progress {chunk : Value} (hchunk : isDecisive chunk = false)
    (st : Synthesis) : st.handleChunk serde chunk = st.progress chunk := by
  simp only [isDecisive, Bool.or_eq_false_iff, Option.isSome_eq_false_iff,
    Option.isNone_iff_eq_none] at hchunk
  rw [handleChunk_eq serde hchunk.1, hchunk.2]

/-- Chunks that are not decisive make progress only. -/
theorem foldl_handleChunk {chunks : List Value}
    (hchunks : ∀ chunk ∈ chunks, isDecisive chunk = false) (st₀ : Synthesis) :
    chunks.foldl (fun st chunk => st.handleChunk serde chunk) st₀ =
      chunks.foldl (fun st chunk => st.progress chunk) st₀ :=
  List.foldl_ext _ _ st₀ fun st chunk hchunk => handleChunk_progress serde (hchunks chunk hchunk) st

/-- A chunk that is not decisive does not end a response. -/
theorem handleChunk_goesOn {chunk : Value} (hchunk : isDecisive chunk = false) {st : Synthesis}
    (h : st.GoesOn) : (st.handleChunk serde chunk).GoesOn := by
  rw [handleChunk_progress serde hchunk]
  exact (progress_moves serde chunk st).goesOn serde (start_goesOn chunk h)

/-- A signal ends a response, or it goes on. -/
theorem accept_ended_or_goesOn (signal : Signal) {st : Synthesis} (h : st.GoesOn) :
    (st.accept serde signal).Ended ∨ (st.accept serde signal).GoesOn := by
  cases signal with
  | chunk chunk =>
    cases hchunk : isDecisive chunk with
    | true => exact .inl (handleChunk_ended serde hchunk h)
    | false => exact .inr (handleChunk_goesOn serde hchunk h)
  | done => exact .inl (complete_ended serde none h)
  | fault message => exact .inl (fail_ended message h)

/-- Any number of signals end a response, or it goes on. -/
theorem hear_ended_or_goesOn (signals : List Signal) {st : Synthesis} (h : st.GoesOn) :
    (st.hear serde signals).Ended ∨ (st.hear serde signals).GoesOn := by
  induction signals generalizing st with
  | nil => exact .inr h
  | cons signal signals ih =>
    rw [hear_cons serde signal signals h.1]
    rcases accept_ended_or_goesOn serde signal h with hend | hon
    · rw [hear_of_terminated serde signals hend.1]
      exact .inl hend
    · exact ih hon

/-- A stream that has ended takes in nothing. -/
theorem conclude_of_ended (signals : List Signal) {st : Synthesis} (h : st.Ended) :
    st.conclude serde signals = st := by
  rw [conclude, hear_of_terminated serde signals h.1, if_pos h.1]

/-- What has been taken in goes before what is taken in next. -/
theorem conclude_append (signals signals' : List Signal) (st : Synthesis) :
    st.conclude serde (signals ++ signals') = (st.hear serde signals).conclude serde signals' := by
  unfold conclude
  rw [hear_append]

/-- Taking in all signals is replaying their transcript. -/
theorem conclude_eq_replay (signals : List Signal) {st : Synthesis} (h : st.GoesOn) :
    st.conclude serde signals = st.replay serde (transcribe signals) := by
  induction signals generalizing st with
  | nil =>
    rw [conclude, hear, if_neg (by simp [h.1])]
    rfl
  | cons signal signals ih =>
    -- The signals after one that ends the stream are not taken in.
    have hend (hend : (st.accept serde signal).Ended) :
        st.conclude serde (signal :: signals) = st.accept serde signal := by
      rw [conclude, hear_cons serde signal signals h.1,
        hear_of_terminated serde signals hend.1, if_pos hend.1]
    cases signal with
    | chunk chunk =>
      rw [transcribe]
      split_ifs with hchunk
      · rw [hend (handleChunk_ended serde hchunk h)]
        rfl
      · have hon := handleChunk_goesOn serde (by simpa using hchunk) h
        have := ih hon
        rw [conclude, hear_cons serde _ signals h.1]
        exact this
    | done =>
      rw [hend (complete_ended serde none h)]
      rfl
    | fault message =>
      rw [hend (fail_ended message h)]
      rfl

/-- Signals are taken in as their transcript says, and the fault at its end stands for the end of
the body, which has not been reached as long as the stream goes on. -/
theorem hear_cases (signals : List Signal) {st : Synthesis} (h : st.GoesOn) :
    ((st.hear serde signals).Ended ∧ st.hear serde signals = st.replay serde (transcribe signals)) ∨
      ((st.hear serde signals).GoesOn ∧
        (transcribe signals).last = .fault "the Z.ai stream ended before a terminal event" ∧
        st.hear serde signals =
          (transcribe signals).chunks.foldl (fun st chunk => st.progress chunk) st ∧
        signals = (transcribe signals).chunks.map .chunk) := by
  rcases hear_ended_or_goesOn serde signals h with hended | hon
  · left
    have hconclude := conclude_eq_replay serde signals h
    rw [conclude, if_pos hended.1] at hconclude
    exact ⟨hended, hconclude⟩
  · right
    refine ⟨hon, ?_⟩
    induction signals generalizing st with
    | nil => exact ⟨rfl, rfl, rfl⟩
    | cons signal signals ih =>
      rw [hear_cons serde signal signals h.1] at hon ⊢
      -- A signal that ends the stream would be the last one.
      have hnot : ¬(st.accept serde signal).Ended := by
        intro hended
        rw [hear_of_terminated serde signals hended.1] at hon
        exact Bool.false_ne_true (hon.1.symm.trans hended.1)
      cases signal with
      | done => exact absurd (complete_ended serde none h) hnot
      | fault message => exact absurd (fail_ended message h) hnot
      | chunk chunk =>
        cases hchunk : isDecisive chunk with
        | true => exact absurd (handleChunk_ended serde hchunk h) hnot
        | false =>
          have hprogress := handleChunk_progress serde hchunk st
          have hstep := handleChunk_goesOn serde hchunk h
          rw [accept, hprogress] at hon
          rw [hprogress] at hstep
          obtain ⟨hlast, heq, hsignals⟩ := ih hstep hon
          rw [transcribe, dif_neg (by simp [hchunk]), accept, hprogress]
          exact ⟨hlast, heq, congrArg (.chunk chunk :: ·) hsignals⟩

/-- Replaying a transcript leaves the account that the chunks lead to which are taken in. -/
theorem account_replay (t : Transcript) (st : Synthesis) :
    (st.replay serde t).account =
      (t.taken.foldl (fun st chunk => st.progress chunk) st).account := by
  -- Only the last chunk may report an error.
  have hkept : t.chunks.filter (fun chunk => (chunkError chunk).isNone) = t.chunks := by
    refine List.filter_eq_self.mpr fun chunk hchunk => ?_
    have hnot := t.chunks_not_decisive chunk hchunk
    rw [isDecisive, Bool.or_eq_false_iff] at hnot
    simpa using hnot.1
  unfold replay Transcript.taken Transcript.spoken
  rw [foldl_handleChunk serde t.chunks_not_decisive]
  cases hlast : t.last with
  | fault message =>
    dsimp only [accept]
    rw [account_fail, hkept]
  | done =>
    dsimp only [accept]
    rw [account_complete, hkept]
  | chunk chunk =>
    dsimp only [accept]
    rw [List.filter_append, hkept, List.filter_singleton]
    cases herror : chunkError chunk with
    | some error =>
      rw [handleChunk, show (chunk.get "error").filter (fun error => !error.isNull) =
        some error from herror]
      dsimp only
      rw [account_fail]
      simp only [Option.isNone_some, cond_false, List.append_nil]
    | none =>
      simp only [Option.isNone_none, cond_true]
      rw [handleChunk_eq serde herror, List.foldl_append]
      cases finishReason chunk with
      | none => rfl
      | some reason => exact account_complete serde (some reason) _

/-- Taking in signals leaves the account that the chunks lead to which are taken in. -/
theorem account_hear (signals : List Signal) {st : Synthesis} (h : st.GoesOn) :
    (st.hear serde signals).account = ((transcribe signals).taken.foldl
      (fun st chunk => st.progress chunk) st).account := by
  rw [← account_replay serde, ← conclude_eq_replay serde signals h, conclude]
  split_ifs
  · rfl
  · exact (account_fail _ _).symm

/-- A table that was asked for no more than a state says, and than the fragments say that are taken
in. -/
theorem peak_conclude_le (signals : List Signal) {st : Synthesis} (h : st.GoesOn) (n : ℕ) :
    (st.conclude serde signals).peak ≤ n ↔ st.peak ≤ n ∧
      ∀ call ∈ (transcribe signals).taken.flatMap chunkFragments, callIndex call < n := by
  rw [conclude_eq_replay serde signals h, ← peak_foldl_progress_le,
    show (replay serde (transcribe signals) st).peak = _ from
      congrArg Account.peak (account_replay serde (transcribe signals) st)]
  rfl

/-- A state is stuck when the table was asked for too many entries. -/
theorem isStuck_eq_false {st : Synthesis} : st.isStuck = false ↔ st.peak ≤ 2 ^ 64 - 1 := by
  rw [isStuck, decide_eq_false_iff_not]
  omega

/-- A state that is stuck stays so. -/
theorem isStuck_of_conclude {signals : List Signal} {st : Synthesis} (h : st.Ended ∨ st.GoesOn)
    (hstuck : (st.conclude serde signals).isStuck = false) : st.isStuck = false := by
  rcases h with hended | hon
  · rwa [conclude_of_ended serde signals hended] at hstuck
  · rw [isStuck_eq_false] at hstuck ⊢
    exact ((peak_conclude_le serde signals hon _).mp hstuck).1

/-- Whether a state gets stuck does not depend on its queue. -/
theorem isStuck_conclude_queue (signals : List Signal) (st : Synthesis) :
    (({ st with pending := [] } : Synthesis).conclude serde signals).isStuck =
      (st.conclude serde signals).isStuck := by
  have hst : st = ({ st with pending := [] } : Synthesis).after st.pending := by simp [after]
  conv_rhs => rw [hst, conclude_after]
  rfl

/-! ### Frames -/

/-- A frame is taken in as its signal says. -/
theorem handleFrame_eq (frame : Bytes) {st : Synthesis} (h : st.GoesOn) :
    st.handleFrame serde frame = match frameSignal serde frame with
      | none => .ok st
      | some (.fault message) => .error message
      | some signal => .ok (st.accept serde signal) := by
  unfold handleFrame frameSignal
  cases fromUtf8 frame with
  | none => rfl
  | some text =>
    dsimp only
    by_cases hdata : frameData text = ""
    · rw [if_pos hdata, if_pos hdata]
    rw [if_neg hdata, if_neg hdata]
    by_cases hdone : trim (frameData text) = "[DONE]"
    · -- A response that has not started fails in `complete` with the same text.
      have hcomplete : (if st.terminated then st
          else if st.started then st.complete serde none
          else st.fail "the Z.ai stream ended before any content arrived") =
          st.complete serde none := by
        rw [if_neg (by simp [h.1])]
        split_ifs with hstarted
        · rfl
        · simp [complete, h.1, hstarted]
      have hfinished := (complete_ended serde none h).2
      rw [if_pos hdone, if_pos hdone, hcomplete]
      dsimp only [accept]
      generalize st.complete serde none = st' at hfinished ⊢
      rw [← hfinished]
    rw [if_neg hdone, if_neg hdone]
    cases serde.fromStr (frameData text) <;> rfl

/-- A frame that is taken in has the effect of its signal. -/
theorem hear_of_ok {frame : Bytes} {st st' : Synthesis} (h : st.GoesOn)
    (hframe : st.handleFrame serde frame = .ok st') :
    st.hear serde (frameSignal serde frame).toList = st' := by
  rw [handleFrame_eq serde frame h] at hframe
  split at hframe
  · rename_i hsignal
    cases hframe
    rw [hsignal]
    rfl
  · cases hframe
  · rename_i signal _ hsignal
    cases hframe
    rw [hsignal, Option.toList_some, hear_cons serde _ _ h.1]
    rfl

/-- A frame that is refused has the effect of its signal, which is a fault. -/
theorem hear_of_error {frame : Bytes} {st : Synthesis} {message : String} (h : st.GoesOn)
    (hframe : st.handleFrame serde frame = .error message) :
    st.hear serde (frameSignal serde frame).toList = st.fail message := by
  rw [handleFrame_eq serde frame h] at hframe
  split at hframe
  · cases hframe
  · rename_i message' hsignal
    cases hframe
    rw [hsignal, Option.toList_some, hear_cons serde _ _ h.1]
    rfl
  · cases hframe

end Synthesis

/-! ## The stream replays its transcript -/

/-- The signals of some frames, one frame at a time. -/
theorem filterMap_frameSignal_cons (serde : Serde) (frame : Bytes) (frames : List Bytes) :
    (frame :: frames).filterMap (frameSignal serde) =
      (frameSignal serde frame).toList ++ frames.filterMap (frameSignal serde) := by
  rw [List.filterMap_cons]
  cases frameSignal serde frame <;> rfl

namespace State

variable (serde : Serde)

/-- Draining the buffer takes in the signals of its frames, and leaves what follows them. -/
theorem drain_spec {st : State} (h : st.GoesOn) :
    (st.drain serde).toSynthesis = st.toSynthesis.hear serde
        ((scanner.frames st.buffer).filterMap (frameSignal serde)) ∧
      ((st.drain serde).terminated = false →
        (st.drain serde).buffer = scanner.rest st.buffer) := by
  fun_induction drain serde st with
  | case1 st hscan =>
    rw [Framing.Scanner.frames_of_none hscan, Framing.Scanner.rest_of_none hscan]
    exact ⟨rfl, fun _ => rfl⟩
  | case2 st length hscan frame buffer error hframe =>
    -- After an error nothing is heard, so the frames that are left do not matter.
    have hended := Synthesis.fail_ended error h
    rw [Framing.Scanner.frames_of_some hscan, filterMap_frameSignal_cons, Synthesis.hear_append,
      Synthesis.hear_of_error serde h hframe, Synthesis.hear_of_terminated serde _ hended.1]
    refine ⟨rfl, fun hon => ?_⟩
    rw [show (State.fail error { st with buffer }).terminated = true from hended.1] at hon
    cases hon
  | case3 st length hscan frame buffer synthesis hframe hterminated =>
    rw [Framing.Scanner.frames_of_some hscan, filterMap_frameSignal_cons, Synthesis.hear_append,
      Synthesis.hear_of_ok serde h hframe, Synthesis.hear_of_terminated serde _ hterminated]
    refine ⟨rfl, fun hon => ?_⟩
    rw [show (State.mk synthesis buffer).terminated = true from hterminated] at hon
    cases hon
  | case4 st length hscan frame buffer synthesis hframe hterminated ih =>
    have hheard := Synthesis.hear_of_ok serde h hframe
    -- What has been heard has not ended the response, so the next frame is heard as well.
    have hon : synthesis.GoesOn := by
      rw [← hheard]
      refine (Synthesis.hear_ended_or_goesOn serde _ h).resolve_left fun hended => ?_
      rw [hheard] at hended
      exact hterminated hended.1
    rw [Framing.Scanner.frames_of_some hscan, filterMap_frameSignal_cons, Synthesis.hear_append,
      hheard, Framing.Scanner.rest_of_some hscan]
    exact ih hon

/-- What a stream has yet to yield: the events in its queue, and those of the signals to come. -/
def outcome (upstream : List Poll) (st : State) : List Event :=
  st.pending ++ if st.finished then [] else
    (({ st.toSynthesis with pending := [] } : Synthesis).conclude serde
      (signals serde st.buffer upstream)).pending

/-- A stream that goes on yields what is in the queue after all signals. -/
theorem outcome_of_goesOn (upstream : List Poll) {st : State} (h : st.GoesOn) :
    st.outcome serde upstream =
      (st.toSynthesis.conclude serde (signals serde st.buffer upstream)).pending := by
  have hst : st.toSynthesis =
      ({ st.toSynthesis with pending := [] } : Synthesis).after st.pending := by
    simp [Synthesis.after]
  rw [outcome, if_neg (by simp [h.2])]
  conv_rhs => rw [hst, Synthesis.conclude_after]
  rfl

/-- A stream that has ended yields what is in its queue. -/
theorem outcome_of_ended (upstream : List Poll) {st : State} (h : st.Ended) :
    st.outcome serde upstream = st.pending := by
  rw [outcome, if_pos h.2, List.append_nil]

/-- What a stream has come to when it has taken in all signals does not depend on the poll that
brings them. -/
theorem poll_conclude (polled : Poll) (upstream : List Poll) {st : State} (h : st.GoesOn) :
    ((st.poll serde (some polled)).Ended ∨ (st.poll serde (some polled)).GoesOn) ∧
      (st.poll serde (some polled)).toSynthesis.conclude serde
          (signals serde (st.poll serde (some polled)).buffer upstream) =
        st.toSynthesis.conclude serde (signals serde st.buffer (polled :: upstream)) := by
  -- A fault ends the stream, whatever the signals after it.
  have hfault (message : String) : (st.fail message).Ended ∧
      (st.fail message).toSynthesis.conclude serde
          (signals serde (st.fail message).buffer upstream) =
        st.toSynthesis.conclude serde [.fault message] := by
    have hended := Synthesis.fail_ended message h
    refine ⟨hended, ?_⟩
    rw [Synthesis.conclude_of_ended serde _ (by exact hended), Synthesis.conclude,
      Synthesis.hear_cons serde _ _ h.1, Synthesis.hear, Synthesis.accept, if_pos hended.1]
    rfl
  cases polled with
  | error message =>
    obtain ⟨hended, hout⟩ := hfault ("upstream stream failed: " ++ message)
    exact ⟨.inl hended, hout⟩
  | chunk bytes =>
    unfold poll
    dsimp only
    rw [push, if_neg (by simp [h.1]), signals]
    split_ifs with hlimit
    · obtain ⟨hended, hout⟩ := hfault "the Z.ai stream exceeded the buffered event limit"
      exact ⟨.inl hended, hout⟩
    · have hon : ({ st with buffer := st.buffer ++ bytes } : State).GoesOn := h
      obtain ⟨hheard, hbuffer⟩ := drain_spec serde hon
      have hflags := Synthesis.hear_ended_or_goesOn serde
        ((scanner.frames (st.buffer ++ bytes)).filterMap (frameSignal serde)) h
      rw [Synthesis.conclude_append, ← hheard]
      rw [← hheard] at hflags
      generalize drain serde { st with buffer := st.buffer ++ bytes } = st' at hflags hbuffer ⊢
      refine ⟨hflags, ?_⟩
      rcases hflags with hended | hon
      · rw [Synthesis.conclude_of_ended serde _ hended, Synthesis.conclude_of_ended serde _ hended]
      · rw [hbuffer hon.1]

/-- A poll does not change what is to be yielded. -/
theorem poll_outcome (polled : Poll) (upstream : List Poll) {st : State} (h : st.GoesOn) :
    (st.poll serde (some polled)).outcome serde upstream =
      st.outcome serde (polled :: upstream) := by
  obtain ⟨hflags, hconclude⟩ := poll_conclude serde polled upstream h
  rw [outcome_of_goesOn serde _ h, ← hconclude]
  rcases hflags with hended | hon
  · rw [outcome_of_ended serde upstream hended, Synthesis.conclude_of_ended serde _ hended]
  · rw [outcome_of_goesOn serde upstream hon]

/-- The end of the body is the last fault. -/
theorem endOfStream_outcome {st : State} (h : st.GoesOn) :
    (st.poll serde none).Ended ∧ (st.poll serde none).pending = st.outcome serde [] := by
  have hended := Synthesis.fail_ended "the Z.ai stream ended before a terminal event" h
  have hpoll : (st.poll serde none).toSynthesis =
      st.toSynthesis.fail "the Z.ai stream ended before a terminal event" := by
    unfold poll Synthesis.endOfStream
    dsimp only
    rw [if_neg (by simp [h.1])]
    generalize st.toSynthesis.fail _ = st' at hended ⊢
    rw [← hended.2]
  refine ⟨by rw [hpoll]; exact hended, ?_⟩
  rw [outcome_of_goesOn serde _ h, hpoll, signals, Synthesis.conclude, Synthesis.hear,
    if_neg (by simp [h.1])]

/-- A queued event comes first. -/
theorem collect_of_pending (upstream : List Poll) {st : State} {event : Event}
    {pending : List Event} (h : st.pending = event :: pending) :
    st.collect serde upstream = event :: ({ st with pending } : State).collect serde upstream := by
  have hnext : st.next serde upstream = some (event, upstream, { st with pending }) := by
    cases upstream <;> rw [next, h]
  rw [collect, hnext]

/-- The stream yields what is in its queue first. -/
theorem collect_eq_append (upstream : List Poll) (st : State) :
    st.collect serde upstream =
      st.pending ++ ({ st with pending := [] } : State).collect serde upstream := by
  generalize hp : st.pending = pending
  induction pending generalizing st with
  | nil => rw [List.nil_append, ← hp]
  | cons event pending ih =>
    rw [collect_of_pending serde upstream hp, ih { st with pending } rfl, List.cons_append]

/-- A stream that has ended yields what is in its queue. -/
theorem collect_of_ended (upstream : List Poll) {st : State} (h : st.Ended) :
    st.collect serde upstream = st.pending := by
  have hnext : ({ st with pending := [] } : State).next serde upstream = none := by
    cases upstream <;> rw [next] <;> simp [h.2]
  rw [collect_eq_append, collect, hnext, List.append_nil]

/-- With an empty queue, the end of the body makes the stream yield what it queues. -/
theorem collect_endOfStream {st : State} (h : st.GoesOn) (hp : st.pending = []) :
    st.collect serde [] = (st.poll serde none).pending := by
  obtain ⟨hended, -⟩ := endOfStream_outcome serde h
  rw [collect]
  cases hq : (st.poll serde none).pending with
  | nil =>
    have hnext : st.next serde [] = none := by
      rw [next, hp]
      simp [h.2, hq]
    rw [hnext]
  | cons event pending =>
    have hnext : st.next serde [] = some (event, [], { st.poll serde none with pending }) := by
      rw [next, hp]
      simp [h.2, hq]
    rw [hnext]
    dsimp only
    rw [collect_of_ended serde [] (by exact hended)]

/-- With an empty queue, the stream polls, and yields nothing when the poll is stuck. -/
theorem collect_cons (polled : Poll) (upstream : List Poll) {st : State} (h : st.GoesOn) :
    st.collect serde (polled :: upstream) = st.pending ++
      if (({ st with pending := [] } : State).poll serde (some polled)).isStuck then []
      else (({ st with pending := [] } : State).poll serde (some polled)).collect serde
        upstream := by
  cases hstuck : (({ st with pending := [] } : State).poll serde (some polled)).isStuck with
  | true =>
    have hnext : ({ st with pending := [] } : State).next serde (polled :: upstream) = none := by
      rw [next]
      dsimp only
      rw [if_neg (by simp [h.2]), if_pos hstuck]
    rw [collect_eq_append, collect, hnext]
    rfl
  | false =>
    have hnext : ({ st with pending := [] } : State).next serde (polled :: upstream) =
        (({ st with pending := [] } : State).poll serde (some polled)).next serde upstream := by
      rw [next]
      dsimp only
      rw [if_neg (by simp [h.2]), if_neg (by rw [hstuck]; exact Bool.false_ne_true)]
    rw [collect_eq_append, collect, hnext, if_neg Bool.false_ne_true]
    conv_rhs => rw [collect]

/-- The stream yields its outcome, unless it is stuck on the way. -/
theorem collect_eq (upstream : List Poll) {st : State} (h : st.GoesOn)
    (hstuck : (st.toSynthesis.conclude serde (signals serde st.buffer upstream)).isStuck = false) :
    st.collect serde upstream = st.outcome serde upstream := by
  induction upstream generalizing st with
  | nil =>
    have hon : ({ st with pending := [] } : State).GoesOn := h
    rw [collect_eq_append, collect_endOfStream serde hon rfl, (endOfStream_outcome serde hon).2]
    rfl
  | cons polled upstream ih =>
    have hon : ({ st with pending := [] } : State).GoesOn := h
    obtain ⟨hflags, hconclude⟩ := poll_conclude serde polled upstream hon
    have hlater := (Synthesis.isStuck_conclude_queue serde _ st.toSynthesis).trans hstuck
    rw [← hconclude] at hlater
    have hnow := Synthesis.isStuck_of_conclude serde hflags hlater
    rw [collect_cons serde polled upstream h, if_neg (by rw [hnow]; exact Bool.false_ne_true),
      outcome]
    refine congrArg (st.pending ++ ·) ?_
    rw [if_neg (by simp [h.2])]
    have hout := poll_outcome serde polled upstream hon
    rw [outcome_of_goesOn serde _ hon] at hout
    rw [← hout]
    rcases hflags with hended | hon'
    · rw [collect_of_ended serde upstream hended, outcome_of_ended serde upstream hended]
    · exact ih hon' hlater

/-- A poll that a stream goes on after has brought some chunks that are not decisive. -/
theorem poll_goesOn {polled : Poll} (upstream : List Poll) {st : State} (h : st.GoesOn)
    (hpoll : (st.poll serde (some polled)).GoesOn) : ∃ chunks : List Value,
      (∀ chunk ∈ chunks, isDecisive chunk = false) ∧
      (st.poll serde (some polled)).toSynthesis =
        chunks.foldl (fun st chunk => st.progress chunk) st.toSynthesis ∧
      signals serde st.buffer (polled :: upstream) =
        chunks.map .chunk ++ signals serde (st.poll serde (some polled)).buffer upstream := by
  have hfault (message : String) : ¬ (st.fail message).GoesOn := by
    intro hon
    exact Bool.false_ne_true (hon.1.symm.trans (Synthesis.fail_ended message h).1)
  cases polled with
  | error message => exact absurd hpoll (hfault _)
  | chunk bytes =>
    unfold poll at hpoll ⊢
    dsimp only at hpoll ⊢
    rw [push, if_neg (by simp [h.1])] at hpoll ⊢
    rw [signals]
    split_ifs at hpoll ⊢ with hlimit
    · exact absurd hpoll (hfault _)
    · have hon : ({ st with buffer := st.buffer ++ bytes } : State).GoesOn := h
      obtain ⟨hheard, hbuffer⟩ := drain_spec serde hon
      have hcases := Synthesis.hear_cases serde
        ((scanner.frames (st.buffer ++ bytes)).filterMap (frameSignal serde)) h
      rw [← hheard] at hcases
      rcases hcases with ⟨hended, -⟩ | ⟨-, -, heq, hsignals⟩
      · exact absurd (hpoll.1.symm.trans hended.1) Bool.false_ne_true
      · exact ⟨_, Transcript.chunks_not_decisive _, heq, by rw [hbuffer hpoll.1, ← hsignals]⟩

/-- A stream that gets stuck yields what it has queued before, after a start of the chunks. -/
theorem collect_of_stuck (upstream : List Poll) {st : State} (h : st.GoesOn)
    (hst : st.isStuck = false)
    (hstuck : (st.toSynthesis.conclude serde (signals serde st.buffer upstream)).isStuck = true) :
    ∃ chunks : List Value, chunks <+: (transcribe (signals serde st.buffer upstream)).chunks ∧
      st.collect serde upstream =
        (chunks.foldl (fun st chunk => st.progress chunk) st.toSynthesis).pending := by
  induction upstream generalizing st with
  | nil =>
    -- The end of the body asks for no table.
    have hnot : (st.toSynthesis.conclude serde []).isStuck = false := by
      rw [Synthesis.isStuck_eq_false] at hst ⊢
      refine (Synthesis.peak_conclude_le serde [] h _).mpr ⟨hst, fun call hcall => ?_⟩
      cases hcall
    rw [signals, hnot] at hstuck
    cases hstuck
  | cons polled upstream ih =>
    have hon : ({ st with pending := [] } : State).GoesOn := h
    obtain ⟨hflags, hconclude⟩ := poll_conclude serde polled upstream hon
    rw [← Synthesis.isStuck_conclude_queue] at hstuck
    rw [← hconclude] at hstuck
    rw [collect_cons serde polled upstream h]
    split_ifs with hnow
    · exact ⟨[], List.nil_prefix, List.append_nil _⟩
    rw [Bool.not_eq_true] at hnow
    rcases hflags with hended | hpoll
    · rw [Synthesis.conclude_of_ended serde _ hended, hnow] at hstuck
      cases hstuck
    obtain ⟨more, hmore, heq⟩ := ih hpoll hnow hstuck
    obtain ⟨chunks, hchunks, hprogress, hsignals⟩ := poll_goesOn serde upstream hon hpoll
    refine ⟨chunks ++ more, ?_, ?_⟩
    · rw [show signals serde st.buffer (polled :: upstream) = _ from hsignals,
        transcribe_append hchunks]
      exact List.prefix_append_right_inj chunks |>.mpr hmore
    · have hafter := Synthesis.foldl_progress_after st.pending (chunks ++ more)
        { st.toSynthesis with pending := [] }
      have hst' : ({ st.toSynthesis with pending := [] } : Synthesis).after st.pending =
          st.toSynthesis := by
        simp [Synthesis.after]
      rw [hst', List.foldl_append, List.foldl_append, ← hprogress] at hafter
      rw [heq, List.foldl_append, hafter]
      rfl

end State

/-- A stream gets stuck exactly when a tool call that is taken in has an index that is no position
in a table. -/
theorem isStuck_conclude_iff (serde : Serde) (upstream : List Poll) (model requestKey : String)
    (tools : ToolNames) :
    (Synthesis.conclude serde (signals serde [] upstream)
      { model, requestKey, tools }).isStuck = false ↔ (transcript serde upstream).Addressable := by
  have hon : Synthesis.GoesOn { model, requestKey, tools } := ⟨rfl, rfl⟩
  rw [Synthesis.isStuck_eq_false, Synthesis.peak_conclude_le serde _ hon]
  exact and_iff_right (Nat.zero_le _)

/-- The events of the stream are those of replaying the transcript of the upstream body, unless the
stream gets stuck. -/
theorem responsesEvents_eq (serde : Serde) {upstream : List Poll}
    (h : (transcript serde upstream).Addressable) (model requestKey : String)
    (tools : ToolNames) :
    responsesEvents serde upstream model requestKey tools =
      (Synthesis.replay serde (transcript serde upstream) { model, requestKey, tools }).pending := by
  have hon : ({ model, requestKey, tools } : State).GoesOn := ⟨rfl, rfl⟩
  rw [responsesEvents, State.collect_eq serde upstream hon
    ((isStuck_conclude_iff serde upstream model requestKey tools).mpr h),
    State.outcome_of_goesOn serde _ hon, Synthesis.conclude_eq_replay serde _ hon]
  rfl

/-- A stream that gets stuck yields the events of a start of the transcript. -/
theorem responsesEvents_stuck (serde : Serde) {upstream : List Poll}
    (h : ¬(transcript serde upstream).Addressable) (model requestKey : String)
    (tools : ToolNames) : ∃ chunks : List Value, chunks <+: (transcript serde upstream).chunks ∧
      responsesEvents serde upstream model requestKey tools =
        (chunks.foldl (fun (st : Synthesis) chunk => st.progress chunk)
          { model, requestKey, tools }).pending := by
  have hon : ({ model, requestKey, tools } : State).GoesOn := ⟨rfl, rfl⟩
  rw [← isStuck_conclude_iff serde upstream model requestKey tools, Bool.not_eq_false] at h
  exact State.collect_of_stuck serde upstream hon (Synthesis.isStuck_eq_false.mpr (Nat.zero_le _)) h

/-! ## How a response ends -/

namespace Synthesis

variable (serde : Serde)

/-- A state that a response reaches after its first chunk, before its end. -/
def Begun (st₀ st : Synthesis) : Prop := ∃ chunk, Moves serde (st₀.start chunk) st

/-- The initial state. -/
def Fresh (st : Synthesis) : Prop := st.GoesOn ∧ st.started = false

/-- A response that has begun has not ended. -/
theorem Begun.goesOn {st₀ st : Synthesis} (h₀ : st₀.Fresh) (h : Begun serde st₀ st) :
    st.GoesOn := by
  obtain ⟨chunk, hmoves⟩ := h
  exact hmoves.goesOn serde (start_goesOn chunk h₀.1)

/-- A response that has begun is started. -/
theorem Begun.started {st₀ st : Synthesis} (h : Begun serde st₀ st) : st.started = true := by
  obtain ⟨chunk, hmoves⟩ := h
  exact (congrArg Turn.started hmoves.turn_eq).trans (start_started chunk st₀)

/-- A response starts only once. -/
theorem Begun.moves_start {st₀ st st' : Synthesis} (h : Begun serde st₀ st) (chunk : Value)
    (hmoves : Moves serde (st.start chunk) st') : Begun serde st₀ st' := by
  have hstart : st.start chunk = st := by rw [start, if_pos h.started]
  rw [hstart] at hmoves
  obtain ⟨first, hfirst⟩ := h
  exact ⟨first, hfirst.trans hmoves⟩

/-- The first chunk begins the response, and the others go on with it. -/
theorem foldl_progress_begun {chunks : List Value} (hne : chunks ≠ []) (st₀ : Synthesis) :
    Begun serde st₀ (chunks.foldl (fun st chunk => st.progress chunk) st₀) := by
  induction chunks using List.reverseRecOn with
  | nil => exact absurd rfl hne
  | append_singleton chunks chunk ih =>
    rw [List.foldl_append]
    have hmoves := progress_moves serde chunk
      (chunks.foldl (fun st chunk => st.progress chunk) st₀)
    by_cases hnil : chunks = []
    · subst hnil
      exact ⟨chunk, hmoves⟩
    · exact (ih hnil).moves_start serde chunk hmoves

end Synthesis

/-- The message of the error that a transcript ends with, unless it ends with the response. -/
def Transcript.failure (t : Transcript) : Option String :=
  match t.last with
  | .chunk chunk => (Synthesis.chunkError chunk).map fun error =>
    ((error.get "message").bind Value.asStr).getD "the Z.ai stream reported an error"
  | .done => if t.chunks = [] then some "the Z.ai stream ended before any content arrived" else none
  | .fault message => some message

/-- The kind of the event that a transcript ends with: the response, truncated or not, when the
completion has an end, and else an error. -/
def Transcript.terminal (t : Transcript) : String :=
  match t.last with
  | .chunk chunk =>
    if (Synthesis.chunkError chunk).isSome then "error"
    else if Synthesis.finishReason chunk = some "length" then "response.incomplete"
    else "response.completed"
  | .done => if t.chunks = [] then "error" else "response.completed"
  | .fault _ => "error"

namespace Synthesis

variable (serde : Serde)

/-- Replaying a transcript ends with an error, before or after the first chunk, or with the
response that all its chunks have led to. -/
theorem replay_cases (t : Transcript) {st₀ : Synthesis} (h₀ : st₀.Fresh) :
    (t.terminal = "error" ∧ ∃ st message, (st = st₀ ∨ Begun serde st₀ st) ∧
      st₀.replay serde t = st.fail message ∧ t.failure = some message) ∨
    ∃ st reason, st = t.spoken.foldl (fun st chunk => st.progress chunk) st₀ ∧
      Begun serde st₀ st ∧ st₀.replay serde t = st.complete serde reason ∧
      t.terminal = if reason = some "length" then "response.incomplete"
        else "response.completed" := by
  unfold replay Transcript.terminal Transcript.spoken Transcript.failure
  rw [foldl_handleChunk serde t.chunks_not_decisive]
  -- The first chunk begins the response, and no chunk ends it.
  have hbegun (hne : t.chunks ≠ []) := foldl_progress_begun serde hne st₀
  have hfold : t.chunks.foldl (fun st chunk => st.progress chunk) st₀ = st₀ ∨
      Begun serde st₀ (t.chunks.foldl (fun st chunk => st.progress chunk) st₀) := by
    by_cases hnil : t.chunks = []
    · left
      rw [hnil]
      rfl
    · exact .inr (hbegun hnil)
  have hdecisive := t.last_decisive
  cases hlast : t.last with
  | fault message => exact .inl ⟨rfl, _, message, hfold, rfl, rfl⟩
  | done =>
    -- Without a chunk there is no response to complete.
    by_cases hnil : t.chunks = []
    · refine .inl ⟨by simp [hnil], st₀, "the Z.ai stream ended before any content arrived",
        .inl rfl, ?_, by simp [hnil]⟩
      rw [hnil, List.foldl_nil, accept, complete, if_neg (by simp [h₀.1.1]),
        if_pos (by simp [h₀.2])]
    · exact .inr ⟨_, none, rfl, hbegun hnil, rfl, by simp [hnil]⟩
  | chunk chunk =>
    rw [hlast] at hdecisive
    cases herror : chunkError chunk with
    | some error =>
      refine .inl ⟨by simp [herror], _,
        ((error.get "message").bind Value.asStr).getD "the Z.ai stream reported an error",
        hfold, ?_, by simp [herror]⟩
      rw [accept, handleChunk, show (chunk.get "error").filter (fun error => !error.isNull) =
        some error from herror]
    | none =>
      simp only [Signal.isDecisive, isDecisive, herror, Option.isSome_none, Bool.false_or]
        at hdecisive
      -- A decisive chunk that reports no error carries the reason of the end.
      obtain ⟨reason, hreason⟩ := Option.isSome_iff_exists.mp hdecisive
      refine .inr ⟨_, some reason, rfl, foldl_progress_begun serde (by simp) st₀, ?_,
        by simp [herror, hreason]⟩
      rw [accept, handleChunk_eq serde herror, hreason, List.foldl_append]
      rfl

/-- The last event of a failure is the error. -/
theorem fail_getLast (message : String) {st : Synthesis} (h : st.GoesOn) :
    (st.fail message).pending.getLast?.map Event.kind = some "error" := by
  simp [fail, h.1, emit, Event.of]

/-- Completing a response that has begun sends it after all steps that end its items. -/
theorem complete_eq_finish (reason : Option String) {st : Synthesis} (h : st.GoesOn)
    (hstarted : st.started = true) :
    st.complete serde reason =
      (st.closeReasoning.closeMessage.closeToolCalls serde).finish reason := by
  rw [complete, if_neg (by simp [h.1]), if_neg (by simp [hstarted])]

/-- The last event of a completion says whether the length ended it. -/
theorem finish_getLast (reason : Option String) (st : Synthesis) :
    (st.finish reason).pending.getLast?.map Event.kind = some
      (if reason = some "length" then "response.incomplete" else "response.completed") := by
  simp [finish, emit, Event.of]

end Synthesis

/-- The last event of the stream is of the kind that its transcript says. -/
theorem responsesEvents_getLast (serde : Serde) {upstream : List Poll}
    (h : (transcript serde upstream).Addressable) (model requestKey : String)
    (tools : ToolNames) :
    (responsesEvents serde upstream model requestKey tools).getLast?.map Event.kind =
      some (transcript serde upstream).terminal := by
  rw [responsesEvents_eq serde h]
  have h₀ : Synthesis.Fresh { model, requestKey, tools } := ⟨⟨rfl, rfl⟩, rfl⟩
  rcases Synthesis.replay_cases serde (transcript serde upstream) h₀ with
    ⟨hterminal, st, message, hst, heq, -⟩ | ⟨st, reason, -, hbegun, heq, hterminal⟩
  · have hon : st.GoesOn := by
      rcases hst with rfl | hbegun
      · exact h₀.1
      · exact hbegun.goesOn serde h₀
    rw [heq, hterminal, Synthesis.fail_getLast message hon]
  · rw [heq, hterminal, Synthesis.complete_eq_finish serde reason (hbegun.goesOn serde h₀)
      hbegun.started, Synthesis.finish_getLast]

end MuseCodex.Zai
