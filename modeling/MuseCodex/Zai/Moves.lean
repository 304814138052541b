import MuseCodex.Zai.Stream
import Mathlib.Logic.Relation

/-!
# The steps of a response

Between its start and its end a response changes by small steps: an item is added, extended or
ended, a call is prepared, announced or ended. `Move` lists them, each with the guard under which
the source takes it, and the lemmas here show that every method of the source is a sequence of
moves (`Moves`). What holds of every response is then proved for one move at a time.
-/

namespace MuseCodex.Zai.Synthesis

open Text Json

variable (serde : Serde)

/-- One step of a response that leaves its token counts, and how long its table of calls has been,
alone. -/
inductive Step : Synthesis → Synthesis → Prop where
  /-- An item is added while no other one is being sent. -/
  | openItem {st : Synthesis} (c : Channel) (h : ∀ d, st.slot d = none) : Step st (st.openItem c)
  /-- A piece of text is sent. -/
  | extendItem {st : Synthesis} {c : Channel} {item : TextItem} (delta : String)
      (h : st.slot c = some item) : Step st (st.extendItem c delta)
  /-- An item is ended. -/
  | closeItem {st : Synthesis} {c : Channel} {item : TextItem} (h : st.slot c = some item) :
      Step st (st.closeItem c)
  /-- A call gets its id and its index in the output. -/
  | reserveCall {st : Synthesis} {index : ℕ} (hi : index < st.calls.length)
      (h : (st.callAt index).id = "") : Step st (st.reserveCall index)
  /-- What is known of a call changes, but not its id, nor whether it is announced. -/
  | updateCall {st : Synthesis} {index : ℕ} (hi : index < st.calls.length) (entry : PendingCall)
      (hid : entry.id = (st.callAt index).id)
      (hindex : entry.outputIndex = (st.callAt index).outputIndex)
      (hannounced : entry.announced = (st.callAt index).announced) : Step st (st.setCall index entry)
  /-- A call is announced. -/
  | announceCall {st : Synthesis} {index : ℕ} (hi : index < st.calls.length)
      (hid : (st.callAt index).id ≠ "") (h : (st.callAt index).announced = false) :
      Step st ((st.setCall index { st.callAt index with announced := true }).emit
        "response.output_item.added" [("output_index", .ofNat (st.callAt index).outputIndex),
          ("item", (st.callAt index).item "in_progress" "")])
  /-- A piece of a call's arguments is sent. -/
  | sendArguments {st : Synthesis} {index : ℕ} (hi : index < st.calls.length)
      (h : (st.callAt index).announced = true) (fragment : String) :
      Step st (st.emit "response.function_call_arguments.delta"
        [("item_id", .string (st.callAt index).id),
          ("output_index", .ofNat (st.callAt index).outputIndex), ("delta", .string fragment)])
  /-- A call that was announced is ended. -/
  | closeCall {st : Synthesis} {call : PendingCall} {calls : List PendingCall}
      (hcalls : st.calls = call :: calls) (h : call.announced = true) :
      Step st (closeToolCall serde { st with calls } call)
  /-- A call that was not announced is forgotten. -/
  | forgetCall {st : Synthesis} {call : PendingCall} {calls : List PendingCall}
      (hcalls : st.calls = call :: calls) (h : call.announced = false) : Step st { st with calls }

/-- One step of a response between its start and its end. -/
inductive Move : Synthesis → Synthesis → Prop where
  /-- The token counts are noted. -/
  | usage {st : Synthesis} (usage : Value) : Move st { st with usage := some (mapUsage usage) }
  /-- Room is made for more calls. -/
  | growCalls {st : Synthesis} (index : ℕ) : Move st (st.growCalls index)
  /-- Any other step. -/
  | step {st st' : Synthesis} (h : Step serde st st') : Move st st'

/-- A sequence of steps that leave the token counts and the length of the table alone. -/
abbrev Steps : Synthesis → Synthesis → Prop := Relation.ReflTransGen (Step serde)

/-- A sequence of steps. -/
abbrev Moves : Synthesis → Synthesis → Prop := Relation.ReflTransGen (Move serde)

/-- Steps are moves. -/
theorem Steps.moves {st st' : Synthesis} (h : Steps serde st st') : Moves serde st st' :=
  Relation.ReflTransGen.mono (fun _ _ => Move.step) st st' h

/-! ## Reasoning and text -/

/-- The item that is set is the open one. -/
@[simp] theorem slot_setSlot (c : Channel) (item : Option TextItem) (st : Synthesis) :
    (st.setSlot c item).slot c = item := by
  cases c <;> rfl

/-- The other channel keeps its open item. -/
theorem slot_setSlot_of_ne {c d : Channel} (h : d ≠ c) (item : Option TextItem)
    (st : Synthesis) : (st.setSlot c item).slot d = st.slot d := by
  cases c <;> cases d <;> first | rfl | exact absurd rfl h

/-- There are no open items but those of the two channels. -/
theorem slot_congr {st st' : Synthesis} (hreasoning : st'.reasoning = st.reasoning)
    (hmessage : st'.message = st.message) (c : Channel) : st'.slot c = st.slot c := by
  cases c
  · exact hreasoning
  · exact hmessage

/-- What a change of an open item leaves alone. -/
structure Beside (st st' : Synthesis) : Prop where
  pending : st'.pending = st.pending
  sequence : st'.sequence = st.sequence
  nextOutputIndex : st'.nextOutputIndex = st.nextOutputIndex
  idStem : st'.idStem = st.idStem
  calls : st'.calls = st.calls
  output : st'.output = st.output

/-- An open item is set beside all else. -/
theorem beside_setSlot (c : Channel) (item : Option TextItem) (st : Synthesis) :
    Beside st (st.setSlot c item) := by
  cases c <;> exact ⟨rfl, rfl, rfl, rfl, rfl, rfl⟩

/-- An event leaves the open items alone. -/
@[simp] theorem slot_emit (c : Channel) (kind : String) (body : List (String × Value))
    (st : Synthesis) : (st.emit kind body).slot c = st.slot c := by
  cases c <;> rfl

/-- What ending an item leaves in the slots. -/
theorem slot_closeItem (c d : Channel) (st : Synthesis) :
    (st.closeItem c).slot d = if d = c then none else st.slot d := by
  unfold closeItem
  split
  · rename_i h
    split_ifs with hd
    · rw [hd, h]
    · rfl
  · split_ifs with hd
    · subst hd
      cases d <;> rfl
    · cases c <;> cases d <;> first | rfl | exact absurd rfl hd

/-- Ending an item is a step, if there is an item. -/
theorem closeItem_steps (c : Channel) (st : Synthesis) : Steps serde st (st.closeItem c) := by
  cases h : st.slot c with
  | none =>
    rw [closeItem, h]
  | some item => exact .single (.closeItem h)

/-- Sending a piece of text on a channel, once the item of the other channel is ended. -/
theorem pushItem_steps {c : Channel} {st : Synthesis} (h : ∀ d, d ≠ c → st.slot d = none)
    (delta : String) : Steps serde st ((st.openItem c).extendItem c delta) := by
  cases hc : st.slot c with
  | some item =>
    have hopen : st.openItem c = st := by rw [openItem, hc]
    rw [hopen]
    exact .single (.extendItem delta hc)
  | none =>
    have hnone : ∀ d, st.slot d = none := by
      intro d
      by_cases hd : d = c
      · rw [hd, hc]
      · exact h d hd
    have hslot : ∃ item, (st.openItem c).slot c = some item := by
      rw [openItem, hc]
      exact ⟨_, slot_setSlot c _ _⟩
    obtain ⟨item, hitem⟩ := hslot
    exact .tail (.single (.openItem c hnone)) (.extendItem delta hitem)

/-- Sending a piece of reasoning is a sequence of steps. -/
theorem pushReasoning_steps (delta : String) (st : Synthesis) :
    Steps serde st (st.pushReasoning delta) := by
  refine (closeItem_steps serde .message st).trans (pushItem_steps serde ?_ delta)
  intro d hd
  have hd' : d = .message := by cases d <;> simp_all
  rw [slot_closeItem, if_pos hd']

/-- Sending a piece of text is a sequence of steps. -/
theorem pushText_steps (delta : String) (st : Synthesis) :
    Steps serde st (st.pushText delta) := by
  refine (closeItem_steps serde .reasoning st).trans (pushItem_steps serde ?_ delta)
  intro d hd
  have hd' : d = .reasoning := by cases d <;> simp_all
  rw [slot_closeItem, if_pos hd']

/-! ## Tool calls -/

/-- The call that is set is the one at its index. -/
theorem callAt_setCall {index : ℕ} {st : Synthesis} (hi : index < st.calls.length)
    (entry : PendingCall) : (st.setCall index entry).callAt index = entry := by
  simp [callAt, setCall, hi]

/-- The other calls stay. -/
theorem callAt_setCall_of_ne {i index : ℕ} (h : i ≠ index) (entry : PendingCall)
    (st : Synthesis) : (st.setCall index entry).callAt i = st.callAt i := by
  simp [callAt, setCall, List.getD, List.getElem?_set_ne (Ne.symm h)]

/-- An event leaves the calls alone. -/
@[simp] theorem callAt_emit (index : ℕ) (kind : String) (body : List (String × Value))
    (st : Synthesis) : (st.emit kind body).callAt index = st.callAt index := rfl

/-- Setting a call adds none. -/
@[simp] theorem calls_setCall_length (index : ℕ) (entry : PendingCall) (st : Synthesis) :
    (st.setCall index entry).calls.length = st.calls.length := by
  simp [setCall]

/-- After growing there is a call at the index. -/
theorem growCalls_length (index : ℕ) (st : Synthesis) :
    index < (st.growCalls index).calls.length := by
  simp only [growCalls, List.length_append, List.length_replicate]
  omega

/-- The id of an item is not empty. -/
theorem itemId_ne_empty (tag : String) (outputIndex : ℕ) (st : Synthesis) :
    st.itemId tag outputIndex ≠ "" := by
  intro h
  have := congrArg String.toList h
  simp [itemId, String.toList_append] at this

/-- Reserving a call is a step, if it is its first fragment. -/
theorem reserveCall_steps {index : ℕ} {st : Synthesis} (hi : index < st.calls.length) :
    Steps serde st (st.reserveCall index) := by
  by_cases h : (st.callAt index).id = ""
  · exact .single (.reserveCall hi h)
  · rw [reserveCall, if_neg h]

/-- Giving a call its place adds none. -/
theorem reserveCall_length (index : ℕ) (st : Synthesis) :
    (st.reserveCall index).calls.length = st.calls.length := by
  unfold reserveCall
  dsimp only
  split_ifs
  · rw [calls_setCall_length]
  · rfl

/-- After reserving, a call has its id. -/
theorem reserveCall_id {index : ℕ} {st : Synthesis} (hi : index < st.calls.length) :
    ((st.reserveCall index).callAt index).id ≠ "" := by
  unfold reserveCall
  dsimp only
  split_ifs with h
  · rw [callAt_setCall (by exact hi)]
    exact itemId_ne_empty _ _ _
  · exact h

/-- What a preparation of a call leaves unchanged. -/
structure Prepares (index : ℕ) (st st' : Synthesis) : Prop where
  steps : Steps serde st st'
  length : st'.calls.length = st.calls.length
  id : (st'.callAt index).id = (st.callAt index).id

/-- Changing what is known of a call, but not its id, is a preparation. -/
theorem setCall_prepares {index : ℕ} {st : Synthesis} (hi : index < st.calls.length)
    {entry : PendingCall} (hid : entry.id = (st.callAt index).id)
    (hindex : entry.outputIndex = (st.callAt index).outputIndex)
    (hannounced : entry.announced = (st.callAt index).announced) :
    Prepares serde index st (st.setCall index entry) where
  steps := .single (.updateCall hi entry hid hindex hannounced)
  length := calls_setCall_length _ _ _
  id := by rw [callAt_setCall hi, hid]

/-- Taking an id prepares a call. -/
theorem identifyCall_prepares {index : ℕ} {st : Synthesis} (hi : index < st.calls.length)
    (call : Value) : Prepares serde index st (st.identifyCall index call) := by
  unfold identifyCall
  dsimp only
  split
  · split_ifs
    · exact setCall_prepares serde hi rfl rfl rfl
    · exact ⟨.refl, rfl, rfl⟩
  · exact ⟨.refl, rfl, rfl⟩

/-- Taking a name prepares a call. -/
theorem nameCall_prepares {index : ℕ} {st : Synthesis} (hi : index < st.calls.length)
    (call : Value) : Prepares serde index st (st.nameCall index call) := by
  unfold nameCall
  dsimp only
  split
  · split_ifs
    · exact setCall_prepares serde hi rfl rfl rfl
    · exact ⟨.refl, rfl, rfl⟩
  · exact ⟨.refl, rfl, rfl⟩

/-- Announcing a call that has its place prepares it. -/
theorem announceCall_prepares {index : ℕ} {st : Synthesis} (hi : index < st.calls.length)
    (hid : (st.callAt index).id ≠ "") :
    Prepares serde index st (st.announceCall index) := by
  unfold announceCall
  dsimp only
  split_ifs with h
  · simp only [Bool.and_eq_true, Bool.not_eq_true'] at h
    refine ⟨.single (.announceCall hi hid h.1.1), calls_setCall_length _ _ _, ?_⟩
    rw [callAt_emit, callAt_setCall hi]
  · exact ⟨.refl, rfl, rfl⟩

/-- Adding the arguments of a fragment is a sequence of steps. -/
theorem pushArguments_steps {index : ℕ} {st : Synthesis} (hi : index < st.calls.length)
    (call : Value) : Steps serde st (st.pushArguments index call) := by
  unfold pushArguments
  dsimp only
  split
  · rename_i fragment _
    -- The arguments are added first, so the piece is sent by the call that has them.
    have hset : Steps serde st (st.setCall index
        { st.callAt index with arguments := (st.callAt index).arguments ++ fragment }) :=
      .single (.updateCall hi _ rfl rfl rfl)
    split_ifs with h
    · simp only [Bool.and_eq_true, Bool.not_eq_true'] at h
      have hat := callAt_setCall hi
        { st.callAt index with arguments := (st.callAt index).arguments ++ fragment }
      have hlen := calls_setCall_length index
        { st.callAt index with arguments := (st.callAt index).arguments ++ fragment } st
      generalize st.setCall index
        { st.callAt index with arguments := (st.callAt index).arguments ++ fragment } = st₁
        at hset hat hlen ⊢
      have hsend : Step serde st₁ (st₁.emit "response.function_call_arguments.delta"
          [("item_id", .string (st₁.callAt index).id),
            ("output_index", .ofNat (st₁.callAt index).outputIndex),
            ("delta", .string fragment)]) :=
        .sendArguments (by rw [hlen]; exact hi) (by rw [hat]; exact h.2) fragment
      rw [hat] at hsend
      exact hset.tail hsend
    · exact hset
  · exact .refl

/-- Before and after room is made for its call, a fragment takes steps only. -/
theorem pushToolCall_steps (call : Value) (st : Synthesis) : ∃ closed,
    Steps serde st closed ∧
      Steps serde (closed.growCalls (callIndex call)) (st.pushToolCall call) := by
  unfold pushToolCall
  dsimp only
  refine ⟨st.closeReasoning.closeMessage,
    (closeItem_steps serde .reasoning st).trans (closeItem_steps serde .message _), ?_⟩
  generalize st.closeReasoning.closeMessage = st₀
  generalize callIndex call = index
  have hi : index < (st₀.growCalls index).calls.length := growCalls_length index st₀
  have hreserve := reserveCall_steps serde hi
  have hlen := reserveCall_length index (st₀.growCalls index)
  have hid := reserveCall_id hi
  rw [← hlen] at hi
  generalize (st₀.growCalls index).reserveCall index = st₁ at hreserve hid hi ⊢
  have hidentify := identifyCall_prepares serde hi call
  rw [← hidentify.length] at hi
  have hname := nameCall_prepares serde hi call
  rw [← hname.length] at hi
  have hannounce := announceCall_prepares serde hi
    (by rw [hname.id, hidentify.id]; exact hid)
  rw [← hannounce.length] at hi
  exact (((hreserve.trans hidentify.steps).trans hname.steps).trans hannounce.steps).trans
    (pushArguments_steps serde hi call)

/-- Taking in a fragment is a sequence of steps. -/
theorem pushToolCall_moves (call : Value) (st : Synthesis) :
    Moves serde st (st.pushToolCall call) := by
  obtain ⟨closed, hclosed, hrest⟩ := pushToolCall_steps serde call st
  exact (hclosed.moves.tail (.growCalls _)).trans hrest.moves

/-- Ending the calls one by one. -/
theorem closeToolCalls_steps (st : Synthesis) : Steps serde st (st.closeToolCalls serde) := by
  unfold closeToolCalls
  generalize hcalls : st.calls = calls
  induction calls generalizing st with
  | nil =>
    have : { st with calls := [] } = st := by rw [← hcalls]
    rw [List.filter_nil, List.foldl_nil, this]
  | cons call calls ih =>
    cases h : call.announced with
    | false =>
      rw [List.filter_cons_of_neg (by simp [h])]
      exact .head (.forgetCall hcalls h) (ih { st with calls } rfl)
    | true =>
      rw [List.filter_cons_of_pos h, List.foldl_cons]
      refine .head (.closeCall hcalls h) ?_
      have := ih (closeToolCall serde { st with calls } call) ?_
      · convert this using 2
        simp only [closeToolCall, emit]
        split_ifs <;> rfl
      · simp only [closeToolCall, emit]
        split_ifs <;> rfl

/-! ## What a step leaves unchanged -/

/-- What a response is from its start to its end. -/
structure Turn where
  tools : ToolNames
  idStem : String
  responseId : String
  started : Bool
  finished : Bool
  terminated : Bool

/-- What the response of a state is. -/
def turn (st : Synthesis) : Turn :=
  ⟨st.tools, st.idStem, st.responseId, st.started, st.finished, st.terminated⟩

/-- An event belongs to the turn. -/
@[simp] theorem turn_emit (kind : String) (body : List (String × Value)) (st : Synthesis) :
    (st.emit kind body).turn = st.turn := rfl

/-- A change of an open item belongs to the turn. -/
@[simp] theorem turn_setSlot (c : Channel) (item : Option TextItem) (st : Synthesis) :
    (st.setSlot c item).turn = st.turn := by
  cases c <;> rfl

/-- A change of a call belongs to the turn. -/
@[simp] theorem turn_setCall (index : ℕ) (entry : PendingCall) (st : Synthesis) :
    (st.setCall index entry).turn = st.turn := rfl

/-- A finished item belongs to the turn. -/
@[simp] theorem turn_output (output : List Value) (st : Synthesis) :
    ({ st with output } : Synthesis).turn = st.turn := rfl

/-- Closing a call belongs to the turn. -/
theorem turn_closeToolCall (call : PendingCall) (st : Synthesis) :
    (closeToolCall serde st call).turn = st.turn := by
  cases h : call.freeform <;> simp [closeToolCall, h]

/-- A step does not change what the response is. -/
theorem Step.turn_eq {st st' : Synthesis} (h : Step serde st st') : st'.turn = st.turn := by
  cases h with
  | forgetCall => rfl
  | openItem c h =>
    simp only [Synthesis.openItem, h c, turn_setSlot, turn_emit]
    rfl
  | extendItem delta h => simp only [Synthesis.extendItem, h, turn_setSlot, turn_emit]
  | closeItem h => simp only [Synthesis.closeItem, h, turn_setSlot, turn_emit, turn_output]
  | reserveCall hi h =>
    simp only [Synthesis.reserveCall, h, if_true, turn_setCall]
    rfl
  | updateCall => exact turn_setCall _ _ _
  | announceCall => rfl
  | sendArguments => rfl
  | closeCall => exact turn_closeToolCall serde _ _

/-- A move stays in its turn. -/
theorem Move.turn_eq {st st' : Synthesis} (h : Move serde st st') : st'.turn = st.turn := by
  cases h with
  | usage | growCalls => rfl
  | step h => exact h.turn_eq

/-- So do any number of moves. -/
theorem Moves.turn_eq {st st' : Synthesis} (h : Moves serde st st') : st'.turn = st.turn := by
  induction h with
  | refl => rfl
  | tail _ hmove ih => rw [hmove.turn_eq, ih]

/-! ## Chunks -/

/-- A delta is taken in by moves. -/
theorem handleDelta_moves (delta : Map Value) (st : Synthesis) :
    Moves serde st (st.handleDelta delta) := by
  have hfold (calls : List Value) (st : Synthesis) :
      Moves serde st (calls.foldl (fun st call => st.pushToolCall call) st) := by
    induction calls generalizing st with
    | nil => exact .refl
    | cons call calls ih => exact (pushToolCall_moves serde call st).trans (ih _)
  unfold handleDelta
  refine .trans ?_ (hfold _ _)
  cases nonEmptyStr (delta.get "reasoning_content") with
  | none =>
    cases nonEmptyStr (delta.get "content") with
    | none => exact .refl
    | some content => exact (pushText_steps serde content st).moves
  | some reasoning =>
    have hreasoning := (pushReasoning_steps serde reasoning st).moves
    cases nonEmptyStr (delta.get "content") with
    | none => exact hreasoning
    | some content => exact hreasoning.trans (pushText_steps serde content _).moves

/-- The error that a chunk reports. -/
def chunkError (chunk : Value) : Option Value :=
  (chunk.get "error").filter fun error => !error.isNull

/-- The reason that a chunk gives for the end of the completion. -/
def finishReason (chunk : Value) : Option String :=
  (firstChoice chunk).bind fun choice => nonEmptyStr (choice.get "finish_reason")

/-- The state after a chunk that reports no error, before the reason that it may give. -/
def progress (chunk : Value) (st : Synthesis) : Synthesis :=
  let st := (st.start chunk).noteUsage chunk
  match (firstChoice chunk).bind fun choice => (choice.get "delta").bind Value.asObject with
  | some delta => st.handleDelta delta
  | none => st

/-- A chunk that reports no error makes progress, and ends the response when it gives the
reason. -/
theorem handleChunk_eq {chunk : Value} (h : chunkError chunk = none) (st : Synthesis) :
    st.handleChunk serde chunk =
      match finishReason chunk with
      | some reason => (st.progress chunk).complete serde (some reason)
      | none => st.progress chunk := by
  unfold handleChunk
  rw [show (chunk.get "error").filter (fun error => !error.isNull) = none from h]
  dsimp only
  unfold progress finishReason
  cases firstChoice chunk with
  | none => rfl
  | some choice =>
    cases hdelta : (choice.get "delta").bind Value.asObject <;>
      cases hreason : nonEmptyStr (choice.get "finish_reason") <;>
      simp only [Option.bind_some, hdelta, hreason]

/-- Progress is the start of the response and some steps. -/
theorem progress_moves (chunk : Value) (st : Synthesis) :
    Moves serde (st.start chunk) (st.progress chunk) := by
  have husage : Moves serde (st.start chunk) ((st.start chunk).noteUsage chunk) := by
    unfold noteUsage
    split
    · exact .single (.usage _)
    · exact .refl
  unfold progress
  dsimp only
  split
  · exact husage.trans (handleDelta_moves serde _ _)
  · exact husage

/-- Ending all items is a sequence of steps. -/
theorem close_all_steps (st : Synthesis) :
    Steps serde st (st.closeReasoning.closeMessage.closeToolCalls serde) :=
  ((closeItem_steps serde .reasoning st).trans (closeItem_steps serde .message _)).trans
    (closeToolCalls_steps serde _)

end MuseCodex.Zai.Synthesis
