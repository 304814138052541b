import MuseCodex.Json.Least
import MuseCodex.Looping
import MuseCodex.Zai.Calls
import MuseCodex.Zai.Fed

/-!
# The counters of the synthesizer and the bytes received

The sequence number and the output index go up by one at a time. `Synthesis.load` adds to them the
events that are still due: three for an item that is being sent, which its end will take, and as
many for a call that is announced. A step raises the load by no more than the bytes that it was
given: ending an item raises it by nothing, since its events were due, and a piece of text or a
fragment of a call raises it by less than the size of the JSON that carries it. So the counters stay
below the number of bytes received (`fed_load_le`).

The sum of the two token counts of a chunk is the one addition whose operands are numbers of the
body. It is taken without a check, so the reported total is exact only when it fits 64 bits
(`fed_arithmetic`).
-/

namespace MuseCodex.Zai

open Text Json

/-- The events that are due for a call: those of its end, once it is announced, and that of its
announcement, once it can be. -/
def PendingCall.due (call : PendingCall) : ℕ :=
  if call.announced then 3 else if call.encodedName ≠ "" ∧ call.callId ≠ "" then 4 else 0

namespace Synthesis

/-- The events that are due for the item of a channel. -/
def slotDue (item : Option TextItem) : ℕ := if item.isSome then 3 else 0

/-- The indices and the sequence numbers that are taken, and the events that are due. -/
def load (st : Synthesis) : ℕ :=
  st.sequence + st.nextOutputIndex + slotDue st.reasoning + slotDue st.message +
    (st.calls.map PendingCall.due).sum

/-- An event is charged one. -/
@[simp] theorem load_emit (kind : String) (body : List (String × Value)) (st : Synthesis) :
    (st.emit kind body).load = st.load + 1 := by
  simp only [load, emit]
  omega

/-- An open item counts for the events that close it. -/
theorem load_setSlot (c : Channel) (item : Option TextItem) (st : Synthesis) :
    (st.setSlot c item).load + slotDue (st.slot c) = st.load + slotDue item := by
  cases c <;> simp only [load, setSlot, slot] <;> omega

/-! ## Reasoning and text -/

/-- An item that is opened is charged six at most: two events now, and those that close it. -/
theorem load_openItem (c : Channel) (st : Synthesis) : (st.openItem c).load ≤ st.load + 6 := by
  unfold openItem
  cases hslot : st.slot c with
  | some item => exact Nat.le_add_right _ _
  | none =>
    dsimp only
    generalize hst' : emit _ _ (emit _ _ _) = st'
    have hload : st'.load = st.load + 3 := by
      rw [← hst', load_emit, load_emit]
      simp only [load]
      omega
    have hnone : st'.slot c = none := by
      rw [← hst', slot_emit, slot_emit, ← hslot]
      cases c <;> rfl
    have hset := load_setSlot c
      (some ⟨st.itemId c.idTag st.nextOutputIndex, st.nextOutputIndex, ""⟩) st'
    rw [hnone] at hset
    simp only [slotDue, Option.isSome_none, Option.isSome_some, Bool.false_eq_true, if_true,
      if_false] at hset
    omega

/-- A text that goes on is charged one event. -/
theorem load_extendItem (c : Channel) (delta : String) (st : Synthesis) :
    (st.extendItem c delta).load ≤ st.load + 1 := by
  unfold extendItem
  cases hslot : st.slot c with
  | none => exact Nat.le_add_right _ _
  | some current =>
    have hset := load_setSlot c (some { current with text := current.text ++ delta }) st
    rw [hslot] at hset
    simp only [slotDue, Option.isSome_some, if_true] at hset
    dsimp only
    rw [load_emit]
    omega

/-- The events of the end of an item were due. -/
theorem load_closeItem (c : Channel) (st : Synthesis) : (st.closeItem c).load = st.load := by
  unfold closeItem
  cases hslot : st.slot c with
  | none => rfl
  | some current =>
    have hset := load_setSlot c none st
    rw [hslot] at hset
    simp only [slotDue, Option.isSome_none, Option.isSome_some, Bool.false_eq_true, if_true,
      if_false] at hset
    dsimp only
    generalize hst' : emit _ _ (emit _ _ (emit _ _ (setSlot c none st))) = st'
    have hload : st'.load = (st.setSlot c none).load + 3 := by
      rw [← hst', load_emit, load_emit, load_emit]
    change st'.load = st.load
    omega

/-- A piece of reasoning is charged seven at most. -/
theorem load_pushReasoning (delta : String) (st : Synthesis) :
    (st.pushReasoning delta).load ≤ st.load + 7 := by
  have hextend := load_extendItem .reasoning delta (st.closeMessage.openItem .reasoning)
  have hopen := load_openItem .reasoning st.closeMessage
  have hclose : st.closeMessage.load = st.load := load_closeItem .message st
  rw [pushReasoning]
  omega

/-- A piece of text is charged seven at most. -/
theorem load_pushText (delta : String) (st : Synthesis) :
    (st.pushText delta).load ≤ st.load + 7 := by
  have hextend := load_extendItem .message delta (st.closeReasoning.openItem .message)
  have hopen := load_openItem .message st.closeReasoning
  have hclose : st.closeReasoning.load = st.load := load_closeItem .reasoning st
  rw [pushText]
  omega

/-! ## Tool calls -/

/-- A call is due four at most. -/
theorem due_le (call : PendingCall) : call.due ≤ 4 := by
  unfold PendingCall.due
  split_ifs <;> omega

/-- Setting one entry of a list changes a sum over it by that entry only. -/
theorem sum_set {α : Type} (weight : α → ℕ) (d : α) {l : List α} {i : ℕ} (hi : i < l.length)
    (a : α) : ((l.set i a).map weight).sum + weight (l.getD i d) = (l.map weight).sum + weight a := by
  induction l generalizing i with
  | nil => cases hi
  | cons b l ih =>
    cases i with
    | zero =>
      simp only [List.set_cons_zero, List.map_cons, List.sum_cons, List.getD_cons_zero]
      omega
    | succ i =>
      have hrest := ih (Nat.lt_of_succ_lt_succ hi)
      simp only [List.set_cons_succ, List.map_cons, List.sum_cons, List.getD_cons_succ]
      omega

/-- A call counts for what it is due. -/
theorem load_setCall {index : ℕ} {st : Synthesis} (hi : index < st.calls.length)
    (entry : PendingCall) :
    (st.setCall index entry).load + (st.callAt index).due = st.load + entry.due := by
  have hsum := sum_set PendingCall.due {} hi entry
  simp only [load, setCall, callAt]
  omega

/-- What else is known of a call does not count. -/
theorem load_setCall_of_due {index : ℕ} {st : Synthesis} (hi : index < st.calls.length)
    {entry : PendingCall} (h : entry.due = (st.callAt index).due) :
    (st.setCall index entry).load = st.load := by
  have hset := load_setCall hi entry
  omega

/-- An empty entry is not due anything. -/
theorem load_growCalls (index : ℕ) (st : Synthesis) : (st.growCalls index).load = st.load := by
  have hempty : PendingCall.due {} = 0 := by decide
  simp [load, growCalls, hempty]

/-- A call that is given its place is charged one. -/
theorem load_reserveCall {index : ℕ} {st : Synthesis} (hi : index < st.calls.length) :
    (st.reserveCall index).load ≤ st.load + 1 := by
  unfold reserveCall
  dsimp only
  split_ifs
  · generalize hst' : ({ st with nextOutputIndex := st.nextOutputIndex + 1 } : Synthesis) = st'
    have hload : st'.load = st.load + 1 := by
      rw [← hst']
      simp only [load]
      omega
    have hat : st'.callAt index = st.callAt index := by
      rw [← hst']
      rfl
    have hlength : index < st'.calls.length := by
      rw [← hst']
      exact hi
    rw [← hload]
    refine le_of_eq (load_setCall_of_due hlength ?_)
    rw [hat]
    rfl
  · exact Nat.le_add_right _ _

/-- A step that changes what is known of one call, and the events that are due for it with that. -/
def Recharges (index : ℕ) (st st' : Synthesis) : Prop :=
  st'.calls.length = st.calls.length ∧
    st'.load + (st.callAt index).due = st.load + (st'.callAt index).due

/-- Doing nothing charges nothing. -/
theorem recharges_refl (index : ℕ) (st : Synthesis) : Recharges index st st := ⟨rfl, rfl⟩

/-- Setting a call charges what it is due. -/
theorem recharges_setCall {index : ℕ} {st : Synthesis} (hi : index < st.calls.length)
    (entry : PendingCall) : Recharges index st (st.setCall index entry) := by
  refine ⟨calls_setCall_length index entry st, ?_⟩
  rw [callAt_setCall hi]
  exact load_setCall hi entry

/-- Two steps that charge one call only charge it only. -/
theorem Recharges.trans {index : ℕ} {st st' st'' : Synthesis} (h : Recharges index st st')
    (h' : Recharges index st' st'') : Recharges index st st'' := by
  obtain ⟨hlength, hload⟩ := h
  obtain ⟨hlength', hload'⟩ := h'
  exact ⟨hlength'.trans hlength, by omega⟩

/-- Taking an id charges one call only. -/
theorem identifyCall_recharges {index : ℕ} {st : Synthesis} (hi : index < st.calls.length)
    (call : Value) : Recharges index st (st.identifyCall index call) := by
  unfold identifyCall
  dsimp only
  cases nonEmptyStr (call.get "id") with
  | none => exact recharges_refl index st
  | some callId =>
    dsimp only
    split_ifs
    · exact recharges_setCall hi _
    · exact recharges_refl index st

/-- Taking a name charges one call only. -/
theorem nameCall_recharges {index : ℕ} {st : Synthesis} (hi : index < st.calls.length)
    (call : Value) : Recharges index st (st.nameCall index call) := by
  unfold nameCall
  dsimp only
  cases functionStr "name" call with
  | none => exact recharges_refl index st
  | some name =>
    dsimp only
    split_ifs
    · exact recharges_setCall hi _
    · exact recharges_refl index st

/-- The announcement of a call was due. -/
theorem load_announceCall {index : ℕ} {st : Synthesis} (hi : index < st.calls.length) :
    (st.announceCall index).load = st.load := by
  unfold announceCall
  dsimp only
  split_ifs with h
  · simp only [Bool.and_eq_true, Bool.not_eq_true', decide_eq_true_eq] at h
    have hbefore : (st.callAt index).due = 4 := by
      rw [PendingCall.due, if_neg (by simp [h.1.1]), if_pos ⟨h.1.2, h.2⟩]
    have hset := load_setCall hi { st.callAt index with announced := true }
    rw [hbefore, show PendingCall.due { st.callAt index with announced := true } = 3 from rfl]
      at hset
    rw [load_emit]
    exact Nat.succ_injective (Nat.succ_injective (Nat.succ_injective hset))
  · rfl

/-- Arguments take at most the event that sends them. -/
theorem load_pushArguments {index : ℕ} {st : Synthesis} (hi : index < st.calls.length)
    (call : Value) : (st.pushArguments index call).load ≤
      st.load + if (functionStr "arguments" call).isSome then 1 else 0 := by
  unfold pushArguments
  dsimp only
  cases functionStr "arguments" call with
  | none => exact Nat.le_add_right _ _
  | some fragment =>
    have hset : (st.setCall index
        { st.callAt index with arguments := (st.callAt index).arguments ++ fragment }).load =
          st.load := load_setCall_of_due hi rfl
    dsimp only
    simp only [Option.isSome_some, if_true]
    split_ifs
    · rw [load_emit, hset]
    · rw [hset]
      exact Nat.le_add_right _ _

/-- A fragment raises the load by no more than its size: it can take an output index, and, when it
is an object that has something to say, make a call ready and send arguments. -/
theorem load_pushToolCall (call : Value) (st : Synthesis) :
    (st.pushToolCall call).load ≤ st.load + call.leastSize := by
  have hclosed : st.closeReasoning.closeMessage.load = st.load :=
    (load_closeItem .message _).trans (load_closeItem .reasoning st)
  have hgrown := load_growCalls (callIndex call) st.closeReasoning.closeMessage
  have hi := growCalls_length (callIndex call) st.closeReasoning.closeMessage
  unfold pushToolCall
  dsimp only
  generalize st.closeReasoning.closeMessage.growCalls (callIndex call) = grown at *
  have hreserved := load_reserveCall hi
  rw [← reserveCall_length] at hi
  generalize grown.reserveCall (callIndex call) = reserved at *
  have hidentified := identifyCall_recharges hi call
  have hnamed := hidentified.trans (nameCall_recharges (hidentified.1.symm ▸ hi) call)
  have hlength := hnamed.1.symm ▸ hi
  have hannounced := load_announceCall hlength
  have hsent := load_pushArguments (by rwa [(announceCall_edits hlength).length]) call
  -- The announcement was paid for when the entry was reserved.
  have hready := due_le
    (((reserved.identifyCall (callIndex call) call).nameCall (callIndex call) call).callAt
      (callIndex call))
  have hrecharged := hnamed.2
  have hpos := leastSize_pos call
  -- An id, a name or a piece of the arguments takes at least six bytes.
  have hid (callId : String) (h : nonEmptyStr (call.get "id") = some callId) :
      6 ≤ call.leastSize := by
    obtain ⟨v, hv, -⟩ := Option.bind_eq_some_iff.mp (Option.filter_eq_some_iff.mp h).1
    have := leastSize_of_get hv
    have := leastSize_pos v
    omega
  have hfunction (key text : String) (h : functionStr key call = some text) :
      6 ≤ call.leastSize := by
    obtain ⟨m, hm, -⟩ := Option.bind_eq_some_iff.mp (Option.filter_eq_some_iff.mp h).1
    obtain ⟨function, hf, -⟩ := Option.bind_eq_some_iff.mp hm
    obtain ⟨v, hv, -⟩ := Option.bind_eq_some_iff.mp hf
    have := leastSize_of_get hv
    have := leastSize_pos v
    omega
  by_cases hsays : 6 ≤ call.leastSize
  · split_ifs at hsent <;> omega
  · -- A fragment that says nothing leaves its call as it is.
    have hnoId : nonEmptyStr (call.get "id") = none :=
      Option.eq_none_iff_forall_ne_some.mpr fun callId h => hsays (hid callId h)
    have hnone (key : String) : functionStr key call = none :=
      Option.eq_none_iff_forall_ne_some.mpr fun text h => hsays (hfunction key text h)
    have hsame : (reserved.identifyCall (callIndex call) call).nameCall (callIndex call) call =
        reserved := by
      simp only [identifyCall, nameCall, hnoId, hnone]
    rw [hnone, hsame] at hsent
    rw [hsame] at hannounced ⊢
    simp only [Option.isSome_none, Bool.false_eq_true, if_false] at hsent
    omega

/-! ## Chunks -/

/-- A chunk's reasoning, text, and fragments raise the load by no more than the size of its
delta. -/
theorem load_handleDelta (delta : Map Value) (st : Synthesis) :
    (st.handleDelta delta).load ≤ st.load + entriesLeastSize delta := by
  -- The three members are told apart, so that each pays for its own part.
  have hkeys := memberLeastSize_sum_le delta
    (show ["reasoning_content", "content", "tool_calls"].Nodup by decide)
  simp only [List.map_cons, List.map_nil, List.sum_cons, List.sum_nil] at hkeys
  have htext (key : String) (hkey : 4 ≤ key.utf8ByteSize) (text : String)
      (h : nonEmptyStr (delta.get key) = some text) : 7 ≤ memberLeastSize delta key := by
    obtain ⟨v, hv, -⟩ := Option.bind_eq_some_iff.mp (Option.filter_eq_some_iff.mp h).1
    rw [memberLeastSize, hv]
    dsimp only
    omega
  have hcalls (st : Synthesis) :
      ((((delta.get "tool_calls").bind Value.asArray).getD []).foldl
        (fun st call => st.pushToolCall call) st).load ≤
          st.load + memberLeastSize delta "tool_calls" := by
    refine (Looping.foldl_le_charges (fun st call => load_pushToolCall call st) _ st).trans
      (Nat.add_le_add_left ?_ _)
    have hsum (vs : List Value) : (vs.map Value.leastSize).sum = itemsLeastSize vs := by
      induction vs with
      | nil => rfl
      | cons v vs ih => rw [List.map_cons, List.sum_cons, ih, itemsLeastSize]
    rw [hsum, memberLeastSize]
    cases delta.get "tool_calls" with
    | none => exact Nat.zero_le _
    | some v =>
      cases v with
      | array items =>
        simp only [Option.bind_some, Value.asArray_array, Option.getD_some, Value.leastSize]
        omega
      | null | bool | number | string | object => exact Nat.zero_le _
  unfold handleDelta
  dsimp only
  cases hreasoning : nonEmptyStr (delta.get "reasoning_content") with
  | none =>
    cases hcontent : nonEmptyStr (delta.get "content") with
    | none =>
      have := hcalls st
      dsimp only
      omega
    | some content =>
      have := hcalls (st.pushText content)
      have := load_pushText content st
      have := htext "content" (by decide) content hcontent
      dsimp only
      omega
  | some reasoning =>
    have := load_pushReasoning reasoning st
    have := htext "reasoning_content" (by decide) reasoning hreasoning
    cases hcontent : nonEmptyStr (delta.get "content") with
    | none =>
      have := hcalls (st.pushReasoning reasoning)
      dsimp only
      omega
    | some content =>
      have := hcalls ((st.pushReasoning reasoning).pushText content)
      have := load_pushText content (st.pushReasoning reasoning)
      have := htext "content" (by decide) content hcontent
      dsimp only
      omega

/-- The start of a response is charged two. -/
theorem load_start (chunk : Value) (st : Synthesis) : (st.start chunk).load ≤ st.load + 2 := by
  unfold start
  split_ifs
  · exact Nat.le_add_right _ _
  · dsimp only
    rw [load_emit, load_emit]
    exact Nat.le_refl _

/-- The usage is not charged. -/
theorem load_noteUsage (chunk : Value) (st : Synthesis) : (st.noteUsage chunk).load = st.load := by
  unfold noteUsage
  split <;> rfl

/-- The delta of a chunk is a part of it. -/
theorem entriesLeastSize_delta_le {chunk : Value} {delta : Map Value}
    (h : (firstChoice chunk).bind (fun choice => (choice.get "delta").bind Value.asObject) =
      some delta) : entriesLeastSize delta ≤ chunk.leastSize := by
  obtain ⟨choice, hchoice, hdelta⟩ := Option.bind_eq_some_iff.mp h
  obtain ⟨v, hv, hobject⟩ := Option.bind_eq_some_iff.mp hdelta
  obtain ⟨items, hitems, hhead⟩ := Option.bind_eq_some_iff.mp hchoice
  obtain ⟨choices, hchoices, harray⟩ := Option.bind_eq_some_iff.mp hitems
  have hobject := Value.asObject_eq_some hobject
  have harray := Value.asArray_eq_some harray
  have hmember := leastSize_of_get hv
  have hitem := leastSize_le_of_mem (List.mem_of_head? hhead)
  have hchunk := leastSize_of_get hchoices
  rw [hobject, Value.leastSize] at hmember
  rw [harray, Value.leastSize] at hchunk
  omega

/-- A chunk is charged two for the start, and no more than its own size for what it brings. -/
theorem load_progress (chunk : Value) (st : Synthesis) :
    (st.progress chunk).load ≤ st.load + 2 + chunk.leastSize := by
  have hstart := load_start chunk st
  have husage := load_noteUsage chunk (st.start chunk)
  unfold progress
  dsimp only
  cases hdelta : (firstChoice chunk).bind fun choice => (choice.get "delta").bind Value.asObject with
  | none =>
    dsimp only
    omega
  | some delta =>
    have hsize := entriesLeastSize_delta_le hdelta
    have hload := load_handleDelta delta ((st.start chunk).noteUsage chunk)
    dsimp only
    omega

/-! ## The end of the response -/

/-- A failure is charged one. -/
theorem load_fail (message : String) (st : Synthesis) : (st.fail message).load ≤ st.load + 1 := by
  unfold fail
  by_cases h : st.terminated
  · rw [if_pos h]
    exact Nat.le_add_right _ _
  · rw [if_neg h]
    simp only [load, emit]
    omega

variable (serde : Serde)

/-- The events of the end of a call. -/
theorem load_closeToolCall (st : Synthesis) (call : PendingCall) :
    (closeToolCall serde st call).load ≤ st.load + 3 := by
  unfold closeToolCall
  dsimp only
  split_ifs
  · simp only [load, emit]
    omega
  · simp only [load, emit]
    omega

/-- The events of the ends of the calls were due. -/
theorem load_closeToolCalls (st : Synthesis) : (st.closeToolCalls serde).load ≤ st.load := by
  have hdue (calls : List PendingCall) :
      ((calls.filter (·.announced)).map fun _ => 3).sum ≤ (calls.map PendingCall.due).sum := by
    induction calls with
    | nil => exact Nat.le_refl _
    | cons call calls ih =>
      rw [List.map_cons, List.sum_cons, List.filter_cons]
      split_ifs with h
      · rw [List.map_cons, List.sum_cons, PendingCall.due, if_pos h]
        omega
      · omega
  have hfold := Looping.foldl_le_charges (load_closeToolCall serde)
    (st.calls.filter (·.announced)) { st with calls := [] }
  have hcalls := hdue st.calls
  have hnone : load { st with calls := [] } + (st.calls.map PendingCall.due).sum = st.load := by
    simp only [load, List.map_nil, List.sum_nil]
    omega
  rw [closeToolCalls]
  omega

/-- A completion is charged one: what it closes was charged before. -/
theorem load_complete (reason : Option String) (st : Synthesis) :
    (st.complete serde reason).load ≤ st.load + 1 := by
  unfold complete
  split_ifs
  · exact Nat.le_add_right _ _
  · exact load_fail _ st
  · have hcalls := load_closeToolCalls serde st.closeReasoning.closeMessage
    have hclosed : st.closeReasoning.closeMessage.load = st.load :=
      (load_closeItem .message _).trans (load_closeItem .reasoning st)
    have hfinish (st : Synthesis) : (st.finish reason).load = st.load + 1 := by
      simp only [load, finish, emit]
      omega
    rw [hfinish]
    omega

/-- The bytes that pay for a signal. -/
def charge : Signal → ℕ
  | .chunk chunk => 3 + chunk.leastSize
  | .done | .fault _ => 1

/-- A signal is charged as it says. -/
theorem load_accept (signal : Signal) (st : Synthesis) :
    (st.accept serde signal).load ≤ st.load + charge signal := by
  cases signal with
  | done => exact load_complete serde none st
  | fault message => exact load_fail message st
  | chunk chunk =>
    rw [accept, charge]
    cases herror : chunkError chunk with
    | some error =>
      have hfail := load_fail
        (((error.get "message").bind Value.asStr).getD "the Z.ai stream reported an error") st
      rw [handleChunk, show (chunk.get "error").filter (fun error => !error.isNull) = some error
        from herror]
      dsimp only
      omega
    | none =>
      have hprogress := load_progress chunk st
      rw [handleChunk_eq serde herror]
      cases finishReason chunk with
      | none =>
        dsimp only
        omega
      | some reason =>
        have hcomplete := load_complete serde (some reason) (st.progress chunk)
        dsimp only
        omega

/-- The signals that are taken in pay for what they do. -/
theorem load_hear (signals : List Signal) (st : Synthesis) :
    (st.hear serde signals).load ≤ st.load + (signals.map charge).sum := by
  induction signals generalizing st with
  | nil => exact Nat.le_refl _
  | cons signal signals ih =>
    have haccept := load_accept serde signal st
    have hrest := ih (st.accept serde signal)
    rw [hear, List.map_cons, List.sum_cons]
    split_ifs <;> omega

end Synthesis

/-! ## The bytes of a frame -/

open String (utf8Len)

/-- What is left of a text is no longer than the text. -/
theorem utf8ByteSize_stripPrefix_le (c : Char) (s : String) :
    ((stripPrefix c s).getD s).utf8ByteSize ≤ s.utf8ByteSize := by
  unfold stripPrefix
  cases hs : s.toList with
  | nil => exact Nat.le_refl _
  | cons d cs =>
    dsimp only
    split_ifs
    · rw [Option.getD_some, String.utf8ByteSize_ofList, ← String.utf8Len_toList s, hs,
        String.utf8Len_cons]
      exact Nat.le_add_right _ _
    · exact Nat.le_refl _

/-- The pieces of a text between its line feeds are made of its bytes. -/
theorem utf8Len_splitChars_le (p : Char → Bool) (cs : List Char) :
    ((splitChars p cs).map utf8Len).sum ≤ utf8Len cs := by
  induction cs with
  | nil => exact Nat.le_refl _
  | cons c cs ih =>
    rw [splitChars, String.utf8Len_cons]
    split_ifs
    · rw [List.map_cons, List.sum_cons, String.utf8Len_nil]
      omega
    · split
      · rename_i hnil
        exact absurd hnil (splitChars_ne_nil p cs)
      · rename_i piece pieces heq
        rw [heq, List.map_cons, List.sum_cons] at ih
        rw [List.map_cons, List.sum_cons, String.utf8Len_cons]
        omega

/-- The lines of a text are made of its bytes. -/
theorem utf8ByteSize_lines_le (s : String) :
    ((lines s).map String.utf8ByteSize).sum ≤ s.utf8ByteSize := by
  have hpieces := utf8Len_splitChars_le (· = '\n') s.toList
  rw [String.utf8Len_toList] at hpieces
  refine le_trans ?_ hpieces
  have hne := splitChars_ne_nil (· = '\n') s.toList
  unfold lines
  dsimp only
  generalize splitChars (· = '\n') s.toList = pieces at hne ⊢
  obtain ⟨front, last, rfl⟩ : ∃ front last, pieces = front ++ [last] :=
    ⟨pieces.dropLast, pieces.getLast hne, (List.dropLast_append_getLast hne).symm⟩
  have hstrip (piece : List Char) :
      utf8Len (if piece.getLast? = some '\r' then piece.dropLast else piece) ≤ utf8Len piece := by
    split_ifs with hlast
    · have hpiece := congrArg utf8Len (List.dropLast_append_getLast? '\r' hlast)
      rw [String.utf8Len_append] at hpiece
      omega
    · exact Nat.le_refl _
  have hfront : ((front.map fun piece =>
      if piece.getLast? = some '\r' then piece.dropLast else piece).map utf8Len).sum ≤
        (front.map utf8Len).sum := by
    rw [List.map_map]
    exact List.sum_le_sum fun piece _ => hstrip piece
  rw [List.dropLast_concat, List.getLast?_concat, Option.getD_some, List.map_append, List.sum_append,
    List.map_singleton, List.sum_singleton, List.map_map]
  have hsize : (String.utf8ByteSize ∘ String.ofList) = utf8Len :=
    funext fun cs => String.utf8ByteSize_ofList cs
  rw [hsize]
  split_ifs
  · omega
  · rw [List.map_append, List.sum_append, List.map_singleton, List.sum_singleton]
    omega

/-- A line that carries data is longer than its value, by the name of the field and its colon. -/
theorem utf8ByteSize_dataValue {line value : String} (h : dataValue line = some value) :
    value.utf8ByteSize + 5 ≤ line.utf8ByteSize := by
  obtain ⟨rest, hrest, rfl⟩ := Option.map_eq_some_iff.mp h
  have hstart := congrArg String.utf8ByteSize (stripText_eq_some.mp hrest)
  have hmark := utf8ByteSize_stripPrefix_le '\ufeff' line
  have hblank := utf8ByteSize_stripPrefix_le ' ' rest
  have hfield : "data:".utf8ByteSize = 5 := by decide
  rw [String.utf8ByteSize_append, hfield] at hstart
  omega

/-- The data of a frame is shorter than its text, since each line names the field. -/
theorem utf8ByteSize_frameData (text : String) :
    frameData text = "" ∨ (frameData text).utf8ByteSize + 4 ≤ text.utf8ByteSize := by
  -- Each line pays for its value, and for the line feed before it.
  have hfold (ls : List String) (data : String) (n : ℕ)
      (hdata : data = "" ∨ data.utf8ByteSize + 4 ≤ n) :
      ls.foldl readLine data = "" ∨
        (ls.foldl readLine data).utf8ByteSize + 4 ≤ n + (ls.map String.utf8ByteSize).sum := by
    induction ls generalizing data n with
    | nil => exact hdata
    | cons line ls ih =>
      rw [List.foldl_cons, List.map_cons, List.sum_cons, ← Nat.add_assoc]
      refine ih _ _ ?_
      rw [readLine_eq]
      cases hvalue : dataValue line with
      | none =>
        refine hdata.imp_right fun hle => ?_
        rw [addData]
        omega
      | some value =>
        have hline := utf8ByteSize_dataValue hvalue
        have hlf : "\n".utf8ByteSize = 1 := by decide
        rw [addData]
        by_cases hempty : data = ""
        · right
          rw [if_pos hempty, hempty, String.empty_append]
          omega
        · right
          have hle := hdata.resolve_left hempty
          rw [if_neg hempty, String.utf8ByteSize_append, String.utf8ByteSize_append, hlf]
          omega
  have hlines := utf8ByteSize_lines_le text
  refine (hfold (lines text) "" 0 (.inl rfl)).imp_right fun hle => ?_
  rw [frameData]
  omega

section

variable {serde : Serde} (hserde : serde.Spelled)

include hserde

/-- A frame pays for its signal. -/
theorem charge_frameSignal {frame : Bytes} {signal : Signal}
    (h : frameSignal serde frame = some signal) : Synthesis.charge signal ≤ frame.length := by
  have hpos : 1 ≤ frame.length := by
    rcases Nat.eq_zero_or_pos frame.length with hzero | hpos
    · -- An empty frame carries no data.
      rw [List.length_eq_zero_iff.mp hzero] at h
      have hnone : frameSignal serde [] = none := by
        unfold frameSignal
        rw [show fromUtf8 [] = some "" from fromUtf8_toUtf8 ""]
        rfl
      rw [hnone] at h
      cases h
    · exact hpos
  unfold frameSignal at h
  cases htext : fromUtf8 frame with
  | none =>
    rw [htext] at h
    cases h
    exact hpos
  | some text =>
    rw [htext] at h
    dsimp only at h
    split_ifs at h with hempty
    · cases h
      exact hpos
    · have hdata := (utf8ByteSize_frameData text).resolve_left hempty
      rw [← toUtf8_length text, ← fromUtf8_eq_some htext] at hdata
      cases hparse : serde.fromStr (frameData text) with
      | error error =>
        rw [hparse] at h
        cases h
        exact hpos
      | ok chunk =>
        rw [hparse] at h
        cases h
        have hsize := hserde _ _ hparse
        rw [Synthesis.charge]
        omega

/-- All frames together are charged no more than their bytes. -/
theorem charge_frames (frames : List Bytes) :
    ((frames.filterMap (frameSignal serde)).map Synthesis.charge).sum ≤ frames.flatten.length := by
  induction frames with
  | nil => exact Nat.le_refl _
  | cons frame frames ih =>
    rw [filterMap_frameSignal_cons, List.map_append, List.sum_append, List.flatten_cons,
      List.length_append]
    cases hsignal : frameSignal serde frame with
    | none =>
      simp only [Option.toList_none, List.map_nil, List.sum_nil]
      omega
    | some signal =>
      have hframe := charge_frameSignal hserde hsignal
      simp only [Option.toList_some, List.map_cons, List.map_nil, List.sum_cons, List.sum_nil]
      omega

/-- The bytes that are received pay for all signals but a fault of the upstream body, which is the
last one. -/
theorem charge_signals (buffer : Bytes) (polls : List Poll) :
    ((signals serde buffer polls).map Synthesis.charge).sum ≤
      buffer.length + received polls + 1 := by
  induction polls generalizing buffer with
  | nil => exact Nat.zero_le _
  | cons polled polls ih =>
    rw [received_cons]
    cases polled with
    | error message =>
      simp only [signals, List.map_cons, List.map_nil, List.sum_cons, List.sum_nil,
        Synthesis.charge]
      omega
    | chunk bytes =>
      rw [signals, Poll.bytes]
      split_ifs
      · simp only [List.map_cons, List.map_nil, List.sum_cons, List.sum_nil, Synthesis.charge]
        omega
      · have hframes := charge_frames hserde (scanner.frames (buffer ++ bytes))
        have hrest := ih (scanner.rest (buffer ++ bytes))
        have hcut := congrArg List.length
          (Framing.Scanner.frames_flatten_rest (s := scanner) (buffer ++ bytes))
        rw [List.length_append, List.length_append] at hcut
        rw [List.map_append, List.sum_append]
        omega

/-- After some polls, what has been numbered and what is still due is no more than the bytes that
were received, and one event for a fault of the upstream body. -/
theorem fed_load_le (polls : List Poll) (model requestKey : String) (tools : ToolNames) :
    (({ model, requestKey, tools } : State).fed serde polls).load ≤ received polls + 1 := by
  have hfed := State.fed_spec serde polls
    (show ({ model, requestKey, tools } : State).GoesOn from ⟨rfl, rfl⟩)
  have hhear := Synthesis.load_hear serde (signals serde [] polls) { model, requestKey, tools }
  have hcharge := charge_signals hserde [] polls
  have hfresh : Synthesis.load { model, requestKey, tools } = 0 := rfl
  have hload := congrArg Synthesis.load hfed
  dsimp only at hload
  rw [hload]
  rw [List.length_nil] at hcharge
  omega

/-- After the whole body, what has been numbered is no more than the bytes that were received, one
event for a fault of the upstream body, and one for its end. -/
theorem replay_load_le (upstream : List Poll) (model requestKey : String) (tools : ToolNames) :
    (Synthesis.replay serde (transcript serde upstream) { model, requestKey, tools }).load ≤
      received upstream + 2 := by
  have hon : Synthesis.GoesOn { model, requestKey, tools } := ⟨rfl, rfl⟩
  have hhear := Synthesis.load_hear serde (signals serde [] upstream) { model, requestKey, tools }
  have hcharge := charge_signals hserde [] upstream
  have hfresh : Synthesis.load { model, requestKey, tools } = 0 := rfl
  rw [List.length_nil] at hcharge
  rw [transcript, ← Synthesis.conclude_eq_replay serde (signals serde [] upstream) hon,
    Synthesis.conclude]
  split_ifs
  · omega
  · have hfail := Synthesis.load_fail "the Z.ai stream ended before a terminal event"
      (Synthesis.hear serde (signals serde [] upstream) { model, requestKey, tools })
    omega

end

end MuseCodex.Zai
