import MuseCodex.Zai.Calls
import MuseCodex.Zai.Fed

/-!
# The table of tool calls and the bytes received

`push_tool_call` makes room in the table of calls up to the index that a fragment carries. Nothing
else makes the table longer, and only the end of the response makes it shorter, so `peak` is the
largest number of entries that it has had, at the end of a poll or within one (`fed_calls_le`,
`pushToolCall_length`). Up to any part of the upstream body that is no more than the bytes that
were received, and each loop that makes room has ended, exactly when no fragment carries an index
as large as the number of these bytes, or the largest index there is (`fed_calls_bounded`). The
index is a number of the body, not a count of what it holds, so a small frame can ask for a table of
any length (`fed_calls_unbounded`).
-/

namespace MuseCodex.Zai

open Text Json

namespace Synthesis

/-! ## One fragment -/

/-- Making room is the loop of the source: one empty entry after the other, as long as there is none
at the index. -/
theorem growCalls_loop (index : ℕ) (st : Synthesis) :
    st.growCalls index = if st.calls.length ≤ index
      then ({ st with calls := st.calls ++ [{}] } : Synthesis).growCalls index
      else { st with peak := max st.peak (index + 1) } := by
  split_ifs with h
  · obtain ⟨n, hn⟩ := Nat.exists_eq_add_of_le h
    have hleft : index + 1 - st.calls.length = n + 1 := by omega
    have hright : index + 1 - (st.calls.length + 1) = n := by omega
    simp only [growCalls, List.length_append, List.length_singleton, hleft, hright,
      List.replicate_succ, List.append_assoc, List.singleton_append]
  · have hnone : index + 1 - st.calls.length = 0 := by omega
    simp only [growCalls, hnone, List.replicate_zero, List.append_nil]

/-- The table has the room that was asked for, or more. -/
theorem growCalls_length_eq (index : ℕ) (st : Synthesis) :
    (st.growCalls index).calls.length = max st.calls.length (index + 1) := by
  simp only [growCalls, List.length_append, List.length_replicate]
  omega

/-- The states in which a fragment reads or sets the call at its index. -/
def callSteps (call : Value) (st : Synthesis) : List Synthesis :=
  let index := callIndex call
  let grown := st.closeReasoning.closeMessage.growCalls index
  let reserved := grown.reserveCall index
  let identified := reserved.identifyCall index call
  let named := identified.nameCall index call
  [grown, reserved, identified, named, named.announceCall index]

/-- The table has the same length in all of them, and in the state that the fragment leads to. -/
theorem callSteps_length {call : Value} {st st' : Synthesis} (h : st' ∈ st.callSteps call) :
    st'.calls.length = max st.calls.length (callIndex call + 1) ∧
      (st.pushToolCall call).calls.length = st'.calls.length := by
  have hclosed : st.closeReasoning.closeMessage.calls = st.calls := by
    rw [closeMessage, closeItem_calls, closeReasoning, closeItem_calls]
  have hgrown := growCalls_length_eq (callIndex call) st.closeReasoning.closeMessage
  have hi := growCalls_length (callIndex call) st.closeReasoning.closeMessage
  have hreserved :=
    reserveCall_length (callIndex call) (st.closeReasoning.closeMessage.growCalls (callIndex call))
  rw [hclosed] at hgrown
  unfold callSteps at h
  unfold pushToolCall
  dsimp only at h ⊢
  generalize st.closeReasoning.closeMessage.growCalls (callIndex call) = grown at *
  rw [← hreserved] at hi
  generalize grown.reserveCall (callIndex call) = reserved at *
  have hidentified := (identifyCall_edits hi call).length
  rw [← hidentified] at hi
  generalize reserved.identifyCall (callIndex call) call = identified at *
  have hnamed := (nameCall_edits hi call).length
  rw [← hnamed] at hi
  generalize identified.nameCall (callIndex call) call = named at *
  have hannounced := (announceCall_edits hi).length
  rw [← hannounced] at hi
  generalize named.announceCall (callIndex call) = announced at *
  have hpushed := (pushArguments_edits hi call).length
  simp only [List.mem_cons, List.not_mem_nil, or_false] at h
  rcases h with rfl | rfl | rfl | rfl | rfl <;> omega

/-- A fragment makes room up to its index. -/
theorem pushToolCall_length (call : Value) (st : Synthesis) :
    (st.pushToolCall call).calls.length = max st.calls.length (callIndex call + 1) := by
  have hgrown : st.closeReasoning.closeMessage.growCalls (callIndex call) ∈ st.callSteps call :=
    List.mem_cons_self
  obtain ⟨hlength, heq⟩ := callSteps_length hgrown
  exact heq.trans hlength

/-! ## All steps -/

variable (serde : Serde)

/-- A step does not make the table longer. -/
theorem Step.calls_length_le {st st' : Synthesis} (h : Step serde st st') :
    st'.calls.length ≤ st.calls.length := by
  cases h with
  | openItem c h =>
    rw [Synthesis.openItem, h c]
    cases c <;> exact Nat.le_refl _
  | @extendItem c _ delta h =>
    rw [Synthesis.extendItem, h]
    cases c <;> exact Nat.le_refl _
  | closeItem h => rw [closeItem_calls]
  | reserveCall => rw [reserveCall_length]
  | updateCall => rw [calls_setCall_length]
  | announceCall => exact (calls_setCall_length _ _ st).le
  | sendArguments => exact Nat.le_refl _
  | @closeCall call calls hcalls h =>
    have hclosed : (closeToolCall serde { st with calls } call).calls = calls := by
      unfold closeToolCall
      dsimp only
      split_ifs <;> rfl
    rw [hcalls, hclosed]
    exact Nat.le_succ _
  | forgetCall hcalls h =>
    rw [hcalls]
    exact Nat.le_succ _

/-- The table has had as many entries as it has. -/
def WithinPeak (st : Synthesis) : Prop := st.calls.length ≤ st.peak

/-- A table stays within its peak. -/
theorem Moves.withinPeak {st st' : Synthesis} (h : Moves serde st st') (hst : st.WithinPeak) :
    st'.WithinPeak := by
  induction h with
  | refl => exact hst
  | tail _ hmove ih =>
    cases hmove with
    | usage => exact ih
    | growCalls index =>
      rw [WithinPeak, growCalls_length_eq]
      exact max_le_max ih (Nat.le_refl _)
    | step hstep =>
      have hlength := hstep.calls_length_le
      have hpeak := congrArg Account.peak hstep.account_eq
      exact (hlength.trans ih).trans_eq hpeak.symm

/-- The signals that are taken in leave the table within its peak. -/
theorem hear_withinPeak (signals : List Signal) {st : Synthesis} (hst : st.WithinPeak) :
    (st.hear serde signals).WithinPeak := by
  have hfail (message : String) {st : Synthesis} (hst : st.WithinPeak) :
      (st.fail message).WithinPeak := by
    unfold fail
    split_ifs <;> exact hst
  have hcomplete (reason : Option String) {st : Synthesis} (hst : st.WithinPeak) :
      (st.complete serde reason).WithinPeak := by
    unfold complete
    split_ifs
    · exact hst
    · exact hfail _ hst
    · -- The calls that are closed leave the table.
      have hclosed := Moves.withinPeak serde (Steps.moves serde (close_all_steps serde st)) hst
      exact hclosed
  have hprogress (chunk : Value) {st : Synthesis} (hst : st.WithinPeak) :
      (st.progress chunk).WithinPeak := by
    refine Moves.withinPeak serde (progress_moves serde chunk st) ?_
    unfold start
    split_ifs <;> exact hst
  induction signals generalizing st with
  | nil => exact hst
  | cons signal signals ih =>
    rw [hear]
    split_ifs
    · exact hst
    refine ih ?_
    cases signal with
    | done => exact hcomplete none hst
    | fault message => exact hfail message hst
    | chunk chunk =>
      rw [accept]
      cases herror : chunkError chunk with
      | some error =>
        rw [handleChunk, show (chunk.get "error").filter (fun error => !error.isNull) = some error
          from herror]
        exact hfail _ hst
      | none =>
        rw [handleChunk_eq serde herror]
        cases finishReason chunk with
        | none => exact hprogress chunk hst
        | some reason => exact hcomplete (some reason) (hprogress chunk hst)

end Synthesis

/-! ## A part of the body -/

/-- The table has no more entries than it ever had. -/
theorem fed_calls_le (serde : Serde) (polls : List Poll) (model requestKey : String)
    (tools : ToolNames) :
    (({ model, requestKey, tools } : State).fed serde polls).calls.length ≤
      (({ model, requestKey, tools } : State).fed serde polls).peak := by
  have hfed := State.fed_spec serde polls
    (show ({ model, requestKey, tools } : State).GoesOn from ⟨rfl, rfl⟩)
  have hwithin := Synthesis.hear_withinPeak serde (signals serde [] polls)
    (show Synthesis.WithinPeak { model, requestKey, tools } from Nat.le_refl 0)
  rw [← show _ = Synthesis.hear serde (signals serde [] polls) _ from hfed] at hwithin
  exact hwithin

/-- What the table was asked for up to some part of the body, as the fragments say. -/
theorem fed_peak_le (serde : Serde) (polls : List Poll) (model requestKey : String)
    (tools : ToolNames) (n : ℕ) :
    (({ model, requestKey, tools } : State).fed serde polls).peak ≤ n ↔
      ∀ call ∈ (transcript serde polls).taken.flatMap chunkFragments,
        Synthesis.callIndex call < n := by
  have hpeak := congrArg Synthesis.Account.peak (State.fed_account serde polls model requestKey tools)
  rw [show (({ model, requestKey, tools } : State).fed serde polls).peak = _ from hpeak]
  exact (Synthesis.peak_foldl_progress_le _ _ n).trans (and_iff_right (Nat.zero_le n))

/-- Up to any part of any upstream body, the table of calls has never had more entries than the
bytes received, and every loop that makes room in it has ended, exactly when no fragment that was
taken in carries an index as large as the number of these bytes, or the largest one there is. The
loop of a fragment adds the entries that are missing up to its index, and every access to the table
is in range. -/
theorem fed_calls_bounded (serde : Serde) (polls : List Poll) (model requestKey : String)
    (tools : ToolNames) :
    let st := ({ model, requestKey, tools } : State).fed serde polls
    st.calls.length ≤ st.peak ∧
    (st.peak ≤ received polls ∧ st.isStuck = false ↔
      ∀ call ∈ (transcript serde polls).taken.flatMap chunkFragments,
        Synthesis.callIndex call < received polls ∧ Synthesis.callIndex call < 2 ^ 64 - 1) ∧
    ∀ (st : Synthesis) (call : Value),
      (st.pushToolCall call).calls.length =
        st.calls.length + (Synthesis.callIndex call + 1 - st.calls.length) ∧
      (st.pushToolCall call).peak = max st.peak (Synthesis.callIndex call + 1) ∧
      ∀ st' ∈ st.callSteps call, Synthesis.callIndex call < st'.calls.length := by
  intro st
  refine ⟨fed_calls_le serde polls model requestKey tools, ?_, ?_⟩
  · rw [Synthesis.isStuck_eq_false, fed_peak_le, fed_peak_le, ← forall₂_and]
  · intro st call
    refine ⟨?_, congrArg Synthesis.Account.peak (Synthesis.account_pushToolCall call st), ?_⟩
    · rw [Synthesis.pushToolCall_length]
      omega
    · intro st' hst'
      have hlength := (Synthesis.callSteps_length hst').1
      omega

/-- A fragment with a large index. -/
def sparseCall : Value := .obj [("index", .ofNat 4000000000)]

/-- The delta of a chunk that carries it. -/
def sparseDelta : Map Value := Map.ofEntries [("tool_calls", .array [sparseCall])]

/-- A chunk that carries nothing else. -/
def sparseChunk : Value := .obj [("choices", .array [.obj [("delta", .object sparseDelta)]])]

/-- A completion of one small frame, with that chunk. -/
def sparseCompletion : List Poll :=
  [.chunk (toUtf8 ("data: \x7b\"choices\":[\x7b\"delta\":\x7b\"tool_calls\":[\x7b\"index\":4000000000" ++
    "\x7d]\x7d\x7d]\x7d\n\n"))]

/-- The frame has 69 bytes, and the table has more entries than that. -/
theorem fed_calls_unbounded :
    ¬(({ model := "glm", requestKey := "key", tools := {} } : State).fed Compact.serde
      sparseCompletion).calls.length ≤ received sparseCompletion := by
  have hreads : signals Compact.serde [] sparseCompletion = [.chunk sparseChunk] ∧
      received sparseCompletion = 69 ∧ Synthesis.callIndex sparseCall = 4000000000 := by
    decide +kernel
  obtain ⟨hsignals, hreceived, hindex⟩ := hreads
  -- The chunk is read down to its fragment, without computing the table.
  have hprogress (st : Synthesis) : st.progress sparseChunk =
      (st.start sparseChunk).pushToolCall sparseCall := by
    rw [Synthesis.progress, Synthesis.noteUsage,
      show (sparseChunk.get "usage").filter Value.isObject = none from rfl]
    dsimp only
    rw [show (Synthesis.firstChoice sparseChunk).bind
      (fun choice => (choice.get "delta").bind Value.asObject) = some sparseDelta from rfl]
    dsimp only
    rw [Synthesis.handleDelta, show nonEmptyStr (sparseDelta.get "reasoning_content") = none from rfl,
      show nonEmptyStr (sparseDelta.get "content") = none from rfl,
      show ((sparseDelta.get "tool_calls").bind Value.asArray).getD [] = [sparseCall] from rfl]
    rfl
  have hheard (st : Synthesis) (h : st.terminated = false) :
      st.hear Compact.serde [.chunk sparseChunk] =
        (st.start sparseChunk).pushToolCall sparseCall := by
    rw [Synthesis.hear_cons _ _ _ h, Synthesis.hear, Synthesis.accept,
      Synthesis.handleChunk_progress _ (by decide), hprogress]
  have hfed := State.fed_spec Compact.serde sparseCompletion
    (show ({ model := "glm", requestKey := "key", tools := {} } : State).GoesOn from ⟨rfl, rfl⟩)
  rw [show signals Compact.serde _ sparseCompletion = _ from hsignals, hheard _ rfl] at hfed
  have hlength := congrArg (fun st => st.calls.length) hfed
  dsimp only at hlength
  rw [hlength, Synthesis.pushToolCall_length, hindex, hreceived]
  omega

end MuseCodex.Zai
