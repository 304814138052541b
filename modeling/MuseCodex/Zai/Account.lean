import MuseCodex.Zai.Moves

/-!
# The token counts and the length of the table

A step of a response leaves two things alone (`Step.account_eq`): the token counts that upstream
reported, and the largest number of entries that the table of calls was asked to have. Only the
counts of a chunk change the first, and only the fragments of tool calls in it the second. So the
counts after some chunks are the last ones (`usage_foldl_progress`), and the table was asked for
more than `n` entries exactly when a fragment carries an index of `n` or more
(`peak_foldl_progress_le`).
-/

namespace MuseCodex.Zai

open Text Json

/-- The token counts of a chunk. -/
def usageOf (chunk : Value) : Option Value := (chunk.get "usage").filter Value.isObject

/-- The fragments of tool calls in a chunk. -/
def chunkFragments (chunk : Value) : List Value :=
  let delta := (Synthesis.firstChoice chunk).bind fun choice =>
    (choice.get "delta").bind Value.asObject
  ((delta.bind fun delta => (delta.get "tool_calls").bind Value.asArray)).getD []

namespace Synthesis

variable (serde : Serde)

/-! ## Steps -/

/-- What a step leaves alone. -/
structure Account where
  usage : Option Value
  peak : ℕ

/-- The account of a state. -/
def account (st : Synthesis) : Account := ⟨st.usage, st.peak⟩

/-- An event is not on the account. -/
@[simp] theorem account_emit (kind : String) (body : List (String × Value)) (st : Synthesis) :
    (st.emit kind body).account = st.account := rfl

/-- An open item is not on the account. -/
@[simp] theorem account_setSlot (c : Channel) (item : Option TextItem) (st : Synthesis) :
    (st.setSlot c item).account = st.account := by
  cases c <;> rfl

/-- A call is not on the account. -/
@[simp] theorem account_setCall (index : ℕ) (entry : PendingCall) (st : Synthesis) :
    (st.setCall index entry).account = st.account := rfl

/-- A finished item is not on the account. -/
@[simp] theorem account_output (output : List Value) (st : Synthesis) :
    ({ st with output } : Synthesis).account = st.account := rfl

/-- A step leaves the account alone. -/
theorem Step.account_eq {st st' : Synthesis} (h : Step serde st st') :
    st'.account = st.account := by
  cases h with
  | forgetCall | announceCall | sendArguments => rfl
  | updateCall => exact account_setCall _ _ _
  | openItem c h =>
    simp only [Synthesis.openItem, h c, account_setSlot, account_emit]
    rfl
  | extendItem delta h => simp only [Synthesis.extendItem, h, account_setSlot, account_emit]
  | closeItem h => simp only [Synthesis.closeItem, h, account_setSlot, account_emit, account_output]
  | reserveCall hi h =>
    simp only [Synthesis.reserveCall, h, if_true, account_setCall]
    rfl
  | @closeCall call calls =>
    cases h : call.freeform <;> simp only [closeToolCall, h, account_emit, account_output] <;> rfl

/-- A sequence of steps leaves the account alone. -/
theorem Steps.account_eq {st st' : Synthesis} (h : Steps serde st st') :
    st'.account = st.account := by
  induction h with
  | refl => rfl
  | tail _ hstep ih => rw [hstep.account_eq, ih]

/-- An error leaves the account alone. -/
theorem account_fail (message : String) (st : Synthesis) :
    (st.fail message).account = st.account := by
  unfold fail
  split_ifs <;> rfl

/-- The end of the response leaves the account alone. -/
theorem account_complete (reason : Option String) (st : Synthesis) :
    (st.complete serde reason).account = st.account := by
  unfold complete
  split_ifs
  · rfl
  · exact account_fail _ st
  · have hclosed := Steps.account_eq serde (close_all_steps serde st)
    exact hclosed

/-- The first chunk leaves the account alone. -/
theorem account_start (chunk : Value) (st : Synthesis) : (st.start chunk).account = st.account := by
  unfold start
  split_ifs <;> rfl

/-! ## Fragments -/

/-- A fragment has the table grow up to its index. -/
theorem account_pushToolCall (call : Value) (st : Synthesis) :
    (st.pushToolCall call).account = ⟨st.usage, max st.peak (callIndex call + 1)⟩ := by
  -- Which library the steps are taken with does not matter to a fragment.
  obtain ⟨closed, hclosed, hrest⟩ := pushToolCall_steps ⟨fun _ => .error "", fun _ => ""⟩ call st
  have heq := Steps.account_eq _ hclosed
  have husage : closed.usage = st.usage := congrArg Account.usage heq
  have hpeak : closed.peak = st.peak := congrArg Account.peak heq
  rw [Steps.account_eq _ hrest, ← husage, ← hpeak]
  rfl

/-- The fragments of a delta leave the token counts alone, and have the table grow up to their
indices. -/
theorem account_pushToolCalls (calls : List Value) (st : Synthesis) (n : ℕ) :
    (calls.foldl (fun st call => st.pushToolCall call) st).usage = st.usage ∧
      ((calls.foldl (fun st call => st.pushToolCall call) st).peak ≤ n ↔
        st.peak ≤ n ∧ ∀ call ∈ calls, callIndex call < n) := by
  induction calls generalizing st with
  | nil => simp
  | cons call calls ih =>
    obtain ⟨husage, hpeak⟩ := ih (st.pushToolCall call)
    have hcall := account_pushToolCall call st
    have husage' : (st.pushToolCall call).usage = st.usage := congrArg Account.usage hcall
    have hpeak' : (st.pushToolCall call).peak = max st.peak (callIndex call + 1) :=
      congrArg Account.peak hcall
    rw [List.foldl_cons, husage, husage', hpeak, hpeak', max_le_iff, List.forall_mem_cons,
      and_assoc, Nat.succ_le_iff]
    exact ⟨rfl, Iff.rfl⟩

/-- Reasoning and text leave the account alone, so that of a delta is that of its fragments. -/
theorem account_handleDelta (delta : Map Value) (st : Synthesis) (n : ℕ) :
    (st.handleDelta delta).usage = st.usage ∧
      ((st.handleDelta delta).peak ≤ n ↔ st.peak ≤ n ∧
        ∀ call ∈ ((delta.get "tool_calls").bind Value.asArray).getD [], callIndex call < n) := by
  let serde : Serde := ⟨fun _ => .error "", fun _ => ""⟩
  obtain ⟨said, haccount, heq⟩ : ∃ said : Synthesis, said.account = st.account ∧
      st.handleDelta delta = (((delta.get "tool_calls").bind Value.asArray).getD []).foldl
        (fun st call => st.pushToolCall call) said := by
    refine ⟨_, ?_, rfl⟩
    cases nonEmptyStr (delta.get "reasoning_content") with
    | none =>
      cases nonEmptyStr (delta.get "content") with
      | none => rfl
      | some content => exact Steps.account_eq serde (pushText_steps serde content st)
    | some reasoning =>
      have hreasoning := Steps.account_eq serde (pushReasoning_steps serde reasoning st)
      cases nonEmptyStr (delta.get "content") with
      | none => exact hreasoning
      | some content =>
        exact (Steps.account_eq serde (pushText_steps serde content _)).trans hreasoning
  have husage : said.usage = st.usage := congrArg Account.usage haccount
  have hpeak : said.peak = st.peak := congrArg Account.peak haccount
  rw [← husage, ← hpeak, heq]
  exact account_pushToolCalls _ said n

/-! ## Chunks -/

/-- What a chunk does to the account. -/
theorem account_progress (chunk : Value) (st : Synthesis) (n : ℕ) :
    (st.progress chunk).usage = ((usageOf chunk).map mapUsage).or st.usage ∧
      ((st.progress chunk).peak ≤ n ↔
        st.peak ≤ n ∧ ∀ call ∈ chunkFragments chunk, callIndex call < n) := by
  have hstart := account_start chunk st
  have husage : ((st.start chunk).noteUsage chunk).usage =
      ((usageOf chunk).map mapUsage).or st.usage := by
    unfold noteUsage usageOf
    cases (chunk.get "usage").filter Value.isObject with
    | none => exact congrArg Account.usage hstart
    | some usage => rfl
  have hpeak : ((st.start chunk).noteUsage chunk).peak = st.peak := by
    unfold noteUsage
    cases (chunk.get "usage").filter Value.isObject <;> exact congrArg Account.peak hstart
  unfold progress chunkFragments
  dsimp only
  cases (firstChoice chunk).bind fun choice => (choice.get "delta").bind Value.asObject with
  | none => simp [husage, hpeak]
  | some delta =>
    obtain ⟨husage', hpeak'⟩ := account_handleDelta delta ((st.start chunk).noteUsage chunk) n
    dsimp only
    rw [husage', husage, hpeak', hpeak]
    exact ⟨rfl, Iff.rfl⟩

/-- The counts after some chunks are the last ones that were reported. -/
theorem usage_foldl_progress (chunks : List Value) (st : Synthesis) :
    (chunks.foldl (fun st chunk => st.progress chunk) st).usage =
      ((chunks.filterMap usageOf).getLast?.map mapUsage).or st.usage := by
  induction chunks using List.reverseRecOn with
  | nil => rfl
  | append_singleton chunks chunk ih =>
    rw [List.foldl_append, List.foldl_cons, List.foldl_nil, (account_progress chunk _ 0).1, ih,
      List.filterMap_append, List.filterMap_cons, List.filterMap_nil]
    cases usageOf chunk with
    | none => simp
    | some usage => simp

/-- The table was asked for more than `n` entries exactly when a fragment carries an index of `n` or
more. -/
theorem peak_foldl_progress_le (chunks : List Value) (st : Synthesis) (n : ℕ) :
    (chunks.foldl (fun st chunk => st.progress chunk) st).peak ≤ n ↔
      st.peak ≤ n ∧ ∀ call ∈ chunks.flatMap chunkFragments, callIndex call < n := by
  induction chunks generalizing st with
  | nil => simp
  | cons chunk chunks ih =>
    rw [List.foldl_cons, ih, (account_progress chunk st n).2, List.flatMap_cons,
      List.forall_mem_append, and_assoc]

end Synthesis

end MuseCodex.Zai
