import MuseCodex.Zai.Load

/-!
# The additions of the synthesizer

The synthesizer adds in three places: it numbers events and items, it buffers bytes, and it adds two
token counts when upstream does not report their total. `fed_arithmetic` proves the first two exact
for every upstream body of fewer than `2^63` bytes: the numbers stay below the number of bytes
received (`fed_load_le`), and the buffer within its limit. The counts are numbers of the body
itself, so their sum is exact just where it fits 64 bits.
-/

namespace MuseCodex.Zai

open Text Json

/-! ## Token counts -/

/-- A count of tokens that a chunk reports. -/
def tokenCount (key : String) (usage : Value) : Option ℕ := (usage.get key).bind Value.asU64

/-- The tokens of the prompt and of the completion, each of them none where it is not reported. -/
def tokenSum (usage : Value) : ℕ :=
  (tokenCount "prompt_tokens" usage).getD 0 + (tokenCount "completion_tokens" usage).getD 0

/-- The total that the counts of a chunk amount to. -/
def tokenTotal (usage : Value) : ℕ := (tokenCount "total_tokens" usage).getD (tokenSum usage)

/-- The total that is reported is the one that was counted, or the sum of the counts modulo
`2^64`. -/
theorem mapUsage_total (usage : Value) : tokenCount "total_tokens" (mapUsage usage) =
    some ((tokenCount "total_tokens" usage).getD (tokenSum usage % 2 ^ 64)) := by
  unfold tokenCount mapUsage
  dsimp only
  have hlast : ∀ e ∈ ([] : List (String × Value)), e.1 ≠ "total_tokens" := by simp
  rw [Value.obj, Value.get_object, Map.get_ofEntries_append_cons hlast, Option.bind_some,
    Value.asU64_ofNat]
  rfl

/-- The total is exact unless it is a sum that passes 64 bits. -/
theorem mapUsage_total_iff (usage : Value) :
    tokenCount "total_tokens" (mapUsage usage) = some (tokenTotal usage) ↔
      (tokenCount "total_tokens" usage = none → tokenSum usage < 2 ^ 64) := by
  rw [mapUsage_total, tokenTotal]
  cases tokenCount "total_tokens" usage with
  | some total => simp
  | none =>
    rw [Option.getD_none, Option.getD_none, Option.some.injEq]
    constructor
    · intro hexact _
      omega
    · intro hfits
      exact Nat.mod_eq_of_lt (hfits rfl)

/-- The token counts that are taken in. -/
def Transcript.usages (t : Transcript) : List Value := t.taken.filterMap usageOf

/-! ## The counts that are reported -/

namespace Synthesis

/-- The event that ends the response reports the counts of the state. -/
theorem finish_usage (reason : Option String) (st : Synthesis) :
    (st.finish reason).pending.getLast?.bind
      (fun last => (last.value.get "response").bind (·.get "usage")) = st.usage := by
  have henvelope (status : String) :
      (st.responseEnvelope status reason true).get "usage" = st.usage := by
    unfold responseEnvelope
    by_cases hreason : reason = some "length" <;> cases st.usage <;>
      simp [hreason, Value.obj, Map.ofEntries]
  simp [finish, emit, Event.of, Map.ofEntries, henvelope]

end Synthesis

/-! ## A part of the body -/

/-- The counts after some polls are the last ones of their transcript. -/
theorem fed_usage (serde : Serde) (polls : List Poll) (model requestKey : String)
    (tools : ToolNames) :
    (({ model, requestKey, tools } : State).fed serde polls).usage =
      (transcript serde polls).usages.getLast?.map mapUsage := by
  have haccount := State.fed_account serde polls model requestKey tools
  refine (congrArg Synthesis.Account.usage haccount).trans ?_
  refine (Synthesis.usage_foldl_progress (transcript serde polls).taken _).trans ?_
  exact Option.or_none

/-- The buffer stays within its limit. -/
theorem fed_buffer_le (serde : Serde) (polls : List Poll) {st : State}
    (h : st.buffer.length ≤ MAX_BUFFERED_BYTES) :
    (st.fed serde polls).buffer.length ≤ MAX_BUFFERED_BYTES := by
  have hdrain (st : State) : (st.drain serde).buffer.length ≤ st.buffer.length := by
    fun_induction State.drain serde st with
    | case1 st => exact Nat.le_refl _
    | case2 st length hscan frame buffer =>
      exact (List.length_drop).trans_le (Nat.sub_le _ _)
    | case3 st length hscan frame buffer =>
      exact (List.length_drop).trans_le (Nat.sub_le _ _)
    | case4 st length hscan frame buffer synthesis hframe hterminated ih =>
      exact ih.trans ((List.length_drop).trans_le (Nat.sub_le _ _))
  induction polls generalizing st with
  | nil => exact h
  | cons polled polls ih =>
    rw [State.fed_cons]
    refine ih ?_
    cases polled with
    | error message => exact h
    | chunk bytes =>
      rw [State.poll, State.push]
      split_ifs with hterminated hlimit
      · exact h
      · exact h
      · have hle := hdrain { st with buffer := st.buffer ++ bytes }
        dsimp only at hle
        rw [List.length_append] at hle
        omega

/-- After any part of any upstream body of fewer than `2^63` bytes, and after its end, the sequence
number and the output index fit 64 bits, as do all smaller ones that they went through, and the
buffer is within its limit. The counts that are reported are those of the last chunk that had some,
and they are what the terminal event reports. The total of a chunk's counts is exact unless it is a
sum that does not fit 64 bits. -/
theorem fed_arithmetic {serde : Serde} (hserde : serde.Spelled) {polls : List Poll}
    (hreceived : received polls < 2 ^ 63) (model requestKey : String) (tools : ToolNames) :
    let st := ({ model, requestKey, tools } : State).fed serde polls
    let usages := (transcript serde polls).usages
    (∀ st' ∈ [st, st.poll serde none], st'.sequence < 2 ^ 64 ∧ st'.nextOutputIndex < 2 ^ 64 ∧
      st'.buffer.length ≤ MAX_BUFFERED_BYTES) ∧
    st.usage = usages.getLast?.map mapUsage ∧
    (∀ (ended : Synthesis) (reason : Option String),
      (ended.finish reason).pending.getLast?.bind
        (fun last => (last.value.get "response").bind (·.get "usage")) = ended.usage) ∧
    ((∀ usage ∈ usages,
        tokenCount "total_tokens" (mapUsage usage) = some (tokenTotal usage)) ↔
      ∀ usage ∈ usages, tokenCount "total_tokens" usage = none → tokenSum usage < 2 ^ 64) := by
  intro st usages
  have hload : st.load ≤ received polls + 1 := fed_load_le hserde polls model requestKey tools
  have hbuffer : st.buffer.length ≤ MAX_BUFFERED_BYTES :=
    fed_buffer_le serde polls (Nat.zero_le MAX_BUFFERED_BYTES)
  refine ⟨?_, fed_usage serde polls model requestKey tools,
    fun ended reason => ended.finish_usage reason, ?_⟩
  · have hcounters (st' : Synthesis) : st'.sequence ≤ st'.load ∧ st'.nextOutputIndex ≤ st'.load := by
      simp only [Synthesis.load]
      omega
    have hend : (st.poll serde none).load ≤ st.load + 1 := by
      rw [State.poll, Synthesis.endOfStream]
      split_ifs
      · exact Nat.le_add_right _ _
      · exact Synthesis.load_fail _ st.toSynthesis
    have hnow := hcounters st.toSynthesis
    have hthen := hcounters (st.poll serde none).toSynthesis
    intro st' hst'
    simp only [List.mem_cons, List.not_mem_nil, or_false] at hst'
    rcases hst' with rfl | rfl
    · exact ⟨by omega, by omega, hbuffer⟩
    · exact ⟨by omega, by omega, hbuffer⟩
  · exact forall₂_congr fun usage _ => mapUsage_total_iff usage

/-- A completion that reports counts without their total. -/
def countedCompletion (promptTokens completionTokens : String) : List Poll :=
  [.chunk (toUtf8 ("data: \x7b\"usage\":\x7b\"prompt_tokens\":" ++ promptTokens ++
    ",\"completion_tokens\":" ++ completionTokens ++ "\x7d\x7d\n\n"))]

/-- The counts that it reports. -/
def countedUsage (promptTokens completionTokens : ℕ) : Value :=
  .obj [("prompt_tokens", .ofNat promptTokens), ("completion_tokens", .ofNat completionTokens)]

/-- The counters of a short stream. -/
theorem fed_arithmetic_counted :
    (({ model := "glm", requestKey := "key", tools := {} } : State).fed Compact.serde
        (countedCompletion "3" "4")).sequence < 2 ^ 64 ∧
      tokenCount "total_tokens" (mapUsage (countedUsage 3 4)) = some 7 := by
  have hreads : received (countedCompletion "3" "4") < 2 ^ 63 ∧
      (transcript Compact.serde (countedCompletion "3" "4")).usages = [countedUsage 3 4] := by
    decide +kernel
  obtain ⟨hreceived, husages⟩ := hreads
  obtain ⟨hcounters, -, -, htotal⟩ := fed_arithmetic Compact.spelled hreceived "glm" "key" {}
  rw [husages] at htotal
  have hexact := htotal.mpr fun usage husage _ => by
    rw [List.mem_singleton.mp husage]
    decide
  exact ⟨(hcounters _ List.mem_cons_self).1, hexact _ List.mem_cons_self⟩

/-- The sum of the counts passes 64 bits, and the total that is reported is none. -/
theorem fed_arithmetic_wraps :
    (transcript Compact.serde (countedCompletion "18446744073709551615" "1")).usages =
        [countedUsage 18446744073709551615 1] ∧
      ¬∀ usage ∈ (transcript Compact.serde (countedCompletion "18446744073709551615" "1")).usages,
        tokenCount "total_tokens" (mapUsage usage) = some (tokenTotal usage) := by
  have husages : (transcript Compact.serde (countedCompletion "18446744073709551615" "1")).usages =
      [countedUsage 18446744073709551615 1] := by
    decide +kernel
  refine ⟨husages, ?_⟩
  rw [husages]
  decide

end MuseCodex.Zai
