import MuseCodex.Zai.Arrival

/-!
# The state after a part of the upstream body

`State.fed` is the state of the synthesizer after some polls of the upstream body, before its end.
No step reads the queue of events, so they are left in it. `State.fed_spec` proves that this state
has heard the signals of what was polled, so `Synthesis.account_hear` says what tokens it has
counted, and how large a table its calls have asked for (`State.fed_account`).
-/

namespace MuseCodex.Zai

open Text Json

/-- The bytes that a poll of the upstream body returns. -/
def Poll.bytes : Poll → Bytes
  | .chunk bytes => bytes
  | .error _ => []

/-- The number of bytes that some polls return. -/
def received (polls : List Poll) : ℕ := (polls.flatMap Poll.bytes).length

/-- The bytes of one more chunk count. -/
theorem received_cons (polled : Poll) (polls : List Poll) :
    received (polled :: polls) = polled.bytes.length + received polls := by
  rw [received, List.flatMap_cons, List.length_append, ← received]

namespace State

variable (serde : Serde)

/-- The state after some polls of the upstream body. -/
def fed (polls : List Poll) (st : State) : State :=
  polls.foldl (fun st polled => st.poll serde (some polled)) st

/-- The state is fed one chunk after the other. -/
theorem fed_cons (polled : Poll) (polls : List Poll) (st : State) :
    st.fed serde (polled :: polls) = (st.poll serde (some polled)).fed serde polls := rfl

/-- A stream that has ended takes in nothing. -/
theorem fed_of_ended (polls : List Poll) {st : State} (h : st.Ended) : st.fed serde polls = st := by
  induction polls with
  | nil => rfl
  | cons polled polls ih =>
    have hpoll : st.poll serde (some polled) = st := by
      cases polled with
      | chunk bytes => exact if_pos h.1
      | error message =>
        have hfail : st.toSynthesis.fail ("upstream stream failed: " ++ message) =
            st.toSynthesis := by
          rw [Synthesis.fail, if_pos h.1, ← h.2]
        rw [poll, State.fail, hfail]
    rw [fed_cons, hpoll, ih]

/-- After some polls, the stream has heard the signals of what they returned. -/
theorem fed_spec (polls : List Poll) {st : State} (h : st.GoesOn) :
    (st.fed serde polls).toSynthesis =
      st.toSynthesis.hear serde (signals serde st.buffer polls) := by
  induction polls generalizing st with
  | nil => rfl
  | cons polled polls ih =>
    have hfault (message : String) (after : State) (hafter : after = st.fail message) :
        (after.fed serde polls).toSynthesis = st.toSynthesis.hear serde [.fault message] := by
      have hended : after.Ended := by
        rw [hafter]
        exact Synthesis.fail_ended message h
      rw [fed_of_ended serde polls hended, Synthesis.hear_cons serde _ _ h.1, Synthesis.hear,
        hafter]
      rfl
    rw [fed_cons]
    cases polled with
    | error message => exact hfault ("upstream stream failed: " ++ message) _ rfl
    | chunk bytes =>
      rw [signals]
      by_cases hlimit : MAX_BUFFERED_BYTES < st.buffer.length + bytes.length
      · rw [if_pos hlimit]
        refine hfault "the Z.ai stream exceeded the buffered event limit" _ ?_
        rw [poll, push, if_neg (by simp [h.1]), if_pos hlimit]
      · rw [if_neg hlimit]
        obtain ⟨hheard, hbuffer⟩ := push_spec serde h (Nat.le_of_not_lt hlimit)
        have hflags := Synthesis.hear_ended_or_goesOn serde
          ((scanner.frames (st.buffer ++ bytes)).filterMap (frameSignal serde)) h
        rw [Synthesis.hear_append, ← hheard]
        rw [← hheard] at hflags
        rcases hflags with hended | hon
        · rw [Synthesis.hear_of_terminated serde _ hended.1]
          exact congrArg State.toSynthesis (fed_of_ended serde polls hended)
        · rw [← hbuffer hon.1]
          exact ih hon

/-- After some polls, the account is that of the chunks that were taken in. -/
theorem fed_account (polls : List Poll) (model requestKey : String) (tools : ToolNames) :
    (({ model, requestKey, tools } : State).fed serde polls).account =
      ((transcript serde polls).taken.foldl (fun (st : Synthesis) chunk => st.progress chunk)
        { model, requestKey, tools }).account := by
  have hon : ({ model, requestKey, tools } : State).GoesOn := ⟨rfl, rfl⟩
  exact (congrArg Synthesis.account (fed_spec serde polls hon)).trans
    (Synthesis.account_hear serde (signals serde [] polls) hon)

end State

end MuseCodex.Zai
