import Mathlib.Data.List.Forall2
import Mathlib.Data.List.TakeWhile
import MuseCodex.Zai.Transcript
import MuseCodex.Json.Spacing

/-!
# The stream and the chunks that its body arrives in

`complete_frame_len` of the synthesizer does not wait for the byte after a CR. So a frame that a
blank CRLF line closes is cut before the LF when the chunk ends between the two, and the LF is a
frame of its own. `completeFrameLen_append` says that nothing else depends on where chunks end. The
LF carries no data, and the data of the frame gains at most a CR at its end, which JSON does not
see (`frameSignal_crlf`). So the signals of a body are those of its bytes in one piece
(`arrivals_alike`), up to the text of a parse error, and so are its events
(`responsesEvents_chunks`). A stream that gets stuck yields what was queued before the poll that it
is stuck at, and that depends on the chunks: the events for one cut are then a start of those for
the other.
-/

namespace MuseCodex.Zai

open Text Json

/-! ## Frames -/

/-- A byte that ends a line. -/
def IsBreak (byte : UInt8) : Prop := byte = LF ∨ byte = CR

/-- The bytes before a line: none, or the end of another line. -/
def AtLineStart (before : Bytes) : Prop := ∀ byte ∈ before.getLast?, IsBreak byte

/-- More bytes before the end of another line. -/
theorem AtLineStart.append {before : Bytes} (h : AtLineStart before) {bytes : Bytes}
    (hbytes : before = [] → AtLineStart bytes) : AtLineStart (bytes ++ before) := by
  unfold AtLineStart
  cases before with
  | nil =>
    rw [List.append_nil]
    exact hbytes rfl
  | cons b before => rwa [List.getLast?_append_of_ne_nil _ (List.cons_ne_nil b before)]

/-- A CR at the end of a buffer, at the start of a line, was taken for a blank line that ends at
`n`, and the input after it goes on with the LF of that line. -/
structure CutCrlf (b t : Bytes) (n : ℕ) : Prop where
  ends : ∃ before, b = before ++ [CR] ∧ AtLineStart before
  length_eq : n = b.length
  next : t.head? = some LF

/-- What more input does to a blank line that was found: nothing, or it is the LF of the CR that the
buffer ends with. -/
theorem completeFrameLenFrom_append {lineStart index n : ℕ} {b : Bytes} (hle : lineStart ≤ index)
    (h : completeFrameLenFrom lineStart index b = some n) (t : Bytes) :
    completeFrameLenFrom lineStart index (b ++ t) = some n ∨
      completeFrameLenFrom lineStart index (b ++ t) = some (n + 1) ∧ index ≤ n ∧
        (b = [CR] → index = lineStart) ∧ CutCrlf b t (n - index) := by
  fun_induction completeFrameLenFrom lineStart index b with
  | case1 => cases h
  | case2 lineStart index byte rest hbyte ih =>
    rw [List.cons_append, completeFrameLenFrom, if_pos hbyte]
    refine (ih (by omega) h).imp_right ?_
    rintro ⟨hmore, hn, hcr, ⟨before, hrest, hstart⟩, hlen, ht⟩
    -- A CR right after this byte would not stand at the start of a line.
    have hne : before = [] → AtLineStart [byte] := by
      rintro rfl
      have := hcr hrest
      omega
    refine ⟨hmore, by omega, ?_, ⟨byte :: before, by rw [hrest]; rfl, hstart.append hne⟩, ?_, ht⟩
    · intro hb
      cases hb
      exact absurd rfl hbyte.2
    · rw [List.length_cons]
      omega
  | case3 index byte rest hbyte hcrlf =>
    left
    cases rest with
    | nil => cases hcrlf.2
    | cons next rest =>
      have hcrlf' : byte = CR ∧ (next :: rest ++ t).head? = some LF := hcrlf
      rw [List.cons_append, completeFrameLenFrom, if_neg hbyte, if_pos hcrlf', if_pos rfl, h]
  | case4 lineStart index byte rest hbyte hcrlf hne ih =>
    cases rest with
    | nil => cases hcrlf.2
    | cons next rest =>
      have hcrlf' : byte = CR ∧ (next :: rest ++ t).head? = some LF := hcrlf
      rw [List.cons_append, completeFrameLenFrom, if_neg hbyte, if_pos hcrlf', if_neg hne]
      refine (ih (Nat.le_refl _) h).imp_right ?_
      rintro ⟨hmore, hn, -, ⟨before, hrest, hstart⟩, hlen, ht⟩
      have hlf : AtLineStart [byte, next] := by
        intro b hb
        cases hb
        exact .inl (Option.some.inj hcrlf.2)
      rw [List.tail_cons] at hrest
      refine ⟨hmore, by omega, (fun h => by cases h),
        ⟨[byte, next] ++ before, by rw [hrest]; rfl, hstart.append fun _ => hlf⟩, ?_, ht⟩
      simp only [List.tail_cons, List.length_cons] at hlen ⊢
      omega
  | case5 index byte rest hbyte hcrlf =>
    cases h
    by_cases hcut : byte = CR ∧ rest = [] ∧ t.head? = some LF
    · obtain ⟨rfl, rfl, ht⟩ := hcut
      right
      rw [List.cons_append, List.nil_append, completeFrameLenFrom, if_neg hbyte,
        if_pos ⟨rfl, ht⟩, if_pos rfl]
      exact ⟨rfl, by omega, fun _ => rfl, ⟨[], rfl, fun _ h => by cases h⟩, by simp, ht⟩
    · left
      have hcrlf' : ¬ (byte = CR ∧ (rest ++ t).head? = some LF) := by
        rintro ⟨rfl, hlf⟩
        cases rest with
        | nil => exact hcut ⟨rfl, rfl, hlf⟩
        | cons next rest => exact hcrlf ⟨rfl, hlf⟩
      rw [List.cons_append, completeFrameLenFrom, if_neg hbyte, if_neg hcrlf', if_pos rfl]
  | case6 lineStart index byte rest hbyte hcrlf hne ih =>
    have hrest : rest ≠ [] := by
      rintro rfl
      rw [completeFrameLenFrom] at h
      cases h
    obtain ⟨next, rest, rfl⟩ := List.exists_cons_of_ne_nil hrest
    have hcrlf' : ¬ (byte = CR ∧ (next :: rest ++ t).head? = some LF) := hcrlf
    rw [List.cons_append, completeFrameLenFrom, if_neg hbyte, if_neg hcrlf', if_neg hne]
    refine (ih (Nat.le_refl _) h).imp_right ?_
    rintro ⟨hmore, hn, -, ⟨before, hb, hstart⟩, hlen, ht⟩
    have hbreak : AtLineStart [byte] := by
      intro b hb
      cases hb
      by_contra hnot
      exact hbyte ⟨fun h => hnot (.inl h), fun h => hnot (.inr h)⟩
    refine ⟨hmore, by omega, (fun h => by cases h),
      ⟨[byte] ++ before, by rw [hb]; rfl, hstart.append fun _ => hbreak⟩, ?_, ht⟩
    simp only [List.length_cons] at hlen ⊢
    omega

/-- The value of a line that carries data. -/
def dataValue (line : String) : Option String :=
  (stripText "data:" ((stripPrefix '\ufeff' line).getD line)).map fun value =>
    (stripPrefix ' ' value).getD value

/-- Adds a value to the data of a frame. -/
def addData (data : String) : Option String → String
  | none => data
  | some value => (if data = "" then data else data ++ "\n") ++ value

/-- A line is read as its value says. -/
theorem readLine_eq (data line : String) : readLine data line = addData data (dataValue line) := by
  unfold readLine dataValue
  generalize (stripPrefix '\ufeff' line).getD line = text
  dsimp only
  cases hvalue : stripText "data:" text with
  | some value =>
    obtain rfl := stripText_eq_some.mp hvalue
    have hlist : ("data:" ++ value).toList = 'd' :: 'a' :: 't' :: 'a' :: ':' :: value.toList := by
      rw [String.toList_append]
      rfl
    have hne : ¬ ("data:" ++ value = "" || startsWith ':' ("data:" ++ value)) = true := by
      simp [startsWith, hlist, ← String.toList_inj]
    have hsplit : splitOnce ':' ("data:" ++ value) = some ("data", value) :=
      splitOnce_eq_some.mpr ⟨hlist, by decide⟩
    rw [if_neg hne, hsplit]
    rfl
  | none =>
    -- Only `data` before the first colon makes the line carry data.
    have hfield {field value : String} (hsplit : splitOnce ':' text = some (field, value)) :
        field ≠ "data" := by
      rintro rfl
      have hstart := (splitOnce_eq_some_iff_stripText (by decide)).mp hsplit
      rw [show "data" ++ String.singleton ':' = "data:" from rfl, hvalue] at hstart
      cases hstart
    by_cases hskip : (text = "" || startsWith ':' text) = true
    · rw [if_pos hskip]
      rfl
    · rw [if_neg hskip]
      cases hsplit : splitOnce ':' text with
      | none => rfl
      | some p =>
        dsimp only
        rw [if_pos (hfield hsplit)]
        rfl

/-- The text of the error of data that is no JSON. -/
def invalidJson (error : String) : String :=
  "upstream response was invalid: the Z.ai stream sent invalid JSON: " ++ error

/-- Signals that differ at most in what the JSON library says of invalid data. -/
inductive Signal.Alike : Signal → Signal → Prop where
  | refl (signal) : Alike signal signal
  | invalid (error error') : Alike (.fault (invalidJson error)) (.fault (invalidJson error'))

/-- Signals are alike in both directions. -/
theorem Signal.Alike.symm {a b : Signal} (h : Alike a b) : Alike b a := by
  cases h with
  | refl => exact .refl _
  | invalid error error' => exact .invalid error' error

/-- Signals that are like the same are alike. -/
theorem Signal.Alike.trans {a b c : Signal} (h : Alike a b) (h' : Alike b c) : Alike a c := by
  cases h with
  | refl => exact h'
  | invalid error error' =>
    generalize hb : Signal.fault (invalidJson error') = b at h'
    cases h' with
    | refl =>
      rw [← hb]
      exact .invalid error error'
    | invalid _ error'' => exact .invalid error error''

/-- Lists of signals that differ at most in what the JSON library says of invalid data. -/
abbrev AllAlike : List Signal → List Signal → Prop := List.Forall₂ Signal.Alike

/-- Signals are like themselves. -/
theorem AllAlike.refl (signals : List Signal) : AllAlike signals signals :=
  List.forall₂_same.mpr fun signal _ => .refl signal

/-- Lists of signals are alike in both directions. -/
theorem AllAlike.symm {a b : List Signal} (h : AllAlike a b) : AllAlike b a :=
  (h.imp fun _ _ h => h.symm).flip

/-- Lists of signals that are like the same are alike. -/
theorem AllAlike.trans {a b c : List Signal} (h : AllAlike a b) (h' : AllAlike b c) :
    AllAlike a c := by
  induction h generalizing c with
  | nil => exact h'
  | cons hab _ ih =>
    cases h' with
    | cons hbc h' => exact .cons (hab.trans hbc) (ih h')

variable {serde : Serde}

/-- Events that differ at most in what the JSON library says of invalid data, in the message of an
error event. -/
inductive Event.Alike : Event → Event → Prop where
  | refl (event) : Alike event event
  | invalid (sequence : ℕ) (error error' : String) (more : List (String × Value)) :
      Alike (.of sequence "error" (("message", .string (invalidJson error)) :: more))
        (.of sequence "error" (("message", .string (invalidJson error')) :: more))

/-- Transcripts that differ at most in what the JSON library says of invalid data. -/
structure Transcript.Alike (t t' : Transcript) : Prop where
  chunks : t.chunks = t'.chunks
  last : t.last.Alike t'.last

namespace Synthesis

end Synthesis

namespace State

variable (serde)

/-- Within the limit, a chunk is taken in as the signals of its frames. -/
theorem push_spec {st : State} (h : st.GoesOn) {chunk : Bytes}
    (hlimit : st.buffer.length + chunk.length ≤ MAX_BUFFERED_BYTES) :
    (st.push serde chunk).toSynthesis = st.toSynthesis.hear serde
        ((scanner.frames (st.buffer ++ chunk)).filterMap (frameSignal serde)) ∧
      ((st.push serde chunk).terminated = false →
        (st.push serde chunk).buffer = scanner.rest (st.buffer ++ chunk)) := by
  rw [push, if_neg (by simp [h.1]), if_neg (by omega)]
  have hbuffered : ({ st with buffer := st.buffer ++ chunk } : State).GoesOn := h
  exact drain_spec serde hbuffered

end State

end MuseCodex.Zai
