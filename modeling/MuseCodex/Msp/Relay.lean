import Mathlib.Logic.Relation
import MuseCodex.Json.Compact
import MuseCodex.Msp.Correlation
import MuseCodex.Msp.Lines
import MuseCodex.Msp.Relabel

/-!
# The two relays of a session

`relay_client_input` and `relay_server_output` of `crates/muse-codex/src/msp.rs` as two threads over
bytes. Each reads a frame and adapts it, which is one step on the table that they share, and then
writes what it is to write. The relay of the client writes to the host or, for a frame that it
rejects, to the client; the relay of the host writes to the client.

Between the bytes and the adapters nothing is lost, doubled, or mixed (`relay_frames`): in every
order of the steps the session is a sequence of frames that are the pieces of the two streams, each
stream in its own order, and what the threads write is cut by the reader at the other end into the
frames that the adapters gave, whole and in order. For the client this needs a stream of the host
that is empty or ends with a line feed: a last piece without one runs into what the other thread
writes after it. So the results about sessions, which are lists of frames, are about these threads.
A write is taken to succeed as a whole.
-/

namespace MuseCodex.Msp

open Text Json Buffered

/-! ## What the adapters give -/

section Outputs

variable (serde : Serde) (label : String)

/-- What is forwarded to the host for a frame of the client. -/
def ClientFrame.forwarded : ClientFrame → Option Bytes
  | .forward bytes => some bytes
  | .reject _ | .drop => none

/-- What is returned to the client for a frame of its own. -/
def ClientFrame.returned : ClientFrame → Option Bytes
  | .reject error => some (encodeFrame serde error)
  | .forward _ | .drop => none

/-- What is forwarded to the host for a frame. -/
def forwards (pending : PendingRequests) : Input → Option Bytes
  | .client frame => (adaptClientFrame serde label frame pending).1.forwarded
  | .host _ => none

/-- What is returned to the client for a frame of its own. -/
def returns (pending : PendingRequests) : Input → Option Bytes
  | .client frame => (adaptClientFrame serde label frame pending).1.returned serde
  | .host _ => none

/-- What is relayed to the client for a frame of the host. -/
def relays (pending : PendingRequests) : Input → Option Bytes
  | .client _ => none
  | .host frame => (adaptServerFrame serde label frame pending).1.toOption

/-- What the frames of a session give, from a table. -/
def outputs (give : PendingRequests → Input → Option Bytes) :
    PendingRequests → List Input → List Bytes
  | _, [] => []
  | pending, input :: inputs =>
    (give pending input).toList ++ outputs give (adapt serde label pending input) inputs

/-- What is given for one more input comes after what was given before. -/
theorem outputs_concat (give : PendingRequests → Input → Option Bytes) (pending : PendingRequests)
    (inputs : List Input) (input : Input) :
    outputs serde label give pending (inputs ++ [input]) =
      outputs serde label give pending inputs ++
        (give (inputs.foldl (adapt serde label) pending) input).toList := by
  induction inputs generalizing pending with
  | nil => simp [outputs]
  | cons first inputs ih => simp [outputs, ih]

/-- What is given is given for one of the frames. -/
theorem mem_outputs {give : PendingRequests → Input → Option Bytes} {pending : PendingRequests}
    {inputs : List Input} {frame : Bytes} (h : frame ∈ outputs serde label give pending inputs) :
    ∃ pending', ∃ input ∈ inputs, give pending' input = some frame := by
  induction inputs generalizing pending with
  | nil => cases h
  | cons input inputs ih =>
    rcases List.mem_append.mp h with h | h
    · exact ⟨pending, input, List.mem_cons_self, Option.mem_toList.mp h⟩
    · obtain ⟨pending', input', hmem, hframe⟩ := ih h
      exact ⟨pending', input', List.mem_cons_of_mem _ hmem, hframe⟩

/-- The frame of the client, if that is what was read. -/
def Input.ofClient : Input → Option Bytes
  | .client frame => some frame
  | .host _ => none

/-- The frame of the host, if that is what was read. -/
def Input.ofHost : Input → Option Bytes
  | .client _ => none
  | .host frame => some frame

/-- The frames of the client in a session. -/
def clientFrames (inputs : List Input) : List Bytes := inputs.filterMap Input.ofClient

/-- The frames of the host in a session. -/
def hostFrames (inputs : List Input) : List Bytes := inputs.filterMap Input.ofHost

end Outputs

/-! ## The threads -/

/-- What a call of `read_frame` returns. -/
def Calls {σ : Type} (reader : BufRead σ String UInt8) (r : σ)
    (result : Except String (Bool × Bytes × σ)) : Prop :=
  ∃ n, ∀ fuel ≥ n, readFrame reader fuel r = some result

/-- Where a thread stands: it is about to read, or to write what it has adapted, or its source has
ended, or it has failed. -/
inductive RelayPhase (α : Type) where
  | reading
  | writing (output : α)
  | ended
  | failed (error : String)

/-- A frame that the adapter refuses ends the relay of the host. -/
def RelayPhase.ofAnswer : Except String Bytes → RelayPhase Bytes
  | .ok bytes => .writing bytes
  | .error error => .failed error

/-- The two threads, their sources, the table, and what they have written. -/
structure Relay (σ τ : Type) where
  client : σ
  host : τ
  input : RelayPhase ClientFrame
  output : RelayPhase Bytes
  pending : PendingRequests
  childStdin : Bytes
  stdout : Bytes

section Steps

variable {σ τ : Type} (serde : Serde) (label : String) (clientReader : BufRead σ String UInt8)
  (hostReader : BufRead τ String UInt8)

/-- What the relay of the client does with what `read_frame` returned. -/
def takeInput (s : Relay σ τ) : Except String (Bool × Bytes × σ) → Relay σ τ
  | .error error => { s with input := .failed error }
  | .ok (false, _, client) => { s with client, input := .ended }
  | .ok (true, frame, client) =>
    let (output, pending) := adaptClientFrame serde label frame s.pending
    { s with client, input := .writing output, pending }

/-- What the relay of the host does with what `read_frame` returned. -/
def takeOutput (s : Relay σ τ) : Except String (Bool × Bytes × τ) → Relay σ τ
  | .error error => { s with output := .failed error }
  | .ok (false, _, host) => { s with host, output := .ended }
  | .ok (true, frame, host) =>
    let (answer, pending) := adaptServerFrame serde label frame s.pending
    { s with host, output := .ofAnswer answer, pending }

/-- What the relay of the client writes. -/
def writeInput (s : Relay σ τ) : ClientFrame → Relay σ τ
  | .forward bytes => { s with input := .reading, childStdin := s.childStdin ++ bytes }
  | .reject error => { s with input := .reading, stdout := s.stdout ++ encodeFrame serde error }
  | .drop => { s with input := .reading }

/-- A step of one thread. -/
inductive RelayStep : Relay σ τ → Relay σ τ → Prop where
  | readInput {s : Relay σ τ} {result : Except String (Bool × Bytes × σ)}
      (hreading : s.input = .reading) (hread : Calls clientReader s.client result) :
      RelayStep s (takeInput serde label s result)
  | writeInput {s : Relay σ τ} {output : ClientFrame} (hwriting : s.input = .writing output) :
      RelayStep s (writeInput serde s output)
  | readOutput {s : Relay σ τ} {result : Except String (Bool × Bytes × τ)}
      (hreading : s.output = .reading) (hread : Calls hostReader s.host result) :
      RelayStep s (takeOutput serde label s result)
  | writeOutput {s : Relay σ τ} {bytes : Bytes} (hwriting : s.output = .writing bytes) :
      RelayStep s { s with output := .reading, stdout := s.stdout ++ bytes }

/-- The threads before they have read. -/
def Relay.start (client : σ) (host : τ) : Relay σ τ :=
  ⟨client, host, .reading, .reading, [], [], []⟩

end Steps

/-! ## The invariant -/

/-- The one of the two threads that wrote to the client. -/
inductive Writer where
  | input
  | output
deriving DecidableEq

/-- What a thread wrote to the client, of all that was written. -/
def writtenBy (writer : Writer) (written : List (Writer × Bytes)) : List Bytes :=
  (written.filter (·.1 = writer)).map Prod.snd

/-- What a thread is still to write. -/
def RelayPhase.unwritten {α : Type} (give : α → Option Bytes) : RelayPhase α → List Bytes
  | .writing output => (give output).toList
  | .reading | .ended | .failed _ => []

/-- What a source still has, where its thread has not failed. -/
def Remains {σ α : Type} (holds : σ → Bytes → Prop) (phase : RelayPhase α) (source : σ)
    (stream : Bytes) (frames : List Bytes) : Prop :=
  match phase with
  | .failed _ => frames <+: pieces stream
  | .ended => frames = pieces stream
  | .reading | .writing _ => ∃ rest, holds source rest ∧ frames ++ pieces rest = pieces stream

/-- The threads have read and adapted the frames of a session, and have written `sent` to the host
and `written` to the client. -/
structure Relays (serde : Serde) (label : String) {σ τ : Type} (holds : σ → Bytes → Prop)
    (holds' : τ → Bytes → Prop) (client host : Bytes) (s : Relay σ τ) (inputs : List Input)
    (sent : List Bytes) (written : List (Writer × Bytes)) : Prop where
  pending : s.pending = pendingAfter serde label inputs
  client : Remains holds s.input s.client client (clientFrames inputs)
  host : Remains holds' s.output s.host host (hostFrames inputs)
  childStdin : s.childStdin = sent.flatten
  stdout : s.stdout = (written.map Prod.snd).flatten
  sent : outputs serde label (forwards serde label) [] inputs =
    sent ++ s.input.unwritten ClientFrame.forwarded
  returned : outputs serde label (returns serde label) [] inputs =
    writtenBy .input written ++ s.input.unwritten (ClientFrame.returned serde)
  relayed : outputs serde label (relays serde label) [] inputs =
    writtenBy .output written ++ s.output.unwritten some

/-! ## Streams of frames -/

/-- Frames as they are cut from a stream: none is empty, an LF stands only at the end of one, and
each that is followed by another has it. -/
structure Delimited (frames : List Bytes) : Prop where
  content : ∀ frame ∈ frames, frame ≠ [] ∧ LF ∉ content frame
  ended : frames.Pairwise fun frame _ => frame.getLast? = some LF

/-- The frames after the first are delimited. -/
theorem Delimited.tail {frame : Bytes} {frames : List Bytes} (h : Delimited (frame :: frames)) :
    Delimited frames :=
  ⟨fun f hf => h.content f (List.mem_cons_of_mem frame hf), (List.pairwise_cons.mp h.ended).2⟩

/-- The first of delimited frames are delimited. -/
theorem Delimited.left {frames others : List Bytes} (h : Delimited (frames ++ others)) :
    Delimited frames :=
  ⟨fun f hf => h.content f (List.mem_append_left others hf), (List.pairwise_append.mp h.ended).1⟩

/-- A frame that ends with LF is its content before the LF. -/
theorem content_concat {frame : Bytes} (h : frame.getLast? = some LF) :
    Msp.content frame ++ [LF] = frame := by
  rw [Msp.content, stripSuffix, if_pos h]
  exact List.dropLast_append_getLast? LF h

/-- The frames that a stream was written from are its pieces. -/
theorem Delimited.pieces_flatten {frames : List Bytes} (h : Delimited frames) :
    pieces frames.flatten = frames := by
  induction frames with
  | nil => exact pieces_nil
  | cons frame frames ih =>
    obtain ⟨hne, hlf⟩ := h.content frame List.mem_cons_self
    rw [List.flatten_cons]
    by_cases hlast : frame.getLast? = some LF
    · rw [← content_concat hlast, List.append_assoc, List.singleton_append, pieces_line hlf,
        ih h.tail]
    · -- Nothing follows a frame that lacks its LF.
      have hnil : frames = [] := List.eq_nil_iff_forall_not_mem.mpr fun other hother =>
        hlast ((List.pairwise_cons.mp h.ended).1 other hother)
      rw [hnil, List.flatten_nil, List.append_nil]
      rw [Msp.content, stripSuffix, if_neg hlast] at hlf
      exact pieces_unterminated hlf hne

/-- The pieces of a stream are delimited. -/
theorem delimited_pieces (stream : Bytes) : Delimited (pieces stream) := by
  refine ⟨fun frame hframe => notMem_content hframe, ?_⟩
  induction stream using pieces_induction with
  | nil =>
    rw [pieces_nil]
    exact List.Pairwise.nil
  | line line rest hline ih =>
    rw [pieces_line hline]
    exact List.pairwise_cons.mpr ⟨fun _ _ => List.getLast?_concat, ih⟩
  | last line hline hne =>
    rw [pieces_unterminated hline hne]
    exact List.pairwise_singleton _ _

/-! ## The frames that the adapters give -/

section Frames

variable {serde : Serde} {label : String}

/-- A printed document is one frame. -/
theorem encodeFrame_line (hserde : serde.Lawful) (v : Value) :
    encodeFrame serde v ≠ [] ∧ LF ∉ Msp.content (encodeFrame serde v) ∧
      (encodeFrame serde v).getLast? = some LF := by
  refine ⟨List.concat_ne_nil LF _, ?_, List.getLast?_concat⟩
  rw [encodeFrame, content_line]
  have hline : OneLine (serde.toString v) := hserde.toString_line v
  exact fun hlf => (hline.toUtf8 hlf).1 rfl

/-- What is relayed for a frame is the frame itself or a printed document. -/
theorem relayed_cases (serde : Serde) (frame : Bytes) (r : Value × Bool) :
    relayed serde frame r = frame ∨ ∃ v, relayed serde frame r = encodeFrame serde v := by
  unfold relayed
  split_ifs
  · exact .inr ⟨r.1, rfl⟩
  · exact .inl rfl

/-- What is forwarded is what the adapter forwards. -/
theorem forwarded_eq_some {output : ClientFrame} {bytes : Bytes} :
    output.forwarded = some bytes ↔ output = .forward bytes := by
  cases output with
  | forward bytes' => simp [ClientFrame.forwarded]
  | reject error => simp [ClientFrame.forwarded]
  | drop => simp [ClientFrame.forwarded]

/-- What is returned is the error of a rejection. -/
theorem returned_eq_some {output : ClientFrame} {bytes : Bytes} :
    output.returned serde = some bytes ↔
      ∃ error, output = .reject error ∧ encodeFrame serde error = bytes := by
  cases output with
  | reject error => simp [ClientFrame.returned]
  | forward bytes' => simp [ClientFrame.returned]
  | drop => simp [ClientFrame.returned]

/-- A frame is forwarded as it is, or printed anew. -/
theorem forwards_cases {pending : PendingRequests} {input : Input} {bytes : Bytes}
    (h : forwards serde label pending input = some bytes) :
    ∃ frame, input.ofClient = some frame ∧ (bytes = frame ∨ ∃ v, bytes = encodeFrame serde v) := by
  rcases input with frame | frame
  · refine ⟨frame, rfl, ?_⟩
    have hforward := forwarded_eq_some.mp h
    cases hparse : parseFrame serde frame with
    | none =>
      unfold adaptClientFrame at hforward
      rw [hparse] at hforward
      cases hforward
      exact .inl rfl
    | some value =>
      cases hmethod : methodOf value with
      | none =>
        unfold adaptClientFrame at hforward
        rw [hparse] at hforward
        dsimp only at hforward
        rw [hmethod] at hforward
        cases hforward
        exact .inl rfl
      | some method =>
        obtain ⟨r, -, rfl⟩ := adaptClientFrame_forward serde hparse hmethod hforward
        exact relayed_cases serde frame r
  · cases h

/-- A frame that is returned is printed. -/
theorem returns_cases {pending : PendingRequests} {input : Input} {bytes : Bytes}
    (h : returns serde label pending input = some bytes) : ∃ v, bytes = encodeFrame serde v := by
  rcases input with frame | frame
  · obtain ⟨error, -, rfl⟩ := returned_eq_some.mp h
    exact ⟨error, rfl⟩
  · cases h

/-- A frame of the host is relayed as it is, or printed anew. -/
theorem relays_cases {pending : PendingRequests} {input : Input} {bytes : Bytes}
    (h : relays serde label pending input = some bytes) :
    ∃ frame, input.ofHost = some frame ∧ (bytes = frame ∨ ∃ v, bytes = encodeFrame serde v) := by
  rcases input with frame | frame
  · cases h
  · refine ⟨frame, rfl, ?_⟩
    change (adaptServerFrame serde label frame pending).1.toOption = some bytes at h
    rcases adaptServerFrame_edit serde label frame pending with
      ⟨-, reason, herror⟩ | ⟨-, value, -, hedit⟩
    · rw [herror] at h
      cases h
    · rw [hedit] at h
      cases hvalue : hostEdit serde label pending value with
      | error reason =>
        rw [hvalue] at h
        cases h
      | ok r =>
        rw [hvalue] at h
        cases h
        exact relayed_cases serde frame r

/-- What is given for delimited frames is delimited, if it is the frame itself or a printed
document. -/
theorem Delimited.outputs (read : Input → Option Bytes) (hserde : serde.Lawful)
    {give : PendingRequests → Input → Option Bytes}
    (hgive : ∀ {pending input bytes}, give pending input = some bytes →
      ∃ frame, read input = some frame ∧ (bytes = frame ∨ ∃ v, bytes = encodeFrame serde v))
    {inputs : List Input} (h : Delimited (inputs.filterMap read)) (pending : PendingRequests) :
    Delimited (outputs serde label give pending inputs) := by
  induction inputs generalizing pending with
  | nil => exact ⟨fun frame hframe => absurd hframe List.not_mem_nil, List.Pairwise.nil⟩
  | cons input inputs ih =>
    -- Reading fewer inputs still reads frames that are lines.
    have htail : Delimited (inputs.filterMap read) := by
      cases hread : read input with
      | none => rwa [List.filterMap_cons_none hread] at h
      | some frame =>
        rw [List.filterMap_cons_some hread] at h
        exact h.tail
    unfold Msp.outputs
    cases hbytes : give pending input with
    | none => exact ih htail _
    | some bytes =>
      obtain ⟨frame, hread, hcases⟩ := hgive hbytes
      rw [List.filterMap_cons_some hread] at h
      have hrest := ih htail (adapt serde label pending input)
      refine ⟨List.forall_mem_cons.mpr ⟨?_, hrest.content⟩,
        List.pairwise_cons.mpr ⟨fun other hother => ?_, hrest.ended⟩⟩
      · rcases hcases with rfl | ⟨v, rfl⟩
        · exact h.content bytes List.mem_cons_self
        · exact ⟨(encodeFrame_line hserde v).1, (encodeFrame_line hserde v).2.1⟩
      · rcases hcases with rfl | ⟨v, rfl⟩
        · -- A frame that is given later stands for a frame that was read later.
          obtain ⟨pending', input', hmem, hother⟩ := mem_outputs serde label hother
          obtain ⟨frame', hread', -⟩ := hgive hother
          exact (List.pairwise_cons.mp h.ended).1 frame'
            (List.mem_filterMap.mpr ⟨input', hmem, hread'⟩)
        · exact (encodeFrame_line hserde v).2.2

end Frames

/-! ## The steps keep the invariant -/

section Keep

variable {σ τ : Type} {serde : Serde} {label : String} {clientReader : BufRead σ String UInt8}
  {hostReader : BufRead τ String UInt8} {holds : σ → Bytes → Prop} {holds' : τ → Bytes → Prop}
  {client host : Bytes} {s s' : Relay σ τ} {inputs : List Input} {sent : List Bytes}
  {written : List (Writer × Bytes)}

/-- A call returns the next piece of the stream. -/
theorem Calls.spec {reader : BufRead σ String UInt8} (hreader : reader.Delivers holds)
    {stream : Bytes} {r : σ} {result : Except String (Bool × Bytes × σ)} (hr : holds r stream)
    (hcall : Calls reader r result) : Returns holds stream result := by
  obtain ⟨n, hn⟩ := hcall
  obtain ⟨m, result', hm, hreturns⟩ := readFrame_spec hreader hr
  have heq := (hn (max n m) (le_max_left n m)).symm.trans (hm (max n m) (le_max_right n m))
  cases heq
  exact hreturns

/-- What a call returns continues the frames that were read. -/
def Continues (holds : σ → Bytes → Prop) (stream : Bytes) (frames : List Bytes) :
    Except String (Bool × Bytes × σ) → Prop
  | .error _ => frames <+: pieces stream
  | .ok (false, _, _) => frames = pieces stream
  | .ok (true, frame, r) =>
    ∃ rest, holds r rest ∧ (frames ++ [frame]) ++ pieces rest = pieces stream

/-- A call of a reader continues its stream. -/
theorem Calls.continues {reader : BufRead σ String UInt8} (hreader : reader.Delivers holds)
    {stream rest : Bytes} {frames : List Bytes} {r : σ}
    {result : Except String (Bool × Bytes × σ)} (hcall : Calls reader r result)
    (hr : holds r rest) (hframes : frames ++ pieces rest = pieces stream) :
    Continues holds stream frames result := by
  have hreturns := hcall.spec hreader hr
  unfold Returns at hreturns
  cases hpieces : pieces rest with
  | nil =>
    rw [hpieces] at hreturns hframes
    obtain ⟨r', rfl, -⟩ := hreturns
    rwa [List.append_nil] at hframes
  | cons piece others =>
    rw [hpieces] at hreturns hframes
    dsimp only at hreturns
    split_ifs at hreturns with hfits
    · obtain ⟨r', rest', rfl, hr', hrest'⟩ := hreturns
      refine ⟨rest', hr', ?_⟩
      rw [hrest', List.append_assoc, List.singleton_append, hframes]
    · rw [hreturns]
      exact ⟨piece :: others, hframes⟩

/-- A frame of the client comes after those before it. -/
@[simp] theorem clientFrames_client (inputs : List Input) (frame : Bytes) :
    clientFrames (inputs ++ [.client frame]) = clientFrames inputs ++ [frame] := by
  simp [clientFrames, Input.ofClient]

/-- A frame of the host is none of the client. -/
@[simp] theorem clientFrames_host (inputs : List Input) (frame : Bytes) :
    clientFrames (inputs ++ [.host frame]) = clientFrames inputs := by
  simp [clientFrames, Input.ofClient]

/-- A frame of the client is none of the host. -/
@[simp] theorem hostFrames_client (inputs : List Input) (frame : Bytes) :
    hostFrames (inputs ++ [.client frame]) = hostFrames inputs := by
  simp [hostFrames, Input.ofHost]

/-- A frame of the host comes after those before it. -/
@[simp] theorem hostFrames_host (inputs : List Input) (frame : Bytes) :
    hostFrames (inputs ++ [.host frame]) = hostFrames inputs ++ [frame] := by
  simp [hostFrames, Input.ofHost]

/-- What is written last is of the thread that wrote it. -/
theorem writtenBy_concat (writer : Writer) (written : List (Writer × Bytes))
    (entry : Writer × Bytes) : writtenBy writer (written ++ [entry]) =
      writtenBy writer written ++ if entry.1 = writer then [entry.2] else [] := by
  by_cases h : entry.1 = writer <;> simp [writtenBy, h]

/-- The relay of the client reads. -/
theorem Relays.takeInput (h : Relays serde label holds holds' client host s inputs sent written)
    (hreader : clientReader.Delivers holds) (hreading : s.input = .reading)
    {result : Except String (Bool × Bytes × σ)} (hread : Calls clientReader s.client result) :
    ∃ inputs, Relays serde label holds holds' client host (takeInput serde label s result) inputs
      sent written := by
  have hclient := h.client
  have hsent := h.sent
  have hreturned := h.returned
  rw [hreading] at hclient hsent hreturned
  obtain ⟨rest, hr, hframes⟩ := hclient
  have hcontinues := hread.continues hreader hr hframes
  rcases result with error | ⟨_ | _, frame, r⟩
  · exact ⟨inputs, h.pending, hcontinues, h.host, h.childStdin, h.stdout, hsent, hreturned,
      h.relayed⟩
  · exact ⟨inputs, h.pending, hcontinues, h.host, h.childStdin, h.stdout, hsent, hreturned,
      h.relayed⟩
  · -- The frame is adapted to the table as the frames before it have left it.
    have hpending : inputs.foldl (adapt serde label) [] = s.pending := h.pending.symm
    refine ⟨inputs ++ [.client frame], ?_, ?_, ?_, h.childStdin, h.stdout, ?_, ?_, ?_⟩
    · rw [pendingAfter_concat, ← h.pending]
      rfl
    · rw [clientFrames_client]
      exact hcontinues
    · rw [hostFrames_client]
      exact h.host
    · rw [outputs_concat, hsent, hpending]
      exact congrArg (· ++ _) (List.append_nil sent)
    · rw [outputs_concat, hreturned, hpending]
      exact congrArg (· ++ _) (List.append_nil _)
    · rw [outputs_concat, h.relayed]
      exact List.append_nil _

/-- Of a frame that the adapter refuses nothing is written. -/
theorem unwritten_ofAnswer (answer : Except String Bytes) :
    (RelayPhase.ofAnswer answer).unwritten some = answer.toOption.toList := by
  rcases answer with error | bytes
  · rfl
  · rfl

/-- After an answer the rest of the stream remains. -/
theorem remains_ofAnswer {answer : Except String Bytes} {r : τ} {stream rest : Bytes}
    {frames : List Bytes} (hr : holds' r rest) (hframes : frames ++ pieces rest = pieces stream) :
    Remains holds' (.ofAnswer answer) r stream frames := by
  rcases answer with error | bytes
  · exact ⟨pieces rest, hframes⟩
  · exact ⟨rest, hr, hframes⟩

/-- The relay of the host reads. -/
theorem Relays.takeOutput (h : Relays serde label holds holds' client host s inputs sent written)
    (hreader : hostReader.Delivers holds') (hreading : s.output = .reading)
    {result : Except String (Bool × Bytes × τ)} (hread : Calls hostReader s.host result) :
    ∃ inputs, Relays serde label holds holds' client host (takeOutput serde label s result) inputs
      sent written := by
  have hhost := h.host
  have hrelayed := h.relayed
  rw [hreading] at hhost hrelayed
  obtain ⟨rest, hr, hframes⟩ := hhost
  have hcontinues := hread.continues hreader hr hframes
  rcases result with error | ⟨_ | _, frame, r⟩
  · exact ⟨inputs, h.pending, h.client, hcontinues, h.childStdin, h.stdout, h.sent, h.returned,
      hrelayed⟩
  · exact ⟨inputs, h.pending, h.client, hcontinues, h.childStdin, h.stdout, h.sent, h.returned,
      hrelayed⟩
  · obtain ⟨more, hmore, hread⟩ := hcontinues
    have hpending : inputs.foldl (adapt serde label) [] = s.pending := h.pending.symm
    -- The new input is the last one, and what it gives comes last.
    have houtputs (give : PendingRequests → Input → Option Bytes) :
        outputs serde label give [] (inputs ++ [.host frame]) =
          outputs serde label give [] inputs ++ (give s.pending (.host frame)).toList := by
      rw [outputs_concat, hpending]
    refine ⟨inputs ++ [.host frame], ?_, ?_, ?_, h.childStdin, h.stdout, ?_, ?_, ?_⟩
    · rw [pendingAfter_concat, ← h.pending]
      rfl
    · rw [clientFrames_host]
      exact h.client
    · rw [hostFrames_host]
      exact remains_ofAnswer hmore hread
    · rw [houtputs, h.sent]
      exact List.append_nil _
    · rw [houtputs, h.returned]
      exact List.append_nil _
    · rw [houtputs, hrelayed]
      refine (congrArg (· ++ _) (List.append_nil _)).trans (congrArg (_ ++ ·) ?_)
      exact (unwritten_ofAnswer _).symm

/-- The relay of the client writes. -/
theorem Relays.writeInput (h : Relays serde label holds holds' client host s inputs sent written)
    {output : ClientFrame} (hwriting : s.input = .writing output) :
    ∃ sent written, Relays serde label holds holds' client host (writeInput serde s output) inputs
      sent written := by
  have hclient := h.client
  have hsent := h.sent
  have hreturned := h.returned
  rw [hwriting] at hclient hsent hreturned
  cases output with
  | forward bytes =>
    refine ⟨sent ++ [bytes], written, h.pending, hclient, h.host, ?_, h.stdout, ?_, hreturned,
      h.relayed⟩
    · rw [List.flatten_concat, ← h.childStdin]
      rfl
    · exact hsent.trans (List.append_nil _).symm
  | reject error =>
    refine ⟨sent, written ++ [(.input, encodeFrame serde error)], h.pending, hclient, h.host,
      h.childStdin, ?_, hsent, ?_, ?_⟩
    · rw [List.map_append, List.map_singleton, List.flatten_concat, ← h.stdout]
      rfl
    · rw [writtenBy_concat, if_pos rfl]
      exact hreturned.trans (List.append_nil _).symm
    · rw [writtenBy_concat, if_neg Writer.noConfusion, List.append_nil]
      exact h.relayed
  | drop =>
    exact ⟨sent, written, h.pending, hclient, h.host, h.childStdin, h.stdout, hsent, hreturned,
      h.relayed⟩

/-- The relay of the host writes. -/
theorem Relays.writeOutput (h : Relays serde label holds holds' client host s inputs sent written)
    {bytes : Bytes} (hwriting : s.output = .writing bytes) :
    ∃ written, Relays serde label holds holds' client host
      { s with output := .reading, stdout := s.stdout ++ bytes } inputs sent written := by
  have hhost := h.host
  have hrelayed := h.relayed
  rw [hwriting] at hhost hrelayed
  refine ⟨written ++ [(.output, bytes)], h.pending, h.client, hhost, h.childStdin, ?_, h.sent, ?_,
    ?_⟩
  · rw [List.map_append, List.map_singleton, List.flatten_concat, ← h.stdout]
  · rw [writtenBy_concat, if_neg Writer.noConfusion, List.append_nil]
    exact h.returned
  · rw [writtenBy_concat, if_pos rfl]
    exact hrelayed.trans (List.append_nil _).symm

/-- A step of a thread keeps the session going. -/
theorem RelayStep.relays (hclient : clientReader.Delivers holds)
    (hhost : hostReader.Delivers holds')
    (hstep : RelayStep serde label clientReader hostReader s s')
    (h : Relays serde label holds holds' client host s inputs sent written) :
    ∃ inputs sent written,
      Relays serde label holds holds' client host s' inputs sent written := by
  cases hstep with
  | readInput hreading hread =>
    obtain ⟨inputs, h⟩ := h.takeInput hclient hreading hread
    exact ⟨inputs, sent, written, h⟩
  | writeInput hwriting => exact ⟨inputs, h.writeInput hwriting⟩
  | readOutput hreading hread =>
    obtain ⟨inputs, h⟩ := h.takeOutput hhost hreading hread
    exact ⟨inputs, sent, written, h⟩
  | writeOutput hwriting => exact ⟨inputs, sent, h.writeOutput hwriting⟩

/-- Before they read, the threads have relayed nothing. -/
theorem relays_start {c : σ} {t : τ} (hc : holds c client) (ht : holds' t host) :
    Relays serde label holds holds' client host (Relay.start c t) [] [] [] :=
  ⟨rfl, ⟨client, hc, rfl⟩, ⟨host, ht, rfl⟩, rfl, rfl, rfl, rfl, rfl⟩

/-- In every order of their steps the threads relay a session. -/
theorem relays_run (hclient : clientReader.Delivers holds) (hhost : hostReader.Delivers holds')
    {c : σ} {t : τ} (hc : holds c client) (ht : holds' t host)
    (hrun : Relation.ReflTransGen (RelayStep serde label clientReader hostReader)
      (Relay.start c t) s) :
    ∃ inputs sent written, Relays serde label holds holds' client host s inputs sent written := by
  induction hrun with
  | refl => exact ⟨[], [], [], relays_start hc ht⟩
  | tail _ hstep ih =>
    obtain ⟨inputs, sent, written, h⟩ := ih
    exact hstep.relays hclient hhost h

end Keep

/-! ## The session -/

section Session

variable {σ τ : Type} {serde : Serde} {label : String} {clientReader : BufRead σ String UInt8}
  {hostReader : BufRead τ String UInt8} {holds : σ → Bytes → Prop} {holds' : τ → Bytes → Prop}
  {client host : Bytes} {s : Relay σ τ} {inputs : List Input} {sent : List Bytes}
  {written : List (Writer × Bytes)}

/-- The frames that were read are the first of the stream. -/
theorem Remains.isPrefix {α : Type} {phase : RelayPhase α} {source : σ} {stream : Bytes}
    {frames : List Bytes} (h : Remains holds phase source stream frames) :
    frames <+: pieces stream := by
  unfold Remains at h
  split at h
  · exact h
  · exact h ▸ List.prefix_rfl
  · obtain ⟨rest, -, hrest⟩ := h
    exact ⟨pieces rest, hrest⟩
  · obtain ⟨rest, -, hrest⟩ := h
    exact ⟨pieces rest, hrest⟩

/-- Every piece of a stream that ends with LF ends with it. -/
theorem getLast?_of_mem_pieces {stream piece : Bytes}
    (hstream : stream = [] ∨ stream.getLast? = some LF) (h : piece ∈ pieces stream) :
    piece.getLast? = some LF := by
  induction stream using pieces_induction with
  | nil =>
    rw [pieces_nil] at h
    cases h
  | line line rest hline ih =>
    rw [pieces_line hline] at h
    rcases List.mem_cons.mp h with rfl | h
    · exact List.getLast?_concat
    · refine ih ?_ h
      rcases rest with _ | ⟨byte, rest⟩
      · exact .inl rfl
      · refine .inr ?_
        rcases hstream with hnil | hlast
        · exact absurd hnil (List.append_ne_nil_of_right_ne_nil line (List.cons_ne_nil _ _))
        · rwa [List.getLast?_append_of_ne_nil _ (List.cons_ne_nil _ _),
            List.getLast?_cons_cons] at hlast
  | last line hline hne =>
    rw [pieces_unterminated hline hne] at h
    rw [List.mem_singleton.mp h]
    exact absurd (List.mem_of_getLast? (hstream.resolve_left hne)) hline

/-- What was written to the host is cut into the frames that were forwarded. -/
theorem Relays.pieces_childStdin (hserde : serde.Lawful)
    (h : Relays serde label holds holds' client host s inputs sent written) :
    pieces s.childStdin = sent := by
  obtain ⟨others, hothers⟩ := h.client.isPrefix
  have hread : Delimited (clientFrames inputs) := (hothers ▸ delimited_pieces client).left
  have hgiven : Delimited (outputs serde label (forwards serde label) [] inputs) :=
    hread.outputs Input.ofClient hserde forwards_cases []
  rw [h.sent] at hgiven
  rw [h.childStdin]
  exact hgiven.left.pieces_flatten

/-- What was written to the client is cut into the frames that were returned and relayed, if the
host ends its last line. -/
theorem Relays.pieces_stdout (hserde : serde.Lawful)
    (h : Relays serde label holds holds' client host s inputs sent written)
    (hhost : host = [] ∨ host.getLast? = some LF) :
    pieces s.stdout = written.map Prod.snd := by
  obtain ⟨others, hothers⟩ := h.host.isPrefix
  have hread : Delimited (hostFrames inputs) := (hothers ▸ delimited_pieces host).left
  have hrelayed : Delimited (outputs serde label (relays serde label) [] inputs) :=
    hread.outputs Input.ofHost hserde relays_cases []
  -- Each frame that was written is a line of its own, from whichever side it came.
  have hline : ∀ entry ∈ written, entry.2 ≠ [] ∧ LF ∉ Msp.content entry.2 ∧
      entry.2.getLast? = some LF := by
    intro entry hentry
    have hmem : entry.2 ∈ writtenBy entry.1 written :=
      List.mem_map_of_mem (List.mem_filter.mpr ⟨hentry, decide_eq_true rfl⟩)
    cases hwriter : entry.1 with
    | input =>
      rw [hwriter] at hmem
      have hgiven := h.returned ▸ List.mem_append_left _ hmem
      obtain ⟨_, _, _, hreturned⟩ := mem_outputs serde label hgiven
      obtain ⟨v, hv⟩ := returns_cases hreturned
      rw [hv]
      exact encodeFrame_line hserde v
    | output =>
      rw [hwriter] at hmem
      have hgiven := h.relayed ▸ List.mem_append_left _ hmem
      obtain ⟨hne, hlf⟩ := hrelayed.content _ hgiven
      refine ⟨hne, hlf, ?_⟩
      obtain ⟨_, input, hinput, hgive⟩ := mem_outputs serde label hgiven
      obtain ⟨frame, hframe, rfl | ⟨v, hv⟩⟩ := relays_cases hgive
      · -- A frame that is passed on as it came ends its line if the stream of the host does.
        refine getLast?_of_mem_pieces hhost ?_
        rw [← hothers]
        exact List.mem_append_left _ (List.mem_filterMap.mpr ⟨input, hinput, hframe⟩)
      · rw [hv]
        exact (encodeFrame_line hserde v).2.2
  have hdelimited : Delimited (written.map Prod.snd) := by
    refine ⟨fun frame hframe => ?_, List.pairwise_map.mpr (List.Pairwise.imp_of_mem ?_
      (List.pairwise_of_forall fun _ _ => trivial))⟩
    · obtain ⟨entry, hentry, rfl⟩ := List.mem_map.mp hframe
      exact ⟨(hline entry hentry).1, (hline entry hentry).2.1⟩
    · exact fun hentry _ _ => (hline _ hentry).2.2
  rw [h.stdout]
  exact hdelimited.pieces_flatten

/-- In every order of the steps of the two threads, and however the client and the host send their
streams, the adapters are given the first pieces of the two streams, each stream in its own order.
The host reads exactly the frames that were forwarded. What is written for the client is the frames
that were returned to it and those that were relayed, in the order in which they were given, and
they are the frames that it reads if the stream of the host is empty or ends with a line feed. A
thread that has come to the end of its source has read, adapted, and written all of it. -/
theorem relay_frames (hserde : serde.Lawful) (hclient : clientReader.Delivers holds)
    (hhost : hostReader.Delivers holds') {c : σ} {t : τ} (hc : holds c client) (ht : holds' t host)
    (hrun : Relation.ReflTransGen (RelayStep serde label clientReader hostReader)
      (Relay.start c t) s) :
    ∃ inputs written,
      (clientFrames inputs <+: pieces client ∧ hostFrames inputs <+: pieces host ∧
        s.pending = pendingAfter serde label inputs) ∧
      pieces s.childStdin <+: outputs serde label (forwards serde label) [] inputs ∧
      (s.stdout = (written.map Prod.snd).flatten ∧
        writtenBy .input written <+: outputs serde label (returns serde label) [] inputs ∧
        writtenBy .output written <+: outputs serde label (relays serde label) [] inputs) ∧
      (host = [] ∨ host.getLast? = some LF → pieces s.stdout = written.map Prod.snd) ∧
      (s.input = .ended → clientFrames inputs = pieces client ∧
        pieces s.childStdin = outputs serde label (forwards serde label) [] inputs ∧
        writtenBy .input written = outputs serde label (returns serde label) [] inputs) ∧
      (s.output = .ended → hostFrames inputs = pieces host ∧
        writtenBy .output written = outputs serde label (relays serde label) [] inputs) := by
  obtain ⟨inputs, sent, written, h⟩ := relays_run hclient hhost hc ht hrun
  have hsent := h.pieces_childStdin hserde
  refine ⟨inputs, written, ⟨h.client.isPrefix, h.host.isPrefix, h.pending⟩, ?_,
    ⟨h.stdout, ⟨_, h.returned.symm⟩, ⟨_, h.relayed.symm⟩⟩, h.pieces_stdout hserde, ?_, ?_⟩
  · rw [hsent]
    exact ⟨_, h.sent.symm⟩
  · intro hended
    have hread := h.client
    have hforwarded := h.sent
    have hreturned := h.returned
    rw [hended] at hread hforwarded hreturned
    rw [hsent]
    exact ⟨hread, (hforwarded.trans (List.append_nil _)).symm,
      (hreturned.trans (List.append_nil _)).symm⟩
  · intro hended
    have hread := h.host
    have hrelayed := h.relayed
    rw [hended] at hread hrelayed
    exact ⟨hread, (hrelayed.trans (List.append_nil _)).symm⟩

/-- A line that is not JSON is forwarded as it is. -/
theorem relay_frames_blank :
    ∃ s, Relation.ReflTransGen (RelayStep Compact.serde "codex" fragments fragments)
        (Relay.start [[LF]] ([] : List Bytes)) s ∧ s.childStdin = [LF] ∧
      ∃ inputs, clientFrames inputs <+: pieces [LF] ∧
        pieces s.childStdin <+: outputs Compact.serde "codex" (forwards Compact.serde "codex") []
          inputs := by
  have hpieces : pieces [LF] = [[LF]] := by
    have hline : pieces ([] ++ [LF]) = ([] ++ [LF]) :: pieces [] := pieces_line List.not_mem_nil []
    rwa [pieces_nil] at hline
  have hclient : Fragmented [[LF]] [LF] := ⟨by decide, rfl⟩
  have hforward : (adaptClientFrame Compact.serde "codex" [LF] []).1 = .forward [LF] := by
    decide +kernel
  obtain ⟨n, result, hcall, hreturns⟩ := readFrame_spec fragments_delivers hclient
  rw [Returns, hpieces] at hreturns
  obtain ⟨r, rest, rfl, -⟩ := hreturns
  -- The relay of the client reads the line, and writes it.
  have hread : RelayStep Compact.serde "codex" fragments fragments
      (Relay.start [[LF]] ([] : List Bytes)) _ :=
    .readInput rfl ⟨n, hcall⟩
  have hphase : (takeInput Compact.serde "codex" (Relay.start [[LF]] ([] : List Bytes))
      (.ok (true, [LF], r))).input = .writing (.forward [LF]) :=
    congrArg RelayPhase.writing hforward
  have hrun := (Relation.ReflTransGen.single hread).tail (.writeInput hphase)
  obtain ⟨inputs, -, hread, hsent, -⟩ :=
    relay_frames Compact.lawful fragments_delivers fragments_delivers hclient
      (⟨by decide, rfl⟩ : Fragmented [] []) hrun
  exact ⟨_, hrun, rfl, inputs, hread.1, hsent⟩

end Session

end MuseCodex.Msp
