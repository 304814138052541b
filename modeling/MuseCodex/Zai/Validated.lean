import MuseCodex.Gateway.Frame
import MuseCodex.Zai.Load

/-!
# The gateway forwards the synthesized stream

The synthesizer and the gateway are written apart and agree only on the events between them. Here
each event that the synthesizer queues is shown to be `Presentable`: a document that reads back
from its own text, of a kind that the gateway knows, with the shape that it requires. A stream that
ends with its response is then forwarded byte for byte (`validatedStream_responsesStream`).

What upstream sends reaches an event only as the text of a string or as a count of tokens, and a
response id is cut down to a small alphabet. The other numbers are counters of the synthesizer,
which stay below the number of bytes received (`replay_load_le`), so all that is asked of the
upstream body is that it has fewer than `2^63` bytes.
-/

namespace MuseCodex.Zai

open Text Json

/-! ## Events that the gateway accepts -/

/-- The kinds of the events of a stream that does not fail. -/
def sentKinds : List String :=
  ["response.created",
    "response.in_progress",
    "response.completed",
    "response.incomplete",
    "response.output_item.added",
    "response.output_item.done"] ++ updateKinds

/-- An event whose frame the gateway keeps. -/
structure Presentable (e : Event) : Prop where
  kind : e.kind ∈ sentKinds
  object : ∃ m, e.value = .object m
  plain : Plain 127 e.value
  type : e.value.get "type" = some (.string e.kind)
  number : ∃ n, e.value.get "sequence_number" = some (.ofNat n)
  shape : Gateway.validateEventShape e.kind e.value = .ok ()

/-- What the gateway knows of the kinds that are sent. -/
theorem sentKinds_known : ∀ kind ∈ sentKinds, OneLine kind ∧ Gateway.isKnownEvent kind ∧
    Gateway.isMetadataEvent kind = false ∧ Gateway.isFailureEvent kind = false ∧
    kind ≠ "response.cancelled" ∧ kind ≠ "error" := by
  decide

/-- The members that the gateway asks of the kinds that are sent. -/
structure Shaped (kind : String) (body : List (String × Value)) : Prop where
  response : Gateway.isLifecycleEvent kind → ∃ m id,
    (Map.ofEntries body).get "response" = some (.object m) ∧
      Map.get m "id" = some (.string id) ∧ Gateway.safeProtocolIdentifier id = true
  delta : Gateway.isDeltaEvent kind → ∃ text,
    (Map.ofEntries body).get "delta" = some (.string text)
  item : Gateway.isItemEvent kind → ∃ m, (Map.ofEntries body).get "item" = some (.object m)

/-- Reading a member of an event that its body gives. -/
theorem Event.of_get (n : ℕ) (kind : String) (body : List (String × Value)) {key : String}
    (htype : key ≠ "type") (hnumber : key ≠ "sequence_number") :
    (Event.of n kind body).value.get key = (Map.ofEntries body).get key := by
  simp [Event.of, htype, hnumber]

/-- An event with the members that the gateway asks for has the shape of its kind. -/
theorem validateEventShape_of {kind : String} (hkind : kind ∈ sentKinds) (n : ℕ)
    {body : List (String × Value)} (h : Shaped kind body) :
    Gateway.validateEventShape kind (Event.of n kind body).value = .ok () := by
  obtain ⟨-, -, -, -, hcancelled, herror⟩ := sentKinds_known kind hkind
  have hget {key : String} (hkey : key ≠ "type" ∧ key ≠ "sequence_number") :=
    Event.of_get n kind body hkey.1 hkey.2
  have hresponse := hget (show "response" ≠ "type" ∧ "response" ≠ "sequence_number" by decide)
  have hdelta := hget (show "delta" ≠ "type" ∧ "delta" ≠ "sequence_number" by decide)
  have hitem := hget (show "item" ≠ "type" ∧ "item" ≠ "sequence_number" by decide)
  unfold Gateway.validateEventShape
  rw [Gateway.firstFailure_eq_ok, hresponse, hdelta, hitem]
  simp only [List.forall_mem_cons, List.not_mem_nil, false_imp_iff, implies_true, and_true]
  refine ⟨?_, ?_, by simp [hcancelled], ?_, ?_, by simp [herror]⟩
  · by_cases hlife : Gateway.isLifecycleEvent kind
    · obtain ⟨m, id, hresponse, -, -⟩ := h.response hlife
      simp [hresponse]
    · simp [hlife]
  · by_cases hlife : Gateway.isLifecycleEvent kind
    · obtain ⟨m, id, hresponse, hid, hsafe⟩ := h.response hlife
      simp [hresponse, hid, hsafe]
    · simp [hlife]
  · by_cases hdelta : Gateway.isDeltaEvent kind
    · obtain ⟨text, htext⟩ := h.delta hdelta
      simp [htext, Value.isString]
    · simp [hdelta]
  · by_cases hitem : Gateway.isItemEvent kind
    · obtain ⟨m, hm⟩ := h.item hitem
      simp [hm, Value.isObject]
    · simp [hitem]

/-- What the gateway reads of an event. -/
def Event.inspected (e : Event) : Gateway.InspectedEvent := ⟨e.kind, e.sequenceNumber, e.value⟩

/-- An event whose frame the gateway reads as the event, whether or not it has the shape of its
kind. -/
structure Readable (e : Event) : Prop where
  line : OneLine e.kind
  known : Gateway.isKnownEvent e.kind = true
  metadata : Gateway.isMetadataEvent e.kind = false
  object : ∃ m, e.value = .object m
  plain : Plain 127 e.value
  type : e.value.get "type" = some (.string e.kind)
  number : ∃ n, e.value.get "sequence_number" = some (.ofNat n)

/-- An event of a known kind with plain members is readable. -/
theorem readable_of {kind : String} (hline : OneLine kind)
    (hknown : Gateway.isKnownEvent kind = true) (hmeta : Gateway.isMetadataEvent kind = false)
    {n : ℕ} (hn : n < 2 ^ 64) {body : List (String × Value)} (hplain : ∀ p ∈ body, Plain 8 p.2) :
    Readable (.of n kind body) where
  line := hline
  known := hknown
  metadata := hmeta
  object := ⟨_, rfl⟩
  plain := by
    have hsorted := ((Map.ofEntries_sorted body).insert "type" (.string kind)).insert
      "sequence_number" (.ofNat n)
    apply Plain.mono (Plain.object 8 hsorted ?_) (by decide)
    intro p hp
    rcases Map.mem_insert hp with rfl | hp
    · exact .posInt _ hn
    rcases Map.mem_insert hp with rfl | hp
    · exact .string _ _
    · exact hplain p (Map.mem_of_mem_ofEntries hp)
  type := by simp [Event.of]
  number := ⟨n, by simp [Event.of]⟩

/-- The gateway keeps the frame of a readable event when it has the shape of its kind. -/
theorem Readable.inspectFrame {serde : Serde} (hserde : serde.Lawful) {e : Event}
    (h : Readable e) : Gateway.inspectFrame serde (e.render serde) =
      (Gateway.validateEventShape e.kind e.value).map fun _ => .keep e.inspected := by
  obtain ⟨n, hn⟩ := h.number
  obtain ⟨m, hm⟩ := h.object
  -- The text of the document starts with a brace, so it is not the sentinel.
  have hdone : serde.toString e.value ≠ "[DONE]" := by
    intro hdone
    have hhead := hserde.toString_object m
    rw [← hm, hdone] at hhead
    exact absurd hhead (by decide)
  have hframe : Gateway.inspectFrame serde (e.render serde) =
      Gateway.inspectValue (some e.kind) e.value :=
    Gateway.inspectFrame_eventFrame h.line (hserde.toString_line e.value) hdone
      (hserde.fromStr_toString e.value h.plain)
  have hnumber : e.sequenceNumber = some n := by
    rw [Event.sequenceNumber, hn, Option.bind_some, Value.asU64_ofNat]
  rw [hframe, Gateway.inspectValue, h.type, Option.bind_some, Value.asStr_string]
  dsimp only
  rw [if_neg (by simp), if_neg (by simp [h.metadata, h.known]), Gateway.sequenceNumberOf, hn]
  dsimp only
  rw [Value.asU64_ofNat, Event.inspected, hnumber]
  dsimp only
  cases Gateway.validateEventShape e.kind e.value with
  | error reason => rfl
  | ok =>
    dsimp only
    rw [if_neg (by simp [h.metadata])]
    rfl

/-- The scanner finds the frame of a readable event, whatever follows it. -/
theorem Readable.scan {serde : Serde} (hserde : serde.Lawful) {e : Event} (h : Readable e)
    (t : Bytes) : Gateway.completeFrameLen (e.render serde ++ t) = some (e.render serde).length :=
  Gateway.eventFrame_scan h.line (hserde.toString_line e.value) t

/-- An event with plain members and the shape of its kind is presentable. -/
theorem presentable_of {kind : String} (hkind : kind ∈ sentKinds) {n : ℕ} (hn : n < 2 ^ 64)
    {body : List (String × Value)} (hplain : ∀ p ∈ body, Plain 8 p.2) (h : Shaped kind body) :
    Presentable (.of n kind body) := by
  obtain ⟨hline, hknown, hmeta, -, -, -⟩ := sentKinds_known kind hkind
  have hreadable := readable_of hline hknown hmeta hn hplain
  exact ⟨hkind, hreadable.object, hreadable.plain, hreadable.type, hreadable.number,
    validateEventShape_of hkind n h⟩

/-- A presentable event is readable. -/
theorem Presentable.readable {e : Event} (h : Presentable e) : Readable e := by
  obtain ⟨hline, hknown, hmeta, -, -, -⟩ := sentKinds_known e.kind h.kind
  exact ⟨hline, hknown, hmeta, h.object, h.plain, h.type, h.number⟩

/-- The gateway keeps the frame of a presentable event. -/
theorem Presentable.inspectFrame {serde : Serde} (hserde : serde.Lawful) {e : Event}
    (h : Presentable e) :
    Gateway.inspectFrame serde (e.render serde) = .ok (.keep e.inspected) := by
  rw [h.readable.inspectFrame hserde, h.shape]
  rfl

/-! ## Items -/

/-- The item of a call is a plain document. -/
theorem PendingCall.item_plain (entry : PendingCall) (status text : String) :
    Plain 4 (entry.item status text) := by
  apply Plain.mono _ (show 1 ≤ 4 by decide)
  unfold PendingCall.item
  split_ifs <;> refine Plain.obj fun p hp => ?_
  all_goals
    simp only [List.mem_cons, List.not_mem_nil, or_false] at hp
    rcases hp with rfl | rfl | rfl | rfl | rfl | rfl <;> exact .string _ _

/-- The item of a call is an object. -/
theorem PendingCall.item_object (entry : PendingCall) (status text : String) :
    ∃ m, entry.item status text = .object m := by
  unfold PendingCall.item
  split_ifs <;> exact ⟨_, rfl⟩

/-- A part with a text is a plain document. -/
theorem Channel.part_plain (c : Channel) (text : String) : Plain 2 (c.part text) := by
  cases c with
  | reasoning =>
    refine Plain.obj fun p hp => ?_
    simp only [List.mem_cons, List.not_mem_nil, or_false] at hp
    rcases hp with rfl | rfl <;> exact .string _ _
  | message =>
    refine Plain.obj fun p hp => ?_
    simp only [List.mem_cons, List.not_mem_nil, or_false] at hp
    rcases hp with rfl | rfl | rfl
    · exact .string _ _
    · exact .string _ _
    · exact .array _ (by simp)

/-- An item with such parts is a plain document. -/
theorem Channel.item_plain (c : Channel) (id status : String) {parts : List Value}
    (h : ∀ part ∈ parts, Plain 2 part) : Plain 4 (c.item id status parts) := by
  have hparts : Plain 3 (.array parts) := .array 2 h
  cases c with
  | reasoning =>
    refine Plain.obj fun p hp => ?_
    simp only [List.mem_cons, List.not_mem_nil, or_false] at hp
    rcases hp with rfl | rfl | rfl
    · exact .string _ _
    · exact .string _ _
    · exact hparts
  | message =>
    refine Plain.obj fun p hp => ?_
    simp only [List.mem_cons, List.not_mem_nil, or_false] at hp
    rcases hp with rfl | rfl | rfl | rfl | rfl
    · exact .string _ _
    · exact .string _ _
    · exact .string _ _
    · exact .string _ _
    · exact hparts

/-- An item of a channel is an object. -/
theorem Channel.item_object (c : Channel) (id status : String) (parts : List Value) :
    ∃ m, c.item id status parts = .object m := by
  cases c <;> exact ⟨_, rfl⟩

/-- The counts of a chunk fit 64 bits, and so does the sum that stands in for their total. -/
theorem mapUsage_plain {usage : Value} (h : InRange usage) : Plain 1 (mapUsage usage) := by
  have hcount {key : String} {n : ℕ} (hn : (usage.get key).bind Value.asU64 = some n) :
      n < 2 ^ 64 := by
    obtain ⟨v, hv, hn⟩ := Option.bind_eq_some_iff.mp hn
    exact (h.get hv).asU64_lt hn
  refine Plain.obj fun p hp => ?_
  simp only [List.mem_append, Option.mem_toList, Option.map_eq_some_iff, List.mem_singleton] at hp
  rcases hp with (⟨n, hn, rfl⟩ | ⟨n, hn, rfl⟩) | rfl
  · exact .posInt _ (hcount hn)
  · exact .posInt _ (hcount hn)
  · refine .posInt _ ?_
    cases htotal : (usage.get "total_tokens").bind Value.asU64 with
    | none => exact Nat.mod_lt _ (by decide)
    | some total => exact hcount htotal

/-- An event that adds or ends an item. -/
theorem presentable_item {kind : String}
    (hkind : kind = "response.output_item.added" ∨ kind = "response.output_item.done") {n i : ℕ}
    (hn : n < 2 ^ 64) (hi : i < 2 ^ 64) {item : Value} (hobject : ∃ m, item = .object m)
    (hplain : Plain 4 item) :
    Presentable (.of n kind [("output_index", .ofNat i), ("item", item)]) := by
  obtain ⟨m, rfl⟩ := hobject
  refine presentable_of (by rcases hkind with rfl | rfl <;> decide) hn ?_ ⟨?_, ?_, ?_⟩
  · intro p hp
    simp only [List.mem_cons, List.not_mem_nil, or_false] at hp
    rcases hp with rfl | rfl
    · exact .posInt _ hi
    · exact hplain.mono (by decide)
  · rcases hkind with rfl | rfl <;> exact fun h => absurd h (by decide)
  · rcases hkind with rfl | rfl <;> exact fun h => absurd h (by decide)
  · exact fun _ => ⟨m, by simp [Map.ofEntries]⟩

/-- An event about an item that is open. -/
theorem presentable_update {kind : String} (hkind : kind ∈ updateKinds) {n i : ℕ}
    (hn : n < 2 ^ 64) (hi : i < 2 ^ 64) (id : String) {body : List (String × Value)}
    (hplain : ∀ p ∈ body, Plain 8 p.2)
    (hdelta : Gateway.isDeltaEvent kind → ∃ text, body.getLast? = some ("delta", .string text)) :
    Presentable (.of n kind (("item_id", .string id) :: ("output_index", .ofNat i) :: body)) := by
  have hkinds : ∀ kind ∈ updateKinds, Gateway.isLifecycleEvent kind = false ∧
      Gateway.isItemEvent kind = false := by
    decide
  obtain ⟨hlife, hitem⟩ := hkinds kind hkind
  refine presentable_of (List.mem_append_right _ hkind) hn ?_ ⟨by simp [hlife], ?_, by simp [hitem]⟩
  · intro p hp
    rcases List.mem_cons.mp hp with rfl | hp
    · exact .string _ _
    rcases List.mem_cons.mp hp with rfl | hp
    · exact .posInt _ hi
    · exact hplain p hp
  · intro h
    obtain ⟨text, hlast⟩ := hdelta h
    obtain ⟨front, rfl⟩ := List.getLast?_eq_some_iff.mp hlast
    refine ⟨text, ?_⟩
    rw [← List.cons_append, ← List.cons_append, Map.ofEntries_concat, Map.get_insert, if_pos rfl]

/-! ## The state -/

namespace Synthesis

/-- All that is queued is presentable, and so is what the response will carry, but for its token
counts. The indices that have been given out fit 64 bits. -/
structure Presented (st : Synthesis) : Prop where
  pending : ∀ e ∈ st.pending, Presentable e
  output : ∀ item ∈ st.output, Plain 4 item
  slots : ∀ c, ∀ item ∈ st.slot c, item.outputIndex < 2 ^ 64
  calls : ∀ call ∈ st.calls, call.outputIndex < 2 ^ 64

/-- A state that differs in nothing that is sent. -/
theorem Presented.of_eq {st st' : Synthesis} (h : st.Presented) (hpending : st'.pending = st.pending)
    (houtput : st'.output = st.output) (hslots : ∀ c, st'.slot c = st.slot c)
    (hcalls : ∀ call ∈ st'.calls, call.outputIndex < 2 ^ 64) : st'.Presented :=
  ⟨hpending ▸ h.pending, houtput ▸ h.output, fun c => hslots c ▸ h.slots c, hcalls⟩

/-- An item whose place is in range can be opened. -/
theorem Presented.setSlot {st : Synthesis} (h : st.Presented) (c : Channel)
    {item : Option TextItem} (hitem : ∀ i ∈ item, i.outputIndex < 2 ^ 64) :
    (st.setSlot c item).Presented := by
  have hslots : ∀ d, ∀ i ∈ (st.setSlot c item).slot d, i.outputIndex < 2 ^ 64 := by
    intro d
    by_cases hd : d = c
    · rw [hd, slot_setSlot]
      exact hitem
    · rw [slot_setSlot_of_ne hd]
      exact h.slots d
  cases c <;> exact ⟨h.pending, h.output, hslots, h.calls⟩

/-- One call of the table changes, to one whose index fits 64 bits. -/
theorem Presented.setCall {st : Synthesis} (h : st.Presented) (index : ℕ) {entry : PendingCall}
    (hentry : entry.outputIndex < 2 ^ 64) : (st.setCall index entry).Presented := by
  refine h.of_eq rfl rfl (slot_congr rfl rfl) fun call hcall => ?_
  rcases List.mem_or_eq_of_mem_set hcall with hmem | rfl
  · exact h.calls call hmem
  · exact hentry

/-- The index of a call fits 64 bits, also of one that is not there. -/
theorem Presented.callAt_lt {st : Synthesis} (h : st.Presented) (index : ℕ) :
    (st.callAt index).outputIndex < 2 ^ 64 := by
  rw [callAt, List.getD_eq_getElem?_getD]
  cases hcall : st.calls[index]? with
  | none => decide
  | some call => exact h.calls call (List.mem_of_getElem? hcall)

/-- An event that can be presented can be sent. -/
theorem Presented.emit {st : Synthesis} (h : st.Presented) {kind : String}
    {body : List (String × Value)} (he : Presentable (.of st.sequence kind body)) :
    (st.emit kind body).Presented := by
  refine ⟨?_, h.output, fun c => slot_emit c kind body st ▸ h.slots c, h.calls⟩
  intro e hmem
  rcases List.mem_append.mp hmem with hmem | hmem
  · exact h.pending e hmem
  · rw [List.mem_singleton.mp hmem]
    exact he

/-- One more item in the output. -/
theorem Presented.addOutput {st : Synthesis} (h : st.Presented) {item : Value}
    (hplain : Plain 4 item) : ({ st with output := st.output ++ [item] } : Synthesis).Presented := by
  refine ⟨h.pending, ?_, fun c => by cases c; exacts [h.slots .reasoning, h.slots .message],
    h.calls⟩
  intro i hi
  rcases List.mem_append.mp hi with hi | hi
  · exact h.output i hi
  · rw [List.mem_singleton.mp hi]
    exact hplain

/-- An event about an item with one number and one further member. -/
theorem Presented.emit_channel {st : Synthesis} (h : st.Presented) {kind : String}
    (hkind : kind ∈ updateKinds) (hn : st.sequence < 2 ^ 64) {i : ℕ} (hi : i < 2 ^ 64)
    (id indexKey key : String) {value : Value} (hplain : Plain 2 value)
    (hdelta : Gateway.isDeltaEvent kind → ∃ text, (key, value) = ("delta", .string text)) :
    (st.emit kind [("item_id", .string id), ("output_index", .ofNat i), (indexKey, .ofNat 0),
      (key, value)]).Presented := by
  refine h.emit (presentable_update hkind hn hi id ?_ ?_)
  · intro p hp
    simp only [List.mem_cons, List.not_mem_nil, or_false] at hp
    rcases hp with rfl | rfl
    · exact .posInt _ (by decide)
    · exact hplain.mono (by decide)
  · intro hd
    obtain ⟨text, heq⟩ := hdelta hd
    exact ⟨text, by rw [← heq]; rfl⟩

/-- An event about a call with one further text. -/
theorem Presented.emit_call {st : Synthesis} (h : st.Presented) {kind : String}
    (hkind : kind ∈ updateKinds) (hn : st.sequence < 2 ^ 64) {i : ℕ} (hi : i < 2 ^ 64)
    (id key text : String) (hdelta : Gateway.isDeltaEvent kind → key = "delta") :
    (st.emit kind [("item_id", .string id), ("output_index", .ofNat i),
      (key, .string text)]).Presented := by
  refine h.emit (presentable_update hkind hn hi id ?_ ?_)
  · intro p hp
    rw [List.mem_singleton.mp hp]
    exact .string _ _
  · intro hd
    exact ⟨text, by rw [hdelta hd]; rfl⟩

/-- The numbers that are given out fit 64 bits. -/
structure Room (st : Synthesis) : Prop where
  sequence : st.sequence ≤ 2 ^ 64
  index : st.nextOutputIndex ≤ 2 ^ 64

/-- The events of a call that ends. -/
theorem Presented.closeToolCall {serde : Serde} {st : Synthesis} (h : st.Presented)
    {call : PendingCall} (hi : call.outputIndex < 2 ^ 64)
    (hroom : (closeToolCall serde st call).sequence ≤ 2 ^ 64) :
    (closeToolCall serde st call).Presented := by
  have hended {st : Synthesis} (h : st.Presented) (hn : st.sequence < 2 ^ 64) :
      ({ st.emit "response.output_item.done" [("output_index", .ofNat call.outputIndex),
          ("item", call.item "completed" (callText serde call))] with
        output := st.output ++ [call.item "completed" (callText serde call)] } :
          Synthesis).Presented := by
    have hitem := h.emit (presentable_item (.inr rfl) hn hi
      (call.item_object "completed" (callText serde call)) (call.item_plain _ _))
    exact hitem.addOutput (call.item_plain _ _)
  unfold Synthesis.closeToolCall at hroom ⊢
  dsimp only at hroom ⊢
  split_ifs at hroom ⊢
  · -- The text and its end are sent before the item ends.
    have hthree : st.sequence + 1 + 1 + 1 ≤ 2 ^ 64 := hroom
    have hdelta := h.emit_call (show "response.custom_tool_call_input.delta" ∈ updateKinds by decide)
      (by omega) hi call.id "delta" (callText serde call) (fun _ => rfl)
    have hinput := hdelta.emit_call
      (show "response.custom_tool_call_input.done" ∈ updateKinds by decide)
      (show st.sequence + 1 < 2 ^ 64 by omega) hi call.id "input" (callText serde call)
      (fun hd => absurd hd (by decide))
    exact hended hinput (show st.sequence + 1 + 1 < 2 ^ 64 by omega)
  · have htwo : st.sequence + 1 + 1 ≤ 2 ^ 64 := hroom
    have harguments := h.emit_call
      (show "response.function_call_arguments.done" ∈ updateKinds by decide)
      (by omega) hi call.id "arguments" (callText serde call) (fun hd => absurd hd (by decide))
    exact hended harguments (show st.sequence + 1 < 2 ^ 64 by omega)

/-- Numbers are given out in order, so there was room before. -/
theorem Step.room {serde : Serde} {st st' : Synthesis} (hstep : Step serde st st')
    (h : st'.Room) : st.Room := by
  have hle : st.sequence ≤ st'.sequence ∧ st.nextOutputIndex ≤ st'.nextOutputIndex := by
    cases hstep with
    | openItem c hslot =>
      rw [Synthesis.openItem, hslot c]
      cases c <;> exact ⟨Nat.le_add_right _ 2, Nat.le_succ _⟩
    | @extendItem c _ delta hslot =>
      rw [Synthesis.extendItem, hslot]
      cases c <;> exact ⟨Nat.le_succ _, Nat.le_refl _⟩
    | @closeItem c _ hslot =>
      rw [Synthesis.closeItem, hslot]
      cases c <;> exact ⟨Nat.le_add_right _ 3, Nat.le_refl _⟩
    | reserveCall hi hid =>
      rw [Synthesis.reserveCall, if_pos hid]
      exact ⟨Nat.le_refl _, Nat.le_succ _⟩
    | updateCall | forgetCall => exact ⟨Nat.le_refl _, Nat.le_refl _⟩
    | announceCall | sendArguments => exact ⟨Nat.le_succ _, Nat.le_refl _⟩
    | closeCall =>
      unfold Synthesis.closeToolCall
      dsimp only
      split_ifs
      · exact ⟨Nat.le_add_right _ 3, Nat.le_refl _⟩
      · exact ⟨Nat.le_add_right _ 2, Nat.le_refl _⟩
  have hsequence := h.sequence
  have hindex := h.index
  exact ⟨by omega, by omega⟩

/-- A step queues only what is presentable, as long as there is room. -/
theorem Step.presented {serde : Serde} {st st' : Synthesis} (hstep : Step serde st st')
    (hroom : st'.Room) (h : st.Presented) : st'.Presented := by
  cases hstep with
  | forgetCall hcalls =>
    refine h.of_eq rfl rfl (slot_congr rfl rfl) fun call hcall => h.calls call ?_
    rw [hcalls]
    exact List.mem_cons_of_mem _ hcall
  | updateCall hi entry hid hindex =>
    refine h.setCall _ ?_
    rw [hindex]
    exact h.callAt_lt _
  | openItem c hslot =>
    -- Two events are sent and one place is taken; the counters stay in range as they end there.
    have hcounters : (st.openItem c).sequence = st.sequence + 1 + 1 ∧
        (st.openItem c).nextOutputIndex = st.nextOutputIndex + 1 := by
      rw [Synthesis.openItem, hslot c]
      cases c <;> exact ⟨rfl, rfl⟩
    have hsequence := hroom.sequence
    have hindex := hroom.index
    have hi : st.nextOutputIndex < 2 ^ 64 := by omega
    have hnext : ({ st with nextOutputIndex := st.nextOutputIndex + 1 } : Synthesis).Presented :=
      h.of_eq rfl rfl (slot_congr rfl rfl) h.calls
    have hadded := hnext.emit (presentable_item (.inl rfl) (show st.sequence < 2 ^ 64 by omega) hi
      (c.item_object (st.itemId c.idTag st.nextOutputIndex) "in_progress" [])
      (c.item_plain _ _ (by simp)))
    have hpart := hadded.emit_channel (show c.partAddedKind ∈ updateKinds by cases c <;> decide)
      (show st.sequence + 1 < 2 ^ 64 by omega) hi (st.itemId c.idTag st.nextOutputIndex)
      c.indexKey "part" (c.part_plain "") (by cases c <;> exact fun hd => absurd hd (by decide))
    unfold Synthesis.openItem
    rw [hslot c]
    refine hpart.setSlot c fun item hitem => ?_
    rw [← Option.some.inj hitem]
    exact hi
  | @extendItem c current delta hslot =>
    have hcounter : (st.extendItem c delta).sequence = st.sequence + 1 := by
      rw [Synthesis.extendItem, hslot]
      cases c <;> rfl
    have hsequence := hroom.sequence
    have hi := h.slots c current hslot
    -- The item keeps its place.
    have hset : (st.setSlot c (some { current with text := current.text ++ delta })).Presented := by
      refine h.setSlot c fun item hitem => ?_
      rw [← Option.some.inj hitem]
      exact hi
    have hn : (st.setSlot c (some { current with text := current.text ++ delta })).sequence <
        2 ^ 64 := by
      rw [(beside_setSlot c _ st).sequence]
      omega
    unfold Synthesis.extendItem
    rw [hslot]
    exact hset.emit_channel (by cases c <;> decide) hn hi _ _ _ (.string _ _) fun _ => ⟨delta, rfl⟩
  | @closeItem c current hslot =>
    have hcounter : (st.closeItem c).sequence = st.sequence + 1 + 1 + 1 := by
      rw [Synthesis.closeItem, hslot]
      cases c <;> rfl
    have hsequence := hroom.sequence
    have hi := h.slots c current hslot
    have hset := h.setSlot c (show ∀ i ∈ none, TextItem.outputIndex i < 2 ^ 64 by simp)
    have hn : (st.setSlot c none).sequence + 1 + 1 < 2 ^ 64 := by
      rw [(beside_setSlot c none st).sequence]
      omega
    -- The three events carry the place of the item, each with the next number.
    have htext := hset.emit_channel (show c.textDoneKind ∈ updateKinds by cases c <;> decide)
      (by omega) hi current.id c.indexKey "text" (.string 2 current.text)
      (by cases c <;> exact fun hd => absurd hd (by decide))
    have hpart := htext.emit_channel (show c.partDoneKind ∈ updateKinds by cases c <;> decide)
      (show (st.setSlot c none).sequence + 1 < 2 ^ 64 by omega) hi current.id c.indexKey "part"
      (c.part_plain current.text) (by cases c <;> exact fun hd => absurd hd (by decide))
    have hplain := c.item_plain current.id "completed"
      (show ∀ part ∈ [c.part current.text], Plain 2 part by simpa using c.part_plain current.text)
    have hdone := hpart.emit (presentable_item (.inr rfl)
      (show (st.setSlot c none).sequence + 1 + 1 < 2 ^ 64 from hn) hi
      (c.item_object current.id "completed" [c.part current.text]) hplain)
    unfold Synthesis.closeItem
    rw [hslot]
    exact hdone.addOutput hplain
  | reserveCall hi hid =>
    unfold Synthesis.reserveCall at hroom ⊢
    rw [if_pos hid] at hroom ⊢
    have hindex : st.nextOutputIndex + 1 ≤ 2 ^ 64 := hroom.index
    have hnext : ({ st with nextOutputIndex := st.nextOutputIndex + 1 } : Synthesis).Presented :=
      h.of_eq rfl rfl (slot_congr rfl rfl) h.calls
    exact hnext.setCall _ (show st.nextOutputIndex < 2 ^ 64 by omega)
  | @announceCall index hi hid hnot =>
    have hsequence : st.sequence + 1 ≤ 2 ^ 64 := hroom.sequence
    have hset := h.setCall index
      (show { st.callAt index with announced := true }.outputIndex < 2 ^ 64 from h.callAt_lt index)
    exact hset.emit (presentable_item (.inl rfl) (show st.sequence < 2 ^ 64 by omega)
      (h.callAt_lt index) ((st.callAt index).item_object _ _) ((st.callAt index).item_plain _ _))
  | @sendArguments index hi hannounced fragment =>
    have hsequence : st.sequence + 1 ≤ 2 ^ 64 := hroom.sequence
    exact h.emit_call (by decide) (by omega) (h.callAt_lt index) _ "delta" fragment fun _ => rfl
  | @closeCall call calls hcalls hannounced =>
    -- The places of all calls are in range, also that of the one that is done.
    have hcall : ∀ c ∈ call :: calls, c.outputIndex < 2 ^ 64 := hcalls ▸ h.calls
    have hrest : ({ st with calls } : Synthesis).Presented :=
      h.of_eq rfl rfl (slot_congr rfl rfl) fun c hc => hcall c (List.mem_cons_of_mem _ hc)
    exact hrest.closeToolCall (hcall call List.mem_cons_self) hroom.sequence

/-- A move queues only what is presentable, as long as there is room, and there was room before. -/
theorem Move.presented {serde : Serde} {st st' : Synthesis} (hmove : Move serde st st')
    (hroom : st'.Room) : st.Room ∧ (st.Presented → st'.Presented) := by
  cases hmove with
  | usage =>
    refine ⟨⟨hroom.sequence, hroom.index⟩, fun h => ?_⟩
    exact h.of_eq rfl rfl (slot_congr rfl rfl) h.calls
  | growCalls index =>
    refine ⟨⟨hroom.sequence, hroom.index⟩, fun h => ?_⟩
    refine h.of_eq rfl rfl (slot_congr rfl rfl) fun call hcall => ?_
    rcases List.mem_append.mp hcall with hcall | hcall
    · exact h.calls call hcall
    · rw [List.eq_of_mem_replicate hcall]
      decide
  | step hstep => exact ⟨hstep.room hroom, hstep.presented hroom⟩

/-- Moves within the room keep a response presentable. -/
theorem Moves.presented {serde : Serde} {st st' : Synthesis} (hmoves : Moves serde st st')
    (hroom : st'.Room) (h : st.Presented) : st'.Presented := by
  induction hmoves with
  | refl => exact h
  | tail _ hmove ih =>
    obtain ⟨hbefore, hstep⟩ := hmove.presented hroom
    exact hstep (ih hbefore)

/-! ## The start and the end -/

/-- An identifier is short and made of a small alphabet. -/
theorem sanitizeIdentifier_chars (value : String) :
    (sanitizeIdentifier value).toList.length ≤ MAX_IDENTIFIER_BYTES ∧
      ∀ c ∈ (sanitizeIdentifier value).toList, isAsciiAlphanumeric c ∨ c = '_' ∨ c = '-' := by
  unfold sanitizeIdentifier
  dsimp only
  split_ifs with h
  · have hchars : ("unknown".toList.all fun c => isAsciiAlphanumeric c) = true := by decide
    exact ⟨by decide, fun c hc => .inl (List.all_eq_true.mp hchars c hc)⟩
  · rw [String.toList_ofList]
    refine ⟨List.length_take_le _ _, ?_⟩
    intro c hc
    have hfilter := (List.mem_filter.mp (List.mem_of_mem_take hc)).2
    simpa [or_assoc] using hfilter

/-- The alphabet of identifiers has no control character and no whitespace. -/
theorem identifier_char {c : Char} (h : isAsciiAlphanumeric c ∨ c = '_' ∨ c = '-') :
    isControl c = false ∧ isWhitespace c = false := by
  have hnat : 0x2d ≤ c.toNat ∧ c.toNat ≤ 0x7a := by
    rcases h with h | rfl | rfl
    · simp only [isAsciiAlphanumeric, Bool.or_eq_true, Bool.and_eq_true, decide_eq_true_eq] at h
      omega
    · decide
    · decide
  simp only [isControl, isWhitespace, Bool.or_eq_false_iff, Bool.and_eq_false_iff,
    decide_eq_false_iff_not]
  omega

/-- A response id is one that the gateway accepts. -/
theorem safeProtocolIdentifier_responseId (value : String) :
    Gateway.safeProtocolIdentifier ("resp_" ++ sanitizeIdentifier value) = true := by
  obtain ⟨hlength, hchars⟩ := sanitizeIdentifier_chars value
  have hsize : ("resp_" ++ sanitizeIdentifier value).utf8ByteSize ≤ 512 := by
    have hle := utf8ByteSize_le (sanitizeIdentifier value)
    rw [String.utf8ByteSize_append, show "resp_".utf8ByteSize = 5 by decide]
    unfold MAX_IDENTIFIER_BYTES at hlength
    omega
  have hne : "resp_" ++ sanitizeIdentifier value ≠ "" := by
    intro h
    have := congrArg String.toList h
    simp [String.toList_append] at this
  have hall : ∀ c ∈ ("resp_" ++ sanitizeIdentifier value).toList,
      isControl c = false ∧ isWhitespace c = false := by
    intro c hc
    rw [String.toList_append, List.mem_append] at hc
    rcases hc with hc | hc
    · have hstart : ("resp_".toList.all fun c => !isControl c && !isWhitespace c) = true := by
        decide
      simpa using List.all_eq_true.mp hstart c hc
    · exact identifier_char (hchars c hc)
  generalize "resp_" ++ sanitizeIdentifier value = id at hsize hne hall ⊢
  unfold Gateway.safeProtocolIdentifier
  simpa [hne, hsize] using hall

/-- The document of a response is plain. -/
theorem responseEnvelope_plain {st : Synthesis} (h : st.Presented)
    (husage : ∀ usage ∈ st.usage, Plain 1 usage) (status : String)
    (reason : Option String) (includeOutput : Bool) :
    Plain 6 (st.responseEnvelope status reason includeOutput) := by
  have houtput : Plain 5 (.array (if includeOutput then st.output else [])) := by
    refine .array 4 fun item hitem => ?_
    split_ifs at hitem
    · exact h.output item hitem
    · cases hitem
  have hreason : Plain 1 (.obj [("reason", .string "max_output_tokens")]) := by
    refine Plain.obj fun p hp => ?_
    rw [List.mem_singleton.mp hp]
    exact .string _ _
  refine Plain.obj fun p hp => ?_
  rw [List.mem_append, List.mem_append] at hp
  rcases hp with (hp | hp) | hp
  · simp only [List.mem_cons, List.not_mem_nil, or_false] at hp
    rcases hp with rfl | rfl | rfl | rfl | rfl
    · exact .string _ _
    · exact .string _ _
    · exact .string _ _
    · exact .string _ _
    · exact houtput
  · simp only [Option.mem_toList, Option.map_eq_some_iff] at hp
    obtain ⟨usage, hmem, rfl⟩ := hp
    exact (husage usage hmem).mono (by decide)
  · split_ifs at hp
    · rw [List.mem_singleton.mp hp]
      exact hreason.mono (by decide)
    · cases hp

/-- The id of the response that an event carries. -/
theorem responseEnvelope_id (status : String) (reason : Option String) (includeOutput : Bool)
    (st : Synthesis) : ∃ m, st.responseEnvelope status reason includeOutput = .object m ∧
      Map.get m "id" = some (.string st.responseId) := by
  refine ⟨_, rfl, ?_⟩
  rw [Map.get_ofEntries]
  by_cases hreason : reason = some "length" <;> cases st.usage <;> simp [hreason]

/-- The kinds of the events that carry the response. -/
def responseKinds : List String :=
  ["response.created", "response.in_progress", "response.completed", "response.incomplete"]

/-- An event that carries the response. -/
theorem presentable_response {st : Synthesis} (h : st.Presented)
    (husage : ∀ usage ∈ st.usage, Plain 1 usage)
    (hid : Gateway.safeProtocolIdentifier st.responseId = true) {kind : String}
    (hkind : kind ∈ responseKinds) {n : ℕ} (hn : n < 2 ^ 64) (status : String)
    (reason : Option String)
    (includeOutput : Bool) : Presentable
      (.of n kind [("response", st.responseEnvelope status reason includeOutput)]) := by
  have hkinds : ∀ kind ∈ responseKinds, kind ∈ sentKinds ∧
      Gateway.isDeltaEvent kind = false ∧ Gateway.isItemEvent kind = false := by
    decide
  obtain ⟨hsent, hdelta, hitem⟩ := hkinds kind hkind
  obtain ⟨m, hm, hget⟩ := responseEnvelope_id status reason includeOutput st
  refine presentable_of hsent hn ?_ ⟨?_, by simp [hdelta], by simp [hitem]⟩
  · intro p hp
    rw [List.mem_singleton.mp hp]
    exact (responseEnvelope_plain h husage status reason includeOutput).mono (by decide)
  · intro _
    exact ⟨m, st.responseId, by rw [hm]; simp [Map.ofEntries], hget, hid⟩

/-- A response is presentable after its start. -/
theorem start_presented (model requestKey : String) (tools : ToolNames) (chunk : Value) :
    (start chunk { model, requestKey, tools }).Presented ∧
      Gateway.safeProtocolIdentifier (start chunk { model, requestKey, tools }).responseId =
        true := by
  have hid := safeProtocolIdentifier_responseId
    ((nonEmptyStr (chunk.get "id")).getD requestKey)
  refine ⟨?_, hid⟩
  unfold start
  rw [if_neg Bool.false_ne_true]
  dsimp only
  generalize hst : Synthesis.mk _ _ _ _ _ _ _ _ _ _ _ _ _ _ _ _ _ = st
  have hfresh : st.Presented := by
    rw [← hst]
    exact ⟨by simp, by simp, fun c => by cases c <;> simp [slot], by simp⟩
  have husage : ∀ usage ∈ st.usage, Plain 1 usage := by
    rw [← hst]
    simp
  have hsequence : st.sequence = 0 := by rw [← hst]
  have hsafe : Gateway.safeProtocolIdentifier st.responseId = true := by
    rw [← hst]
    exact hid
  have hcreated := hfresh.emit (presentable_response hfresh husage hsafe
    (show "response.created" ∈ responseKinds by decide) (show st.sequence < 2 ^ 64 by omega)
    "in_progress" none false)
  exact hcreated.emit (presentable_response hfresh husage hsafe (by decide)
    (show st.sequence + 1 < 2 ^ 64 by omega) "in_progress" none false)

/-- The response that ends a stream is presentable. -/
theorem Presented.finish {st : Synthesis} (h : st.Presented)
    (husage : ∀ usage ∈ st.usage, Plain 1 usage)
    (hid : Gateway.safeProtocolIdentifier st.responseId = true) (hn : st.sequence < 2 ^ 64)
    (reason : Option String) : (st.finish reason).Presented := by
  have hsent := h.emit (presentable_response h husage hid
    (show (if reason = some "length" then "response.incomplete" else "response.completed") ∈
      responseKinds by split_ifs <;> decide) hn
    (if reason = some "length" then "incomplete" else "completed") reason true)
  exact hsent.of_eq rfl rfl (slot_congr rfl rfl) hsent.calls

/-- All that is queued of a response that has begun is presentable, as long as there is room. -/
theorem Begun.presented {serde : Serde} {model requestKey : String} {tools : ToolNames}
    {st : Synthesis} (h : Begun serde { model, requestKey, tools } st) (hroom : st.Room) :
    st.Presented ∧ Gateway.safeProtocolIdentifier st.responseId = true := by
  obtain ⟨chunk, hmoves⟩ := h
  obtain ⟨hstart, hid⟩ := start_presented model requestKey tools chunk
  refine ⟨hmoves.presented hroom hstart, ?_⟩
  rw [show st.responseId = (start chunk { model, requestKey, tools }).responseId from
    congrArg Turn.responseId (Moves.turn_eq serde hmoves)]
  exact hid

/-- The token counts that some chunks lead to are plain. -/
theorem usage_plain {chunks : List Value} (hrange : ∀ chunk ∈ chunks, InRange chunk)
    {st : Synthesis} (hst : st.usage = none) :
    ∀ usage ∈ (chunks.foldl (fun st chunk => st.progress chunk) st).usage, Plain 1 usage := by
  intro usage husage
  rw [usage_foldl_progress, hst, Option.or_none] at husage
  obtain ⟨counts, hlast, rfl⟩ := Option.map_eq_some_iff.mp husage
  obtain ⟨chunk, hchunk, hcounts⟩ := List.mem_filterMap.mp (List.mem_of_getLast? hlast)
  obtain ⟨hget, -⟩ := Option.filter_eq_some_iff.mp hcounts
  exact mapUsage_plain ((hrange chunk hchunk).get hget)

end Synthesis

/-! ## The stream -/

/-- All events of a stream that ends with its response are presentable. -/
theorem responsesEvents_presentable {serde : Serde} (hserde : serde.Lawful)
    (hspelled : serde.Spelled) {upstream : List Poll} (hreceived : received upstream < 2 ^ 63)
    {model requestKey : String} {tools : ToolNames}
    (h : (transcript serde upstream).Addressable ∧ (transcript serde upstream).terminal ≠ "error") :
    ∀ e ∈ responsesEvents serde upstream model requestKey tools, Presentable e := by
  obtain ⟨haddressable, hterminal⟩ := h
  have hload := replay_load_le hspelled upstream model requestKey tools
  have hrange := transcript_inRange hserde upstream
  rw [responsesEvents_eq serde haddressable]
  have h₀ : Synthesis.Fresh { model, requestKey, tools } := ⟨⟨rfl, rfl⟩, rfl⟩
  rcases Synthesis.replay_cases serde (transcript serde upstream) h₀ with
    ⟨herror, -⟩ | ⟨st, reason, hst, hbegun, heq, -⟩
  · exact absurd herror hterminal
  · rw [heq, Synthesis.complete_eq_finish serde reason (hbegun.goesOn serde h₀) hbegun.started]
      at hload ⊢
    have husage := Synthesis.usage_plain hrange (show Synthesis.usage
      { model, requestKey, tools } = none from rfl)
    rw [← hst, ← show (st.closeReasoning.closeMessage.closeToolCalls serde).usage = st.usage from
      congrArg Synthesis.Account.usage
        (Synthesis.Steps.account_eq serde (Synthesis.close_all_steps serde st))] at husage
    have hclose := Synthesis.close_all_moves serde st
    have hclosed : Synthesis.Begun serde { model, requestKey, tools }
        (st.closeReasoning.closeMessage.closeToolCalls serde) :=
      hbegun.imp fun chunk hmoves => hmoves.trans hclose
    generalize st.closeReasoning.closeMessage.closeToolCalls serde = closed at *
    have hcounters : (closed.finish reason).load ≥ closed.sequence + 1 + closed.nextOutputIndex := by
      simp only [Synthesis.load, Synthesis.finish, Synthesis.emit]
      omega
    obtain ⟨hpresented, hid⟩ := hclosed.presented ⟨by omega, by omega⟩
    exact (hpresented.finish husage hid (by omega) reason).pending

/-- The gateway copies the frame of a presentable event that does not end the stream. -/
theorem Presentable.copied {o : Gateway.Options} (hserde : o.serde.Lawful) {e : Event}
    (h : Presentable e) (hterminal : e.isTerminal = false)
    (hlength : (e.render o.serde).length ≤ o.maxEventBytes) :
    Gateway.Copied o (e.render o.serde) := by
  have hinspect := h.inspectFrame hserde
  obtain ⟨-, hknown, hmeta, hfailure, -, -⟩ := sentKinds_known e.kind h.kind
  have hkinds : ∀ kind ∈ sentKinds, kind ∉ ["error", "response.completed", "response.incomplete"] →
      Gateway.isTerminalEvent kind = false := by
    decide
  have hgoesOn := hkinds e.kind h.kind (by simpa [Event.isTerminal] using hterminal)
  exact ⟨hlength, _, hinspect, hknown, h.shape, hmeta, hgoesOn, hfailure⟩

/-- The gateway forwards presentable events of which only the last ends the stream. -/
theorem validatedStream_presentable (o : Gateway.Options) (hserde : o.serde.Lawful)
    {before : List Event} {last : Event} (h : ∀ e ∈ before ++ [last], Presentable e)
    (hbefore : ∀ e ∈ before, e.isTerminal = false)
    (hlast : last.kind = "response.completed" ∨ last.kind = "response.incomplete")
    (hlength : ∀ frame ∈ (before ++ [last]).map (Event.render o.serde),
      frame.length ≤ o.maxEventBytes) {body : List Gateway.Poll}
    (hbody : Gateway.upstreamBytes body =
      ((before ++ [last]).map (Event.render o.serde)).flatten) :
    Gateway.validatedStream o body = ((before ++ [last]).map (Event.render o.serde)).flatten := by
  have hinspect := (h last (by simp)).inspectFrame hserde
  have hframes : (before ++ [last]).map (Event.render o.serde) =
      before.map (Event.render o.serde) ++ [last.render o.serde] := by
    rw [List.map_append, List.map_singleton]
  rw [hframes] at hlength hbody ⊢
  refine Gateway.validatedStream_of_copied o ?_ ?_ (hlength _ (by simp)) hinspect hlast hbody
  · intro frame hframe t
    rw [← hframes] at hframe
    obtain ⟨e, he, rfl⟩ := List.mem_map.mp hframe
    exact (h e he).readable.scan hserde t
  · intro frame hframe
    have hle := hlength frame (List.mem_append_left _ hframe)
    obtain ⟨e, he, rfl⟩ := List.mem_map.mp hframe
    exact (h e (List.mem_append_left _ he)).copied hserde (hbefore e he) hle

/-- The gateway forwards a synthesized stream that ends with its response byte for byte, whatever
chunks it arrives in. The counters of the synthesizer are words of 64 bits, which no body of fewer
than `2^63` bytes exceeds. -/
theorem validatedStream_responsesStream {serde : Serde} (hserde : serde.Lawful)
    (hspelled : serde.Spelled) {upstream : List Poll} (hreceived : received upstream < 2 ^ 63)
    (model requestKey : String) (tools : ToolNames)
    (hlast : ∃ kind ∈ ["response.completed", "response.incomplete"],
      (responsesEvents serde upstream model requestKey tools).getLast?.map Event.kind = some kind)
    (hlength : ∀ frame ∈ responsesStream serde upstream model requestKey tools,
      frame.length ≤ Gateway.MAX_EVENT_BYTES)
    (mediaType : Option String) (now : UInt64) (e : Gateway.Ending) {chunks : List Bytes}
    (hchunks : chunks.flatten = (responsesStream serde upstream model requestKey tools).flatten) :
    Gateway.validatedStream ⟨serde, Gateway.MAX_EVENT_BYTES, mediaType, now⟩
        (chunks.map .chunk ++ e.polls) =
      (responsesStream serde upstream model requestKey tools).flatten := by
  have hterminal := terminal_ne_error hlast
  have hwell := responsesEvents_wellFormed hterminal.1 model requestKey tools
  obtain ⟨kind, hkind, hkindLast⟩ := hlast
  simp only [List.mem_cons, List.not_mem_nil, or_false] at hkind
  have hpresentable : ∀ e ∈ responsesEvents serde upstream model requestKey tools, Presentable e :=
    responsesEvents_presentable hserde hspelled hreceived hterminal
  unfold responsesStream at hlength hchunks ⊢
  generalize responsesEvents serde upstream model requestKey tools = es
    at hkindLast hlength hchunks hpresentable hwell ⊢
  obtain ⟨before, last, rfl, -, hbefore⟩ := hwell.terminal
  have hlastKind : last.kind = kind := by simpa using hkindLast
  rw [← hlastKind] at hkind
  refine validatedStream_presentable ⟨serde, Gateway.MAX_EVENT_BYTES, mediaType, now⟩ hserde
    hpresentable hbefore hkind hlength ?_
  rw [Gateway.upstreamBytes_chunks, hchunks]

/-- The frame of an event with a short text is within the limit of the gateway. -/
theorem render_length_le {e : Event}
    (h : e.kind.toList.length + (Compact.print e.value).length ≤ 1000) :
    (e.render Compact.serde).length ≤ Gateway.MAX_EVENT_BYTES := by
  -- Each character of a frame takes at most four bytes.
  rw [Event.render, toUtf8_length]
  refine (utf8ByteSize_le _).trans ?_
  simp only [String.toList_append, List.length_append, Compact.serde, String.toList_ofList]
  have hstarts : "event: ".toList.length + "\ndata: ".toList.length + "\n\n".toList.length = 16 := by
    decide
  unfold Gateway.MAX_EVENT_BYTES
  omega

/-- A completion of one word. -/
def helloCompletion : List Poll :=
  [.chunk (toUtf8 ("data: \x7b\"choices\":[\x7b\"delta\":\x7b\"content\":\"hello\"\x7d," ++
    "\"finish_reason\":\"stop\"\x7d]\x7d\n\n"))]

/-- The stream of the completion, in frames that arrive byte by byte. -/
theorem validatedStream_responsesStream_hello :
    Gateway.validatedStream ⟨Compact.serde, Gateway.MAX_EVENT_BYTES, none, 0⟩
        (((responsesStream Compact.serde helloCompletion "glm" "key" {}).flatten.map
          fun byte => [byte]).map .chunk ++ Gateway.Ending.eof.polls) =
      (responsesStream Compact.serde helloCompletion "glm" "key" {}).flatten := by
  have haddressable : (transcript Compact.serde helloCompletion).Addressable ∧
      received helloCompletion < 2 ^ 63 := by
    decide +kernel
  have hevents : (responsesEvents Compact.serde helloCompletion "glm" "key" {}).getLast?.map
        Event.kind = some "response.completed" ∧
      ∀ e ∈ responsesEvents Compact.serde helloCompletion "glm" "key" {},
        e.kind.toList.length + (Compact.print e.value).length ≤ 1000 := by
    rw [responsesEvents_eq _ haddressable.1]
    decide +kernel
  obtain ⟨hlast, hsmall⟩ := hevents
  have hlength : ∀ frame ∈ responsesStream Compact.serde helloCompletion "glm" "key" {},
      frame.length ≤ Gateway.MAX_EVENT_BYTES := by
    intro frame hframe
    obtain ⟨e, he, rfl⟩ := List.mem_map.mp hframe
    exact render_length_le (hsmall e he)
  refine validatedStream_responsesStream Compact.lawful Compact.spelled haddressable.2 "glm" "key" {}
    ⟨_, by decide, hlast⟩ hlength none 0 .eof ?_
  generalize (responsesStream Compact.serde helloCompletion "glm" "key" {}).flatten = bytes
  rw [← List.flatMap_def]
  exact List.flatMap_singleton' bytes

end MuseCodex.Zai
