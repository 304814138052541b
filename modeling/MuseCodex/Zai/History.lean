import Mathlib.Data.List.Chain
import MuseCodex.Zai.Replay

/-!
# The history of a request

The input of a request is the history of a conversation. Its items are translated one by one, and
calls that follow each other share a message of the wire: a call goes into the last message when
that one already has calls, which is found out by looking at the members of the message. Reasoning
leaves no trace, so it does not part two calls.

The messages with calls, taken apart, are the translations of the items (`History.translations`).
Each of these has the place of its message, and from one to the next the place stays exactly when
both are calls (`History.places`); so two calls have the same place exactly when there is nothing
but calls between them (`samePlace_iff`).
-/

namespace MuseCodex.Zai

open Text Json Fallible

/-! ## Runs of a list -/

section

variable {α : Type} {p : α → Bool}

/-- From one labelled element to the next the label stays, when both are in a run, and else goes
up by one. -/
def Continues (p : α → Bool) (x y : α × ℕ) : Prop :=
  y.2 = if p x.1 && p y.1 then x.2 else x.2 + 1

/-- Labels never go down, and one comes back only within a run. -/
theorem samePlace_iff {x y : α × ℕ} {between : List (α × ℕ)}
    (h : (x :: (between ++ [y])).IsChain (Continues p)) (hy : p y.1 = true) :
    x.2 ≤ y.2 ∧ (x.2 = y.2 ↔ p x.1 = true ∧ ∀ z ∈ between, p z.1 = true) := by
  induction between generalizing x with
  | nil =>
    have hlast : Continues p x y := by
      simpa using h
    unfold Continues at hlast
    rw [hy, Bool.and_true] at hlast
    split_ifs at hlast with hx
    · exact ⟨by omega, by simp [hlast, hx]⟩
    · exact ⟨by omega, by simp [hlast, hx]⟩
  | cons z between ih =>
    rw [List.cons_append, List.isChain_cons_cons] at h
    obtain ⟨hfirst, hrest⟩ := h
    obtain ⟨hle, hiff⟩ := ih hrest
    unfold Continues at hfirst
    -- The label of `x` is that of `y` when neither of the two parts of the way raises it.
    have hboth : x.2 = y.2 ↔ x.2 = z.2 ∧ z.2 = y.2 := by
      split_ifs at hfirst <;> omega
    have hsame : x.2 = z.2 ↔ (p x.1 && p z.1) = true := by
      split_ifs at hfirst with hrun
      · simp [hfirst, hrun]
      · simp [hfirst, hrun]
    refine ⟨by split_ifs at hfirst <;> omega, ?_⟩
    rw [hboth, hsame, hiff, List.forall_mem_cons, Bool.and_eq_true]
    tauto

end

/-! ## Messages -/

/-- The calls of an assistant message of calls. -/
def callsIn (message : Value) : Option (List Value) :=
  if roleOf message = some "assistant" then (message.get "tool_calls").bind Value.asArray else none

/-- What one input item is translated to. -/
inductive Entry where
  | message (message : Value)
  | call (call : Value)

/-- A message, or the calls of a message of calls. -/
def entriesOf (message : Value) : List Entry :=
  match callsIn message with
  | some calls => calls.map .call
  | none => [.message message]

/-- For each of the entries of some messages, the index of its message. -/
def places (messages : List Value) : List ℕ :=
  messages.zipIdx.flatMap fun (message, i) => (entriesOf message).map fun _ => i

/-- Whether a message carries calls. -/
def carriesCalls (message : Value) : Bool := (message.get "tool_calls").isSome

/-- A message without calls is an entry of its own. -/
theorem entriesOf_plain {message : Value} (h : carriesCalls message = false) :
    callsIn message = none ∧ entriesOf message = [.message message] := by
  have hnone : callsIn message = none := by
    unfold carriesCalls at h
    rw [Option.isSome_eq_false_iff, Option.isNone_iff_eq_none] at h
    simp [callsIn, h]
  exact ⟨hnone, by rw [entriesOf, hnone]⟩

/-- The entries of a message of calls are the calls. -/
theorem entriesOf_calls {message : Value} {calls : List Value} (h : callsIn message = some calls) :
    entriesOf message = calls.map .call := by
  rw [entriesOf, h]

/-- The entries of one more message are at its place. -/
theorem places_append_singleton (messages : List Value) (message : Value) :
    places (messages ++ [message]) =
      places messages ++ (entriesOf message).map fun _ => messages.length := by
  simp [places, List.zipIdx_append]

/-- Where a call goes: into the last message, when it has calls, and else into a new one. -/
theorem pushToolCall_cases (messages : List Value) (call : Value) :
    (∃ before last last' calls, messages = before ++ [last] ∧ callsIn last = some calls ∧
      callsIn last' = some (calls ++ [call]) ∧ pushToolCall messages call = before ++ [last']) ∨
    ((∀ last ∈ messages.getLast?, callsIn last = none) ∧
      ∃ new, callsIn new = some [call] ∧ pushToolCall messages call = messages ++ [new]) := by
  have hnew : callsIn (.obj [("role", .string "assistant"), ("content", .null),
      ("tool_calls", .array [call])]) = some [call] := by
    simp [callsIn, roleOf, Value.obj, Map.ofEntries]
  unfold pushToolCall
  dsimp only
  cases hlast : messages.getLast? with
  | none => exact .inr ⟨by simp, _, hnew, rfl⟩
  | some last =>
    obtain ⟨before, rfl⟩ := List.getLast?_eq_some_iff.mp hlast
    cases last with
    | object m =>
      rw [Option.bind_some, Value.asObject_object, Option.bind_some]
      split_ifs with hrole
      · -- A call joins the last message only if that one carries calls already.
        cases hcalls : (Map.get m "tool_calls").bind Value.asArray with
        | none =>
          refine .inr ⟨?_, _, hnew, rfl⟩
          rintro _ ⟨⟩
          rw [callsIn, Value.get_object, hcalls, ite_self]
        | some calls =>
          refine .inl ⟨before, _, .object (Map.insert m "tool_calls" (.array (calls ++ [call]))),
            calls, rfl, ?_, ?_, ?_⟩
          · simp [callsIn, roleOf, hrole, hcalls]
          · simp [callsIn, roleOf, hrole]
          · simp
      · refine .inr ⟨?_, _, hnew, rfl⟩
        simp [callsIn, roleOf, hrole]
    | _ =>
      refine .inr ⟨?_, _, hnew, rfl⟩
      simp [callsIn, roleOf, Value.get]

/-- The same after messages that carry no calls. -/
theorem pushToolCall_append {leading : List Value}
    (hleading : ∀ message ∈ leading, carriesCalls message = false) (body : List Value)
    (call : Value) :
    (∃ before last last' calls, body = before ++ [last] ∧ callsIn last = some calls ∧
      callsIn last' = some (calls ++ [call]) ∧
      pushToolCall (leading ++ body) call = leading ++ (before ++ [last'])) ∨
    ((∀ last ∈ body.getLast?, callsIn last = none) ∧ ∃ new, callsIn new = some [call] ∧
      pushToolCall (leading ++ body) call = leading ++ (body ++ [new])) := by
  rcases pushToolCall_cases (leading ++ body) call with
    ⟨before, last, last', calls, hbody, hlast, hlast', hpush⟩ | ⟨hlast, new, hnew, hpush⟩
  · rcases List.eq_nil_or_concat' body with rfl | ⟨before', last'', rfl⟩
    · -- The last message would be a leading one.
      have hmem : last ∈ leading := by
        rw [List.append_nil] at hbody
        rw [hbody]
        exact List.mem_append_right _ List.mem_cons_self
      rw [(entriesOf_plain (hleading last hmem)).1] at hlast
      cases hlast
    · rw [← List.append_assoc] at hbody
      obtain ⟨rfl, hsame⟩ := List.append_inj' hbody rfl
      cases hsame
      exact .inl ⟨before', last, last', calls, rfl, hlast, hlast', by
        rw [hpush, List.append_assoc]⟩
  · refine .inr ⟨fun last hmem => hlast last ?_, new, hnew, by rw [hpush, List.append_assoc]⟩
    rw [List.getLast?_append, hmem]
    rfl

/-! ## Items -/

section

variable (serde : Serde) {limits : ModelLimits}

/-- A call is no reasoning. -/
theorem isReasoningItem_of_isCallItem {item : Value} (h : isCallItem item = true) :
    isReasoningItem item = false := by
  have htype : itemType item = some "function_call" ∨ itemType item = some "custom_tool_call" := by
    simpa [isCallItem] using h
  rcases htype with htype | htype <;> simp [isReasoningItem, htype]

/-- The items that are translated. -/
def spoken (items : List Value) : List Value := items.filter fun item => !isReasoningItem item

/-- The translation of one input item. -/
def IsTranslation (limits : ModelLimits) (item : Value) : Entry → Prop
  | .call call => isCallItem item = true ∧ ∃ name encoded, IsWireCall serde item name encoded call
  | .message message => isCallItem item = false ∧ ∃ m, item = .object m ∧
      (itemType item = some "message" ∧ translateMessage m limits = .ok message ∨
        isResultItem item = true ∧ toolResult serde m = .ok message)

/-- The translation of a message carries no calls. -/
theorem carriesCalls_translateMessage {item : Map Value} {message : Value}
    (h : translateMessage item limits = .ok message) : carriesCalls message = false := by
  have hbuilt {role : String} {x : Except String Value} (h : (do
      let content ← x
      return Value.obj [("role", .string role), ("content", content)]) = .ok message) :
      carriesCalls message = false := by
    obtain ⟨content, -, h⟩ := bind_eq_ok.mp h
    cases h
    simp [carriesCalls, Value.obj, Map.ofEntries]
  unfold translateMessage at h
  dsimp only at h
  split at h
  all_goals
    obtain ⟨role, -, h⟩ := bind_eq_ok.mp h
    split at h
    all_goals exact hbuilt h

/-- Neither does that of a result. -/
theorem carriesCalls_toolResult {item : Map Value} {message : Value}
    (h : toolResult serde item = .ok message) : carriesCalls message = false := by
  unfold toolResult at h
  split at h
  · cases h
  · cases h
    simp [carriesCalls, Value.obj, Map.ofEntries]

/-- What the translation of an item does: nothing for reasoning, one more message for a message or
a result, and one more call for a call. -/
theorem translateItem_cases {item : Value} {acc acc' : List Value × ToolNames}
    (h : translateItem serde limits acc item = .ok acc') :
    (isReasoningItem item = true ∧ acc'.1 = acc.1) ∨
    (isReasoningItem item = false ∧ ∃ message, IsTranslation serde limits item (.message message) ∧
      carriesCalls message = false ∧ acc'.1 = acc.1 ++ [message]) ∨
    (isReasoningItem item = false ∧ ∃ call, IsTranslation serde limits item (.call call) ∧
      acc'.1 = pushToolCall acc.1 call) := by
  by_cases hcall : isCallItem item = true
  · obtain ⟨name, encoded, call, hwire, -, hpush⟩ := (translateItem_call serde hcall limits).mp h
    exact .inr (.inr ⟨isReasoningItem_of_isCallItem hcall, call, ⟨hcall, name, encoded, hwire⟩, hpush⟩)
  · rw [Bool.not_eq_true] at hcall
    cases item with
    | object m =>
      have htype : itemType (.object m) = (Map.get m "type").bind Value.asStr := rfl
      -- The two kinds of results are translated alike.
      have hresult (hkind : isResultItem (.object m) = true) (h : (do
          let result ← toolResult serde m
          return (acc.1 ++ [result], acc.2)) = .ok acc') :
          (isReasoningItem (.object m) = true ∧ acc'.1 = acc.1) ∨
          (isReasoningItem (.object m) = false ∧ ∃ message,
            IsTranslation serde limits (.object m) (.message message) ∧
            carriesCalls message = false ∧ acc'.1 = acc.1 ++ [message]) ∨
          (isReasoningItem (.object m) = false ∧ ∃ call,
            IsTranslation serde limits (.object m) (.call call) ∧
            acc'.1 = pushToolCall acc.1 call) := by
        obtain ⟨message, hmessage, h⟩ := bind_eq_ok.mp h
        cases h
        refine .inr (.inl ⟨?_, message, ⟨hcall, m, rfl, .inr ⟨hkind, hmessage⟩⟩,
          carriesCalls_toolResult serde hmessage, rfl⟩)
        have hkinds : itemType (.object m) = some "function_call_output" ∨
            itemType (.object m) = some "custom_tool_call_output" := by
          simpa [isResultItem] using hkind
        rcases hkinds with hkind | hkind <;> simp [isReasoningItem, hkind]
      unfold translateItem at h
      simp only [Value.asObject_object] at h
      split at h
      · rename_i hkind
        obtain ⟨message, hmessage, h⟩ := bind_eq_ok.mp h
        cases h
        refine .inr (.inl ⟨?_, message, ⟨hcall, m, rfl, .inl ⟨?_, hmessage⟩⟩,
          carriesCalls_translateMessage hmessage, rfl⟩)
        · simp [isReasoningItem, htype, hkind]
        · rw [htype, hkind]
      · rename_i hkind
        cases h
        exact .inl ⟨by simp [isReasoningItem, htype, hkind], rfl⟩
      · rename_i hkind
        -- Calls were dealt with first.
        simp [isCallItem, htype, hkind] at hcall
      · rename_i hkind
        simp [isCallItem, htype, hkind] at hcall
      · rename_i hkind
        exact hresult (by simp [isResultItem, htype, hkind]) h
      · rename_i hkind
        exact hresult (by simp [isResultItem, htype, hkind]) h
      · cases h
    | _ => cases h

/-! ## Histories -/

/-- The messages that some items have been translated to. -/
structure History (limits : ModelLimits) (items body : List Value) : Prop where
  /-- The entries are the translations of the items. -/
  translations : List.Forall₂ (IsTranslation serde limits) (spoken items) (body.flatMap entriesOf)
  /-- From one item to the next, the message changes unless both are calls. -/
  places : ((spoken items).zip (places body)).IsChain (Continues isCallItem)
  /-- The last item is in the last message, which has calls when the item is one. -/
  last : ∀ pair ∈ ((spoken items).zip (Zai.places body)).getLast?, pair.2 + 1 = body.length ∧
    (isCallItem pair.1 = true ↔ ∃ message ∈ body.getLast?, (callsIn message).isSome = true)
  /-- A message that carries calls is a message of calls. -/
  shape : ∀ message ∈ body, carriesCalls message = true → (callsIn message).isSome = true
  /-- Two of them do not follow each other. -/
  parted : body.IsChain fun message message' =>
    ¬ (carriesCalls message = true ∧ carriesCalls message' = true)

/-- An item that is no reasoning is spoken. -/
theorem spoken_append_singleton {item : Value} (h : isReasoningItem item = false)
    (items : List Value) : spoken (items ++ [item]) = spoken items ++ [item] := by
  simp [spoken, h]

/-- Every entry has a place. -/
theorem length_places (messages : List Value) :
    (places messages).length = (messages.flatMap entriesOf).length := by
  induction messages using List.reverseRecOn with
  | nil => rfl
  | append_singleton messages message ih =>
    rw [places_append_singleton, List.length_append, ih, List.flatMap_append, List.length_append,
      List.length_map]
    simp

namespace History

variable {serde} {items body body' : List Value} {item : Value}

/-- Reasoning leaves no trace. -/
theorem reasoning (h : History serde limits items body) (hitem : isReasoningItem item = true) :
    History serde limits (items ++ [item]) body := by
  have hspoken : spoken (items ++ [item]) = spoken items := by
    simp [spoken, hitem]
  exact ⟨by rw [hspoken]; exact h.translations, by rw [hspoken]; exact h.places,
    by rw [hspoken]; exact h.last, h.shape, h.parted⟩

/-- The items and their places, after one more. -/
theorem zip_push (h : History serde limits items body) (hitem : isReasoningItem item = false)
    {k : ℕ} (hplaces : Zai.places body' = Zai.places body ++ [k]) :
    (spoken (items ++ [item])).zip (Zai.places body') =
      (spoken items).zip (Zai.places body) ++ [(item, k)] := by
  rw [spoken_append_singleton hitem, hplaces,
    List.zip_append (by rw [length_places, h.translations.length_eq])]
  rfl

/-- One more item that is translated. -/
theorem push (h : History serde limits items body) (hitem : isReasoningItem item = false)
    {entry : Entry} (hentry : IsTranslation serde limits item entry)
    (hentries : body'.flatMap entriesOf = body.flatMap entriesOf ++ [entry])
    {k : ℕ} (hplaces : Zai.places body' = Zai.places body ++ [k]) (hk : k + 1 = body'.length)
    (hcontinues : ∀ pair ∈ ((spoken items).zip (Zai.places body)).getLast?,
      Continues isCallItem pair (item, k))
    (hlast : isCallItem item = true ↔ ∃ message ∈ body'.getLast?, (callsIn message).isSome = true)
    (hshape : ∀ message ∈ body', carriesCalls message = true → (callsIn message).isSome = true)
    (hparted : body'.IsChain fun message message' =>
      ¬ (carriesCalls message = true ∧ carriesCalls message' = true)) :
    History serde limits (items ++ [item]) body' where
  translations := by
    rw [spoken_append_singleton hitem, hentries]
    exact List.rel_append h.translations (.cons hentry .nil)
  places := by
    rw [h.zip_push hitem hplaces, List.isChain_append]
    refine ⟨h.places, List.isChain_singleton _, fun pair hpair next hnext => ?_⟩
    cases hnext
    exact hcontinues pair hpair
  last := by
    rw [h.zip_push hitem hplaces, List.getLast?_concat]
    rintro _ ⟨⟩
    exact ⟨hk, hlast⟩
  shape := hshape
  parted := hparted

/-- A message of its own. -/
theorem push_message (h : History serde limits items body) (hitem : isReasoningItem item = false)
    {message : Value} (hmessage : IsTranslation serde limits item (.message message))
    (hplain : carriesCalls message = false) :
    History serde limits (items ++ [item]) (body ++ [message]) := by
  obtain ⟨hcalls, hentries⟩ := entriesOf_plain hplain
  have hcall : isCallItem item = false := hmessage.1
  refine h.push (k := body.length) hitem hmessage ?_ ?_ (by simp) ?_ ?_ ?_ ?_
  · simp [hentries]
  · rw [places_append_singleton, hentries]
    rfl
  · intro pair hpair
    rw [Continues, hcall, Bool.and_false, (h.last pair hpair).1]
    rfl
  · simp [hcall, hcalls]
  · intro message' hmem
    rcases List.mem_append.mp hmem with hmem | hmem
    · exact h.shape message' hmem
    · rw [List.mem_singleton.mp hmem, hplain]
      exact nofun
  · rw [List.isChain_append]
    refine ⟨h.parted, List.isChain_singleton _, fun m hm m' hm' => ?_⟩
    cases hm'
    rw [hplain]
    exact fun hboth => nomatch hboth.2

/-- A message with calls carries them. -/
theorem carriesCalls_of_callsIn {message : Value} {calls : List Value}
    (h : callsIn message = some calls) : carriesCalls message = true := by
  by_contra hplain
  rw [Bool.not_eq_true] at hplain
  rw [(entriesOf_plain hplain).1] at h
  cases h

/-- A call in a new message. -/
theorem push_first (h : History serde limits items body) (hitem : isReasoningItem item = false)
    {call new : Value} (hcall : IsTranslation serde limits item (.call call))
    (hlast : ∀ last ∈ body.getLast?, callsIn last = none) (hnew : callsIn new = some [call]) :
    History serde limits (items ++ [item]) (body ++ [new]) := by
  have hentries : entriesOf new = [.call call] := entriesOf_calls hnew
  refine h.push (k := body.length) hitem hcall ?_ ?_ (by simp) ?_ ?_ ?_ ?_
  · simp [hentries]
  · rw [places_append_singleton, hentries]
    rfl
  · -- The item before is no call, for else the last message would have calls.
    intro pair hpair
    obtain ⟨hplace, hiff⟩ := h.last pair hpair
    have hbefore : isCallItem pair.1 = false := by
      rw [Bool.eq_false_iff, ne_eq, hiff]
      rintro ⟨last, hmem, hsome⟩
      rw [hlast last hmem] at hsome
      cases hsome
    rw [Continues, hbefore, Bool.false_and, hplace]
    rfl
  · simp [hcall.1, hnew]
  · intro message hmem
    rcases List.mem_append.mp hmem with hmem | hmem
    · exact h.shape message hmem
    · rw [List.mem_singleton.mp hmem, hnew]
      exact fun _ => rfl
  · rw [List.isChain_append]
    refine ⟨h.parted, List.isChain_singleton _, fun m hm m' hm' hboth => ?_⟩
    have hsome := h.shape m (List.mem_of_getLast? hm) hboth.1
    rw [hlast m hm] at hsome
    cases hsome

/-- A call in the last message. -/
theorem push_more {before : List Value} {last last' call : Value} {calls : List Value}
    (h : History serde limits items (before ++ [last])) (hitem : isReasoningItem item = false)
    (hcall : IsTranslation serde limits item (.call call)) (hlast : callsIn last = some calls)
    (hlast' : callsIn last' = some (calls ++ [call])) :
    History serde limits (items ++ [item]) (before ++ [last']) := by
  refine h.push (k := before.length) hitem hcall ?_ ?_ (by simp) ?_ ?_ ?_ ?_
  · simp [entriesOf_calls hlast, entriesOf_calls hlast']
  · rw [places_append_singleton, places_append_singleton, entriesOf_calls hlast,
      entriesOf_calls hlast']
    simp
  · intro pair hpair
    obtain ⟨hplace, hiff⟩ := h.last pair hpair
    have hbefore : isCallItem pair.1 = true := hiff.mpr ⟨last, by simp, by rw [hlast]; rfl⟩
    rw [List.length_append, List.length_singleton] at hplace
    rw [Continues, hbefore, hcall.1]
    exact (Nat.succ_injective hplace).symm
  · simp [hcall.1, hlast']
  · intro message hmem
    rcases List.mem_append.mp hmem with hmem | hmem
    · exact h.shape message (List.mem_append_left _ hmem)
    · rw [List.mem_singleton.mp hmem, hlast']
      exact fun _ => rfl
  · have hparted := List.isChain_append.mp h.parted
    rw [List.isChain_append]
    refine ⟨hparted.1, List.isChain_singleton _, fun m hm m' hm' hboth => ?_⟩
    exact hparted.2.2 m hm last rfl ⟨hboth.1, carriesCalls_of_callsIn hlast⟩

/-- One more item. -/
theorem step {leading : List Value} (hleading : ∀ message ∈ leading, carriesCalls message = false)
    {acc acc' : List Value × ToolNames} (h : History serde limits items body)
    (hacc : acc.1 = leading ++ body) (hstep : translateItem serde limits acc item = .ok acc') :
    ∃ body', acc'.1 = leading ++ body' ∧ History serde limits (items ++ [item]) body' := by
  rcases translateItem_cases serde hstep with
    ⟨hitem, hsame⟩ | ⟨hitem, message, hmessage, hplain, happend⟩ | ⟨hitem, call, hcall, hpush⟩
  · exact ⟨body, by rw [hsame, hacc], h.reasoning hitem⟩
  · refine ⟨body ++ [message], ?_, h.push_message hitem hmessage hplain⟩
    rw [happend, hacc, List.append_assoc]
  · rw [hacc] at hpush
    rcases pushToolCall_append hleading body call with
      ⟨before, last, last', calls, rfl, hlast, hlast', hmore⟩ | ⟨hlast, new, hnew, hfirst⟩
    · exact ⟨before ++ [last'], hpush.trans hmore, h.push_more hitem hcall hlast hlast'⟩
    · exact ⟨body ++ [new], hpush.trans hfirst, h.push_first hitem hcall hlast hnew⟩

/-- Two calls have the same place exactly when calls and reasoning are all that is between them. -/
theorem places_iff {before between after : List Value} {x y : Value}
    (h : History serde limits (before ++ x :: between ++ y :: after) body)
    (hx : isCallItem x = true) (hy : isCallItem y = true) :
    (Zai.places body)[(spoken before).length]? =
        (Zai.places body)[(spoken (before ++ x :: between)).length]? ↔
      ∀ z ∈ between, isCallItem z = true ∨ isReasoningItem z = true := by
  have hspoken : spoken (before ++ x :: between ++ y :: after) =
      spoken before ++ x :: (spoken between ++ y :: spoken after) := by
    simp [spoken, isReasoningItem_of_isCallItem hx, isReasoningItem_of_isCallItem hy]
  have hlength : (spoken (before ++ x :: between)).length =
      (spoken before).length + 1 + (spoken between).length := by
    simp [spoken, isReasoningItem_of_isCallItem hx]
    omega
  -- The places, cut where the items are.
  obtain ⟨labelled, hitems, hlabels⟩ : ∃ labelled : List (Value × ℕ),
      labelled.map Prod.fst = spoken (before ++ x :: between ++ y :: after) ∧
        labelled.map Prod.snd = Zai.places body := by
    have hsame : (spoken (before ++ x :: between ++ y :: after)).length =
        (Zai.places body).length := by
      rw [length_places, h.translations.length_eq]
    exact ⟨_, List.map_fst_zip hsame.le, List.map_snd_zip hsame.ge⟩
  have hchain : labelled.IsChain (Continues isCallItem) := by
    rw [← List.zip_unzip labelled, List.unzip_eq_map, hitems, hlabels]
    exact h.places
  rw [hspoken] at hitems
  obtain ⟨before', rest, rfl, hbefore, hrest⟩ := List.map_eq_append_iff.mp hitems
  obtain ⟨x', rest', rfl, hx', hrest'⟩ := List.map_eq_cons_iff.mp hrest
  obtain ⟨between', rest'', rfl, hbetween, hrest''⟩ := List.map_eq_append_iff.mp hrest'
  obtain ⟨y', after', rfl, hy', -⟩ := List.map_eq_cons_iff.mp hrest''
  have hrun : (x' :: (between' ++ [y'])).IsChain (Continues isCallItem) := by
    refine hchain.infix ⟨before', after', ?_⟩
    simp
  obtain ⟨-, hiff⟩ := samePlace_iff hrun (by rw [hy', hy])
  have hfirst : (Zai.places body)[(spoken before).length]? = some x'.2 := by
    rw [← hlabels, ← hbefore, List.length_map, List.map_append,
      List.getElem?_append_right (by rw [List.length_map])]
    simp
  have hsecond : (Zai.places body)[(spoken (before ++ x :: between)).length]? = some y'.2 := by
    rw [hlength, ← hlabels, ← hbefore, ← hbetween, List.length_map, List.length_map]
    simp [Nat.add_assoc, Nat.add_comm 1]
  rw [hfirst, hsecond, Option.some_inj, hiff, hx', hx]
  have hmem : (∀ z ∈ between', isCallItem z.1 = true) ↔
      ∀ z ∈ spoken between, isCallItem z = true := by
    rw [← hbetween]
    simp
  rw [hmem]
  simp only [true_and, spoken, List.mem_filter, Bool.not_eq_true', and_imp]
  constructor
  · intro hall z hz
    by_cases hreasoning : isReasoningItem z = true
    · exact .inr hreasoning
    · exact .inl (hall z hz (Bool.eq_false_iff.mpr hreasoning))
  · intro hall z hz hspeaks
    exact (hall z hz).resolve_right (Bool.eq_false_iff.mp hspeaks)

end History

/-- The message of the instructions carries no calls. -/
theorem carriesCalls_instructions {object : Map Value} :
    ∀ message ∈ instructionMessages object, carriesCalls message = false := by
  intro message hmem
  obtain ⟨instructions, -, rfl⟩ := Option.map_eq_some_iff.mp (Option.mem_toList.mp hmem)
  simp [carriesCalls, Value.obj, Map.ofEntries]

/-- The messages of an accepted request, after that of the instructions, are the history of its
input. -/
theorem translate_isHistory {request : Value} {translated : TranslatedRequest}
    (h : translate serde request limits = .ok translated) :
    ∃ object history, request = .object object ∧
      wireMessages translated.body = instructionMessages object ++ history ∧
      History serde limits (inputItems request) history := by
  obtain ⟨object, tools, names, messages, rfl, -, hrun, hmessages, -⟩ := translate_eq_ok serde h
  have hempty : History serde limits [] [] := ⟨.nil, .nil, nofun, nofun, .nil⟩
  obtain ⟨history, hbody, hhistory⟩ : ∃ history,
      messages = instructionMessages object ++ history ∧
        History serde limits ([] ++ inputItems (.object object)) history :=
    foldlM_inv (I := fun items (acc : List Value × ToolNames) => ∃ body,
        acc.1 = instructionMessages object ++ body ∧ History serde limits items body)
      (fun ⟨_, hacc, hhistory⟩ hstep => hhistory.step carriesCalls_instructions hacc hstep)
      ⟨[], by rw [List.append_nil], hempty⟩ hrun
  rw [List.nil_append] at hhistory
  exact ⟨object, history, rfl, hmessages.trans hbody, hhistory⟩

/-- The history of an accepted request loses nothing and changes no order. After the message of
the instructions, the messages are those of the items, with the calls of a message in its place;
two calls share a message exactly when nothing but calls and reasoning is between them, and
messages with calls do not follow each other. -/
theorem translate_history (request : Value) (limits : ModelLimits)
    (translated : TranslatedRequest) (h : translate serde request limits = .ok translated) :
    ∃ object history, request = .object object ∧
      wireMessages translated.body = instructionMessages object ++ history ∧
      List.Forall₂ (IsTranslation serde limits) (spoken (inputItems request))
        (history.flatMap entriesOf) ∧
      (∀ before x between y after, inputItems request = before ++ x :: between ++ y :: after →
        isCallItem x = true → isCallItem y = true →
        ((places history)[(spoken before).length]? =
            (places history)[(spoken (before ++ x :: between)).length]? ↔
          ∀ z ∈ between, isCallItem z = true ∨ isReasoningItem z = true)) ∧
      (wireMessages translated.body).IsChain fun message message' =>
        ¬ (carriesCalls message = true ∧ carriesCalls message' = true) := by
  obtain ⟨object, history, rfl, hmessages, hhistory⟩ := translate_isHistory serde h
  refine ⟨object, history, rfl, hmessages, hhistory.translations, ?_, ?_⟩
  · intro before x between y after hitems hx hy
    rw [hitems] at hhistory
    exact hhistory.places_iff hx hy
  · rw [hmessages, List.isChain_append]
    refine ⟨?_, hhistory.parted, fun message hmem message' _ hboth => ?_⟩
    · unfold instructionMessages
      cases nonEmptyStr (Map.get object "instructions") with
      | none => exact .nil
      | some instructions => exact List.isChain_singleton _
    · rw [carriesCalls_instructions message (List.mem_of_getLast? hmem)] at hboth
      cases hboth.1

end

/-- A request whose history has two calls with reasoning between them, and a result. -/
def listedRequest : Value :=
  withInput [.obj [("type", .string "function_call"), ("call_id", .string "a"),
      ("name", .string "ls")],
    .obj [("type", .string "reasoning")],
    .obj [("type", .string "function_call"), ("call_id", .string "b"), ("name", .string "ls")],
    .obj [("type", .string "function_call_output"), ("call_id", .string "a")]] listingRequest

/-- The two calls share a message, and the result follows it. -/
theorem translate_history_listed :
    ∃ translated, translate Compact.serde listedRequest ⟨true, 1, le_refl 1⟩ = .ok translated ∧
      (wireMessages translated.body).length = 2 ∧
      ∃ object history, listedRequest = .object object ∧
        wireMessages translated.body = instructionMessages object ++ history ∧
        List.Forall₂ (IsTranslation Compact.serde ⟨true, 1, le_refl 1⟩)
          (spoken (inputItems listedRequest)) (history.flatMap entriesOf) ∧
        (places history)[0]? = (places history)[1]? := by
  obtain ⟨translated, hok⟩ : ∃ translated,
      translate Compact.serde listedRequest ⟨true, 1, le_refl 1⟩ = .ok translated :=
    exists_eq_ok (by decide)
  have hlength : (translate Compact.serde listedRequest ⟨true, 1, le_refl 1⟩).toOption.map
      (fun translated => (wireMessages translated.body).length) = some 2 := by
    decide
  rw [hok] at hlength
  obtain ⟨object, history, hobject, hmessages, htranslations, hshared, -⟩ :=
    translate_history Compact.serde _ _ translated hok
  refine ⟨translated, hok, Option.some.inj hlength, object, history, hobject, hmessages,
    htranslations, ?_⟩
  refine (hshared [] _ [.obj [("type", .string "reasoning")]] _ _ rfl rfl rfl).mpr ?_
  decide

end MuseCodex.Zai
