import MuseCodex.Fallible
import MuseCodex.Zai.Calls
import MuseCodex.Zai.Request

/-!
# Replaying the calls of a response

Muse sends the whole history with every turn, so the calls of a response come back as input items
of the next request. Their names were decoded on the way out and are encoded again on the way in.
For a name that the upstream emitted in the grammar of the wire the two undo each other, whether
or not the name is in the table of the request (`Faithful.knows`). A name that is not in that
grammar is passed on to Muse all the same, and the next request is refused or names another tool:
the calls of a response can be replayed exactly when their emitted names are names of the wire
(`responsesEvents_replayed`).
-/

namespace MuseCodex.Zai

open Text Json

/-! ## Names -/

/-- Whether a text is a function name on the wire. -/
def isWireName (s : String) : Bool :=
  s ≠ "" && s.utf8ByteSize ≤ MAX_FUNCTION_NAME_BYTES && s.toList.all isWireChar

/-- An encoded name is a name of the wire. -/
theorem encodeFunctionName_eq_ok {original encoded : String} :
    encodeFunctionName original = .ok encoded ↔
      encoded = replaceSeparator original ∧ isWireName encoded = true := by
  unfold encodeFunctionName isWireName
  dsimp only
  constructor
  · intro h
    split_ifs at h with hlength hchars
    cases h
    simp only [Bool.or_eq_true, decide_eq_true_eq, not_or, not_lt] at hlength
    simp only [Bool.not_eq_true', Bool.not_eq_false] at hchars
    exact ⟨rfl, by simp [hlength.1, hlength.2, hchars]⟩
  · rintro ⟨rfl, h⟩
    simp only [Bool.and_eq_true, decide_eq_true_eq] at h
    obtain ⟨⟨hne, hlength⟩, hchars⟩ := h
    rw [if_neg (by simp [hne, hlength]), if_neg (by simp [hchars])]

/-- A name of the wire has no separator, so encoding leaves it as it is. -/
theorem encodeFunctionName_of_isWireName {s : String} (h : isWireName s = true) :
    encodeFunctionName s = .ok s := by
  refine encodeFunctionName_eq_ok.mpr ⟨?_, h⟩
  have hchars : ∀ c ∈ s.toList, c ≠ NAMESPACE_SEPARATOR := by
    rintro c hc rfl
    unfold isWireName at h
    simp only [Bool.and_eq_true, List.all_eq_true] at h
    exact absurd (h.2 _ hc) (by decide)
  have hsame : s.toList.flatMap (fun c =>
      if c = NAMESPACE_SEPARATOR then ENCODED_NAMESPACE_SEPARATOR.toList else [c]) = s.toList := by
    generalize s.toList = cs at hchars
    induction cs with
    | nil => rfl
    | cons c cs ih =>
      rw [List.flatMap_cons, if_neg (hchars c List.mem_cons_self),
        ih fun d hd => hchars d (List.mem_cons_of_mem _ hd), List.singleton_append]
  rw [replaceSeparator, hsame, String.ofList_toList]

namespace ToolNames

/-- Every name in the table is under its encoding. -/
def Faithful (names : ToolNames) : Prop :=
  ∀ encoded original, names.decoded.get encoded = some original →
    encodeFunctionName original = .ok encoded

/-- A table that was extended: it has the names that it had, and stays faithful. -/
structure Grows (names names' : ToolNames) : Prop where
  kept : ∀ encoded original, names.decoded.get encoded = some original →
    names'.decoded.get encoded = some original
  faithful : names.Faithful → names'.Faithful

/-- A table has grown out of itself. -/
theorem Grows.refl (names : ToolNames) : Grows names names := ⟨fun _ _ h => h, fun h => h⟩

/-- Growing twice is growing. -/
theorem Grows.trans {names names' names'' : ToolNames} (h : Grows names names')
    (h' : Grows names' names'') : Grows names names'' :=
  ⟨fun encoded original hget => h'.kept encoded original (h.kept encoded original hget),
    fun hfaithful => h'.faithful (h.faithful hfaithful)⟩

/-- What recording a name needs and does. -/
theorem record_eq_ok {original encoded : String} {freeform : Bool} {names names' : ToolNames} :
    names.record original freeform = .ok (encoded, names') ↔
      encodeFunctionName original = .ok encoded ∧
        (∀ existing, names.decoded.get encoded = some existing → existing = original) ∧
        names' = names.insert encoded original freeform := by
  unfold record
  cases encodeFunctionName original with
  | error error => simp
  | ok encoded' =>
    dsimp only
    cases hget : (names.decoded.get encoded').filter (· ≠ original) with
    | some existing =>
      obtain ⟨hsome, hne⟩ := Option.filter_eq_some_iff.mp hget
      constructor
      · intro h
        cases h
      · rintro ⟨hencode, hsame, -⟩
        cases hencode
        exact absurd (hsame existing hsome) (by simpa using hne)
    | none =>
      rw [Option.filter_eq_none_iff] at hget
      constructor
      · intro h
        cases h
        refine ⟨rfl, fun existing hexisting => ?_, rfl⟩
        simpa using hget existing hexisting
      · rintro ⟨hencode, -, rfl⟩
        cases hencode
        rfl

/-- Recording a name extends the table. -/
theorem record_grows {original encoded : String} {freeform : Bool} {names names' : ToolNames}
    (h : names.record original freeform = .ok (encoded, names')) : Grows names names' := by
  obtain ⟨hencode, hsame, rfl⟩ := record_eq_ok.mp h
  have hget (key : String) : (names.insert encoded original freeform).decoded.get key =
      if key = encoded then some original else names.decoded.get key := Map.get_insert _ _ _ _
  constructor
  · intro key existing hkey
    rw [hget]
    split_ifs with heq
    · rw [heq] at hkey
      rw [hsame existing hkey]
    · exact hkey
  · intro hfaithful key existing hkey
    rw [hget] at hkey
    split_ifs at hkey with heq
    · cases hkey
      rw [heq]
      exact hencode
    · exact hfaithful key existing hkey

/-- A name that a table has under its encoding. -/
def Knows (table : ToolNames) (original encoded : String) : Prop :=
  encodeFunctionName original = .ok encoded ∧ table.decode encoded = original

/-- A table whose names are those of another one, as far as that has any. -/
def Agrees (table names : ToolNames) : Prop :=
  ∀ encoded original, names.decoded.get encoded = some original → table.decode encoded = original

/-- A table agrees with what it has grown out of. -/
theorem Grows.agrees {names table : ToolNames} (h : Grows names table) : Agrees table names := by
  intro encoded original hget
  rw [decode, h.kept encoded original hget]
  rfl

/-- The name that Muse gets for a name of the wire is the one that is encoded as that name,
whether or not it is in the table. -/
theorem Faithful.knows {table : ToolNames} (h : table.Faithful) {emitted : String}
    (hwire : isWireName emitted = true) : Knows table (table.decode emitted) emitted := by
  refine ⟨?_, rfl⟩
  unfold decode
  cases hget : table.decoded.get emitted with
  | none => exact encodeFunctionName_of_isWireName hwire
  | some original => exact h emitted original hget

/-- A name that a table knows does not collide with the names of a table that agrees with it. -/
theorem Agrees.record {table names : ToolNames} (h : Agrees table names)
    {original encoded : String} (hknows : Knows table original encoded) (freeform : Bool) :
    ∃ names', names.record original freeform = .ok (encoded, names') ∧ Agrees table names' := by
  obtain ⟨hencode, hdecode⟩ := hknows
  refine ⟨_, record_eq_ok.mpr ⟨hencode, fun existing hexisting => ?_, rfl⟩, ?_⟩
  · rw [← hdecode, h encoded existing hexisting]
  · intro key existing hkey
    have hget : (names.insert encoded original freeform).decoded.get key =
        if key = encoded then some original else names.decoded.get key := Map.get_insert _ _ _ _
    rw [hget] at hkey
    split_ifs at hkey with heq
    · cases hkey
      rw [heq, hdecode]
    · exact h key existing hkey

end ToolNames

/-! ## The names of the tools -/

open Fallible ToolNames

/-- The declaration of a tool extends the table. -/
theorem declaredTool_grows {freeform : Bool} {parameters : Value} {tool : Map Value}
    {ns : Option String} {names names' : ToolNames} {declared : Value}
    (h : declaredTool freeform parameters tool ns names = .ok (declared, names')) :
    Grows names names' := by
  obtain ⟨original, -, h⟩ := bind_eq_ok.mp h
  obtain ⟨⟨encoded, names₁⟩, hrecord, h⟩ := bind_eq_ok.mp h
  cases h
  exact record_grows hrecord

/-- So does that of a tool of either sort, after the tools before it. -/
theorem declared_grows {declare : Map Value → Option String → ToolNames →
      Except String (Value × ToolNames)} (hdeclare : declare = functionTool ∨ declare = customTool)
    {tool : Map Value} {ns : Option String} {acc acc' : List Value × ToolNames}
    (h : (do
      let (translated, names) ← declare tool ns acc.2
      return (acc.1 ++ [translated], names)) = .ok acc') : Grows acc.2 acc'.2 := by
  obtain ⟨⟨translated, names⟩, hdeclared, h⟩ := bind_eq_ok.mp h
  cases h
  rcases hdeclare with rfl | rfl
  · exact declaredTool_grows hdeclared
  · exact declaredTool_grows hdeclared

/-- A tool of a namespace makes the table grow. -/
theorem translateNestedTool_grows {ns : String} {tool : Value} {acc acc' : List Value × ToolNames}
    (h : translateNestedTool ns acc tool = .ok acc') : Grows acc.2 acc'.2 := by
  unfold translateNestedTool at h
  split at h
  · split at h
    · exact declared_grows (.inl rfl) h
    · exact declared_grows (.inr rfl) h
    · cases h
  · cases h

/-- A tool makes the table grow. -/
theorem translateTool_grows {tool : Value} {acc acc' : List Value × ToolNames}
    (h : translateTool acc tool = .ok acc') : Grows acc.2 acc'.2 := by
  unfold translateTool at h
  split at h
  · split at h
    · exact declared_grows (.inl rfl) h
    · exact declared_grows (.inr rfl) h
    · split at h
      · split at h
        · exact foldlM_rel (R := fun acc acc' => Grows acc.2 acc'.2) (fun acc => Grows.refl acc.2)
            Grows.trans translateNestedTool_grows h
        · cases h
      · cases h
    · cases h
  · cases h

/-- The tools of a request give a faithful table. -/
theorem translateTools_faithful {tools : Option Value} {translated : List Value}
    {names : ToolNames} (h : translateTools tools {} = .ok (translated, names)) :
    names.Faithful := by
  have hempty : Faithful {} := nofun
  unfold translateTools at h
  split at h
  · cases h
    exact hempty
  · split at h
    · cases h
    · have hgrows := foldlM_rel (R := fun acc acc' => Grows acc.2 acc'.2)
        (fun acc => Grows.refl acc.2) Grows.trans translateTool_grows h
      exact hgrows.faithful hempty

/-! ## The calls on the wire -/

/-- The role of a message on the wire. -/
def roleOf (message : Value) : Option String := (message.get "role").bind Value.asStr

/-- The calls of a message of calls. -/
def callsOf (message : Value) : List Value :=
  if roleOf message = some "assistant" then
    ((message.get "tool_calls").bind Value.asArray).getD []
  else []

/-- The calls in some messages. -/
def wireCalls (messages : List Value) : List Value := messages.flatMap callsOf

/-- The id of the call that a message has the result of. -/
def resultOf (message : Value) : Option String :=
  if roleOf message = some "tool" then (message.get "tool_call_id").bind Value.asStr else none

/-- The ids of the calls that some messages have the results of. -/
def wireResults (messages : List Value) : List String := messages.filterMap resultOf

/-- A call that is added to the messages comes after the calls in them, and adds no result. -/
theorem pushToolCall_spec (messages : List Value) (call : Value) :
    wireCalls (pushToolCall messages call) = wireCalls messages ++ [call] ∧
      wireResults (pushToolCall messages call) = wireResults messages := by
  have hnew : callsOf (.obj [("role", .string "assistant"), ("content", .null),
      ("tool_calls", .array [call])]) = [call] ∧ resultOf (.obj [("role", .string "assistant"),
        ("content", .null), ("tool_calls", .array [call])]) = none := by
    simp [callsOf, resultOf, roleOf, Value.obj, Map.ofEntries]
  have happend : wireCalls (messages ++ [.obj [("role", .string "assistant"), ("content", .null),
        ("tool_calls", .array [call])]]) = wireCalls messages ++ [call] ∧
      wireResults (messages ++ [.obj [("role", .string "assistant"), ("content", .null),
        ("tool_calls", .array [call])]]) = wireResults messages := by
    simp [wireCalls, wireResults, hnew.1, hnew.2]
  unfold pushToolCall
  dsimp only
  cases hlast : messages.getLast? with
  | none => exact happend
  | some last =>
    obtain ⟨before, rfl⟩ := List.getLast?_eq_some_iff.mp hlast
    cases last with
    | object m =>
      rw [Option.bind_some, Value.asObject_object, Option.bind_some]
      split_ifs with hrole
      · cases hcalls : (Map.get m "tool_calls").bind Value.asArray with
        | none => exact happend
        | some calls =>
          -- The last message is one of calls and gets one more; its role stays.
          have hbefore : callsOf (.object m) = calls ∧ resultOf (.object m) = none := by
            simp [callsOf, resultOf, roleOf, hrole, hcalls]
          have hafter (extended : List Value) :
              callsOf (.object (Map.insert m "tool_calls" (.array extended))) = extended ∧
                resultOf (.object (Map.insert m "tool_calls" (.array extended))) = none := by
            simp [callsOf, resultOf, roleOf, hrole]
          simp [wireCalls, wireResults, hbefore.1, hbefore.2, (hafter _).1, (hafter _).2]
      · exact happend
    | _ => exact happend

/-! ## Input items -/

variable (serde : Serde)

/-- A call on the wire. -/
def wireCall (freeform : Bool) (raw callId encoded : String) : Value :=
  .obj [("id", .string callId),
    ("type", .string "function"),
    ("function", .obj [("name", .string encoded),
      ("arguments", .string (wireArguments serde freeform raw))])]

/-- The members of a call on the wire. -/
theorem wireCall_reads (freeform : Bool) (raw callId encoded : String) :
    (wireCall serde freeform raw callId encoded).get "id" = some (.string callId) ∧
      ∃ function, (wireCall serde freeform raw callId encoded).get "function" = some function ∧
        function.get "name" = some (.string encoded) ∧
        function.get "arguments" = some (.string (wireArguments serde freeform raw)) := by
  simp [wireCall, Value.obj, Map.ofEntries]

/-- What the translation of a call needs and does. -/
theorem toolCall_eq_ok {item : Map Value} {field : String} {names names' : ToolNames}
    {freeform : Bool} {call : Value} :
    toolCall serde item field names freeform = .ok (call, names') ↔
      ∃ callId name encoded, nonEmptyStr (item.get "call_id") = some callId ∧
        nonEmptyStr (item.get "name") = some name ∧
        names.record name freeform = .ok (encoded, names') ∧
        call = wireCall serde freeform (((item.get field).bind Value.asStr).getD "") callId
          encoded := by
  unfold toolCall
  cases nonEmptyStr (item.get "call_id") with
  | none => exact ⟨nofun, fun ⟨_, _, _, h, _⟩ => nomatch h⟩
  | some callId =>
    cases nonEmptyStr (item.get "name") with
    | none => exact ⟨nofun, fun ⟨_, _, _, _, h, _⟩ => nomatch h⟩
    | some name =>
      dsimp only
      constructor
      · intro h
        obtain ⟨⟨encoded, names''⟩, hrecord, hcall⟩ := bind_eq_ok.mp h
        cases hcall
        exact ⟨callId, name, encoded, rfl, rfl, hrecord, rfl⟩
      · rintro ⟨callId', name', encoded, hid, hname, hrecord, rfl⟩
        cases hid
        cases hname
        rw [hrecord]
        rfl

/-- Whether a call is freeform. -/
def isFreeformItem (item : Value) : Bool := itemType item = some "custom_tool_call"

/-- The arguments of a call, or its input. -/
def rawArguments (item : Value) : String :=
  ((item.get (if isFreeformItem item then "input" else "arguments")).bind Value.asStr).getD ""

/-- The call on the wire that an input item leads to, with its id and its name there. -/
def IsWireCall (item : Value) (name encoded : String) (call : Value) : Prop :=
  nonEmptyStr (item.get "name") = some name ∧ encodeFunctionName name = .ok encoded ∧
    ∃ callId, nonEmptyStr (item.get "call_id") = some callId ∧
      call = wireCall serde (isFreeformItem item) (rawArguments item) callId encoded

/-- An item that is a call is added to the calls, and its name to the table. -/
theorem translateItem_call {item : Value} (hitem : isCallItem item = true) (limits : ModelLimits)
    {acc acc' : List Value × ToolNames} : translateItem serde limits acc item = .ok acc' ↔
      ∃ name encoded call, IsWireCall serde item name encoded call ∧
        acc.2.record name (isFreeformItem item) = .ok (encoded, acc'.2) ∧
        acc'.1 = pushToolCall acc.1 call := by
  cases item with
  | object m =>
    -- The two kinds of calls differ in the member that holds the arguments.
    have hcall {field : String} {freeform : Bool} (hfreeform : isFreeformItem (.object m) = freeform)
        (hfield : (if freeform then "input" else "arguments") = field) :
        (do
          let (call, names) ← toolCall serde m field acc.2 freeform
          return (pushToolCall acc.1 call, names)) = .ok acc' ↔
        ∃ name encoded call, IsWireCall serde (.object m) name encoded call ∧
          acc.2.record name freeform = .ok (encoded, acc'.2) ∧
          acc'.1 = pushToolCall acc.1 call := by
      unfold IsWireCall rawArguments
      rw [hfreeform, hfield, bind_eq_ok]
      constructor
      · rintro ⟨⟨call, names⟩, htool, heq⟩
        cases heq
        obtain ⟨callId, name, encoded, hid, hname, hrecord, rfl⟩ := (toolCall_eq_ok serde).mp htool
        exact ⟨name, encoded, _, ⟨hname, (record_eq_ok.mp hrecord).1, callId, hid, rfl⟩, hrecord,
          rfl⟩
      · rintro ⟨name, encoded, call, ⟨hname, -, callId, hid, rfl⟩, hrecord, hmessages⟩
        refine ⟨_, (toolCall_eq_ok serde).mpr ⟨callId, name, encoded, hid, hname, hrecord, rfl⟩, ?_⟩
        exact congrArg Except.ok (Prod.ext hmessages.symm rfl)
    have htype : (Map.get m "type").bind Value.asStr = some "function_call" ∨
        (Map.get m "type").bind Value.asStr = some "custom_tool_call" := by
      simpa [isCallItem, itemType] using hitem
    unfold translateItem
    rcases htype with htype | htype
    · have hfreeform : isFreeformItem (.object m) = false := by
        simp [isFreeformItem, itemType, htype]
      rw [Value.asObject_object, hfreeform]
      simp only [htype]
      exact hcall hfreeform rfl
    · have hfreeform : isFreeformItem (.object m) = true := by
        simp [isFreeformItem, itemType, htype]
      rw [Value.asObject_object, hfreeform]
      simp only [htype]
      exact hcall hfreeform rfl
  | _ => simp [isCallItem, itemType, Value.get] at hitem

/-- The translation of a message has no calls. -/
theorem wireCalls_translateMessage {item : Map Value} {limits : ModelLimits} {message : Value}
    (h : translateMessage item limits = .ok message) : wireCalls [message] = [] := by
  have hbuilt {role : String} {x : Except String Value} (h : (do
      let content ← x
      return Value.obj [("role", .string role), ("content", content)]) = .ok message) :
      wireCalls [message] = [] := by
    obtain ⟨content, -, h⟩ := bind_eq_ok.mp h
    cases h
    simp [wireCalls, callsOf, Value.obj, Map.ofEntries]
  unfold translateMessage at h
  dsimp only at h
  -- Whatever the role and the content are, the message is built of them alone.
  split at h
  all_goals
    obtain ⟨role, -, h⟩ := bind_eq_ok.mp h
    split at h
    all_goals exact hbuilt h

/-- Neither has that of a result. -/
theorem wireCalls_toolResult {item : Map Value} {message : Value}
    (h : toolResult serde item = .ok message) : wireCalls [message] = [] := by
  unfold toolResult at h
  split at h
  · cases h
  · cases h
    simp [wireCalls, callsOf, roleOf, Value.obj, Map.ofEntries]

/-- An item that is no call is translated to the same messages after any items before it, and has
no part in the calls and the names. -/
theorem translateItem_plain {item : Value} (hitem : isCallItem item = false)
    (limits : ModelLimits) : ∃ result : Except String (List Value),
      (∀ acc, translateItem serde limits acc item =
        result.map fun messages => (acc.1 ++ messages, acc.2)) ∧
      ∀ messages, result = .ok messages → wireCalls messages = [] := by
  cases item with
  | object m =>
    have htype : (Map.get m "type").bind Value.asStr ≠ some "function_call" ∧
        (Map.get m "type").bind Value.asStr ≠ some "custom_tool_call" := by
      simpa [isCallItem, itemType] using hitem
    have hone {x : Except String Value} (hcalls : ∀ v, x = .ok v → wireCalls [v] = []) :
        ∃ result : Except String (List Value),
          (∀ acc : List Value × ToolNames, (do
            let message ← x
            return (acc.1 ++ [message], acc.2)) =
              result.map fun messages => (acc.1 ++ messages, acc.2)) ∧
          ∀ messages, result = .ok messages → wireCalls messages = [] := by
      cases x with
      | error error => exact ⟨.error error, fun _ => rfl, fun _ h => by cases h⟩
      | ok v =>
        refine ⟨.ok [v], fun _ => rfl, fun messages h => ?_⟩
        cases h
        exact hcalls v rfl
    unfold translateItem
    simp only [Value.asObject_object]
    split
    · exact hone fun _ => wireCalls_translateMessage
    · refine ⟨.ok [], fun acc => ?_, fun messages h => ?_⟩
      · rw [Except.map, List.append_nil]
      · cases h
        rfl
    · exact absurd ‹_› htype.1
    · exact absurd ‹_› htype.2
    · exact hone fun _ => wireCalls_toolResult serde
    · exact hone fun _ => wireCalls_toolResult serde
    · exact ⟨.error _, fun _ => rfl, fun _ h => by cases h⟩
  | _ => exact ⟨.error _, fun _ => rfl, fun _ h => by cases h⟩

/-- Whether an item is the result of a call. -/
def isResultItem (item : Value) : Bool :=
  itemType item ∈ [some "function_call_output", some "custom_tool_call_output"]

/-- A result goes to the wire under the id of its call. -/
theorem translateItem_result {item : Value} (hitem : isResultItem item = true) {callId : String}
    (hid : nonEmptyStr (item.get "call_id") = some callId) (limits : ModelLimits)
    (acc : List Value × ToolNames) : ∃ message, resultOf message = some callId ∧
      translateItem serde limits acc item = .ok (acc.1 ++ [message], acc.2) := by
  cases item with
  | object m =>
    have htype : (Map.get m "type").bind Value.asStr = some "function_call_output" ∨
        (Map.get m "type").bind Value.asStr = some "custom_tool_call_output" := by
      simpa [isResultItem, itemType] using hitem
    have hresult : ∃ message, resultOf message = some callId ∧
        toolResult serde m = .ok message := by
      unfold toolResult
      rw [Value.get_object] at hid
      rw [hid]
      exact ⟨_, by simp [resultOf, roleOf, Value.obj, Map.ofEntries], rfl⟩
    obtain ⟨message, hmessage, hresult⟩ := hresult
    refine ⟨message, hmessage, ?_⟩
    unfold translateItem
    rcases htype with htype | htype
    · simp only [Value.asObject_object, htype, hresult]
      rfl
    · simp only [Value.asObject_object, htype, hresult]
      rfl
  | _ => simp [isResultItem, itemType, Value.get] at hitem

/-! ## Runs over input items -/

variable {limits : ModelLimits} {acc acc' : List Value × ToolNames}

/-- A step on an item that is no call. -/
theorem translateItem_plain_ok {item : Value} (hitem : isCallItem item = false)
    (h : translateItem serde limits acc item = .ok acc') :
    ∃ messages, wireCalls messages = [] ∧ acc' = (acc.1 ++ messages, acc.2) := by
  obtain ⟨result, hresult, hcalls⟩ := translateItem_plain serde hitem limits
  rw [hresult acc] at h
  cases result with
  | error error => cases h
  | ok messages =>
    cases h
    exact ⟨messages, hcalls messages rfl, rfl⟩

/-- An item makes the table grow. -/
theorem translateItem_grows {item : Value} (h : translateItem serde limits acc item = .ok acc') :
    Grows acc.2 acc'.2 := by
  cases hitem : isCallItem item with
  | false =>
    obtain ⟨messages, -, rfl⟩ := translateItem_plain_ok serde hitem h
    exact Grows.refl acc.2
  | true =>
    obtain ⟨name, encoded, call, -, hrecord, -⟩ := (translateItem_call serde hitem limits).mp h
    exact record_grows hrecord

/-- Items make the table grow. -/
theorem translateItems_grows {items : List Value}
    (h : items.foldlM (translateItem serde limits) acc = .ok acc') : Grows acc.2 acc'.2 :=
  foldlM_rel (R := fun acc acc' => Grows acc.2 acc'.2) (fun acc => Grows.refl acc.2) Grows.trans
    (translateItem_grows serde) h

/-- The calls of a run are known to the table at its end. -/
theorem translateItems_known {items : List Value}
    (h : items.foldlM (translateItem serde limits) acc = .ok acc') {item : Value}
    (hmem : item ∈ items) (hitem : isCallItem item = true) :
    ∃ name encoded call, IsWireCall serde item name encoded call ∧
      Knows acc'.2 name encoded := by
  induction items generalizing acc with
  | nil => cases hmem
  | cons first items ih =>
    obtain ⟨acc₁, hfirst, hrest⟩ := foldlM_cons_eq_ok.mp h
    rcases List.mem_cons.mp hmem with rfl | hmem
    · obtain ⟨name, encoded, call, hcall, hrecord, -⟩ :=
        (translateItem_call serde hitem limits).mp hfirst
      obtain ⟨hencode, -, hnames⟩ := record_eq_ok.mp hrecord
      have hget : acc₁.2.decoded.get encoded = some name := by
        rw [hnames]
        exact (Map.get_insert _ _ _ _).trans (if_pos rfl)
      exact ⟨name, encoded, call, hcall, hencode,
        (translateItems_grows serde hrest).agrees encoded name hget⟩
    · exact ih hrest hmem

/-- The calls that a run adds to the wire are those of its items, in their order. -/
theorem translateItems_calls {items : List Value}
    (h : items.foldlM (translateItem serde limits) acc = .ok acc') :
    ∃ calls, wireCalls acc'.1 = wireCalls acc.1 ++ calls ∧
      List.Forall₂ (fun item call => ∃ name encoded, IsWireCall serde item name encoded call)
        (items.filter isCallItem) calls := by
  induction items generalizing acc with
  | nil =>
    cases h
    exact ⟨[], (List.append_nil _).symm, .nil⟩
  | cons item items ih =>
    obtain ⟨acc₁, hfirst, hrest⟩ := foldlM_cons_eq_ok.mp h
    obtain ⟨calls, hcalls, hforall⟩ := ih hrest
    cases hitem : isCallItem item with
    | false =>
      obtain ⟨messages, hnone, rfl⟩ := translateItem_plain_ok serde hitem hfirst
      refine ⟨calls, ?_, ?_⟩
      · rw [hcalls, wireCalls, List.flatMap_append]
        change _ ++ wireCalls messages ++ calls = _
        rw [hnone, List.append_nil]
        rfl
      · rwa [List.filter_cons_of_neg (by simp [hitem])]
    | true =>
      obtain ⟨name, encoded, call, hcall, -, hpush⟩ :=
        (translateItem_call serde hitem limits).mp hfirst
      refine ⟨call :: calls, ?_, ?_⟩
      · rw [hcalls, hpush, (pushToolCall_spec acc.1 call).1, List.append_assoc,
          List.singleton_append]
      · rw [List.filter_cons_of_pos hitem]
        exact .cons ⟨name, encoded, hcall⟩ hforall

/-- A run keeps the results on the wire. -/
theorem translateItems_keeps {items : List Value}
    (h : items.foldlM (translateItem serde limits) acc = .ok acc') :
    wireResults acc.1 ⊆ wireResults acc'.1 := by
  refine foldlM_rel (R := fun acc acc' => wireResults acc.1 ⊆ wireResults acc'.1)
    (fun acc => List.Subset.refl _) List.Subset.trans ?_ h
  intro acc item acc' hstep
  cases hitem : isCallItem item with
  | false =>
    obtain ⟨messages, -, rfl⟩ := translateItem_plain_ok serde hitem hstep
    rw [wireResults, wireResults, List.filterMap_append]
    exact List.subset_append_left _ _
  | true =>
    obtain ⟨name, encoded, call, -, -, hpush⟩ := (translateItem_call serde hitem limits).mp hstep
    rw [hpush, (pushToolCall_spec acc.1 call).2]
    exact List.Subset.refl _

/-- The results of a run are on the wire at its end. -/
theorem translateItems_results {items : List Value}
    (h : items.foldlM (translateItem serde limits) acc = .ok acc') {item : Value}
    (hmem : item ∈ items) (hitem : isResultItem item = true) {callId : String}
    (hid : nonEmptyStr (item.get "call_id") = some callId) : callId ∈ wireResults acc'.1 := by
  induction items generalizing acc with
  | nil => cases hmem
  | cons first items ih =>
    obtain ⟨acc₁, hfirst, hrest⟩ := foldlM_cons_eq_ok.mp h
    rcases List.mem_cons.mp hmem with rfl | hmem
    · obtain ⟨message, hmessage, hok⟩ := translateItem_result serde hitem hid limits acc
      rw [hok] at hfirst
      cases hfirst
      refine translateItems_keeps serde hrest ?_
      exact List.mem_filterMap.mpr ⟨message, by simp, hmessage⟩
    · exact ih hrest hmem

/-- An item that can be translated after any items whose names agree with a table: a call whose
name the table knows, or an item that is no call and can be translated at all. -/
def Welcome (table : ToolNames) (limits : ModelLimits) (item : Value) : Prop :=
  (isCallItem item = true ∧ ∃ name encoded call, IsWireCall serde item name encoded call ∧
      Knows table name encoded) ∨
    (isCallItem item = false ∧ ∃ acc acc', translateItem serde limits acc item = .ok acc')

/-- A welcome item is translated, and the names go on to agree. -/
theorem Welcome.step {table : ToolNames} {item : Value} (h : Welcome serde table limits item)
    (hagrees : Agrees table acc.2) :
    ∃ acc', translateItem serde limits acc item = .ok acc' ∧ Agrees table acc'.2 := by
  rcases h with ⟨hitem, name, encoded, call, hcall, hknows⟩ | ⟨hitem, acc₁, acc₂, hok⟩
  · obtain ⟨names', hrecord, hagrees'⟩ := hagrees.record hknows (isFreeformItem item)
    exact ⟨(pushToolCall acc.1 call, names'), (translateItem_call serde hitem limits).mpr
      ⟨name, encoded, call, hcall, hrecord, rfl⟩, hagrees'⟩
  · -- What is translated after some items is translated after all items.
    obtain ⟨result, hresult, -⟩ := translateItem_plain serde hitem limits
    rw [hresult acc₁] at hok
    cases result with
    | error error => cases hok
    | ok messages => exact ⟨(acc.1 ++ messages, acc.2), hresult acc, hagrees⟩

/-- Welcome items are translated. -/
theorem translateItems_ok {table : ToolNames} {items : List Value}
    (h : ∀ item ∈ items, Welcome serde table limits item) (hagrees : Agrees table acc.2) :
    ∃ acc', items.foldlM (translateItem serde limits) acc = .ok acc' := by
  obtain ⟨acc', hok, -⟩ := foldlM_ok (I := fun acc : List Value × ToolNames => Agrees table acc.2)
    (fun _ item hitem hacc => (h item hitem).step serde hacc) hagrees
  exact ⟨acc', hok⟩

/-! ## Requests -/

/-- The input items of a request. -/
def inputItems (request : Value) : List Value :=
  ((request.get "input").bind Value.asArray).getD []

/-- The messages on the wire. -/
def wireMessages (body : Value) : List Value :=
  ((body.get "messages").bind Value.asArray).getD []

/-- A request with other input items. -/
def withInput (items : List Value) (request : Map Value) : Value :=
  .object (request.insert "input" (.array items))

/-- The input of a request is translated item by item, or is missing or of the wrong type. -/
theorem translateMessages_ok {request : Map Value} {names : ToolNames}
    {translated : List Value × ToolNames}
    (h : translateMessages serde request names limits = .ok translated) :
    (inputItems (.object request)).foldlM (translateItem serde limits)
      (instructionMessages request, names) = .ok translated := by
  unfold translateMessages at h
  unfold inputItems
  rw [Value.get_object]
  split at h
  · rename_i hget
    rw [hget]
    exact h
  · rename_i hget
    rw [hget]
    exact h
  · rename_i hget
    rw [hget]
    exact h
  · cases h

/-- The tools on the wire. -/
def wireTools (body : Value) : List Value := ((body.get "tools").bind Value.asArray).getD []

/-- The members of a translated request after its messages and tools. -/
theorem laterEntries_keys {request : Map Value} {effort : List (String × Value)}
    (heffort : effortEntry request = .ok effort) :
    ∀ e ∈ effort ++ limitEntry request limits ++ [("stream", Value.bool true)],
      e.1 ∈ ["reasoning_effort", "thinking", "max_tokens", "stream"] := by
  have heffort' : ∀ e ∈ effort, e.1 ∈ ["reasoning_effort", "thinking"] := by
    unfold effortEntry at heffort
    split at heffort
    · cases heffort
      simp
    · obtain ⟨mapped, -, heffort⟩ := bind_eq_ok.mp heffort
      cases mapped with
      | none =>
        cases heffort
        simp
      | some effort' =>
        cases heffort
        simp
  intro e he
  simp only [List.mem_append, List.mem_singleton] at he
  rcases he with (he | he) | rfl
  · rcases List.mem_cons.mp (heffort' e he) with hkey | hkey
    · simp [hkey]
    · simp [List.mem_singleton.mp hkey]
  · obtain ⟨n, -, rfl⟩ := Option.map_eq_some_iff.mp (Option.mem_toList.mp he)
    exact (by decide : "max_tokens" ∈ ["reasoning_effort", "thinking", "max_tokens", "stream"])
  · decide

/-- The messages and the tools of a translated request. -/
theorem wire_body {request : Map Value} {effort : List (String × Value)}
    (heffort : effortEntry request = .ok effort) (model : String) (messages tools : List Value) :
    wireMessages (.obj ([("model", .string model), ("messages", .array messages)] ++
        toolEntries tools ++ effort ++ limitEntry request limits ++ [("stream", .bool true)])) =
          messages ∧
      wireTools (.obj ([("model", .string model), ("messages", .array messages)] ++
        toolEntries tools ++ effort ++ limitEntry request limits ++ [("stream", .bool true)])) =
          tools := by
  have hlater : ∀ e ∈ effort ++ limitEntry request limits ++ [("stream", Value.bool true)],
      e.1 ∈ ["reasoning_effort", "thinking", "max_tokens", "stream"] := laterEntries_keys heffort
  generalize hentries : effort ++ limitEntry request limits ++ [("stream", Value.bool true)] =
    entries at hlater
  -- The members that are read stand before those that come later, which carry other keys.
  have hsplit : [("model", .string model), ("messages", .array messages)] ++
      toolEntries tools ++ effort ++ limitEntry request limits ++ [("stream", .bool true)] =
        [("model", .string model)] ++ ("messages", .array messages) ::
          (toolEntries tools ++ entries) := by
    rw [← hentries]
    simp only [List.append_assoc, List.cons_append, List.nil_append]
  have hkeys {key : String} (hkey : key ∉ ["reasoning_effort", "thinking", "max_tokens", "stream"]) :
      ∀ e ∈ entries, e.1 ≠ key := by
    rintro e he rfl
    exact hkey (hlater e he)
  rw [hsplit]
  constructor
  · have hmessages : ∀ e ∈ toolEntries tools ++ entries, e.1 ≠ "messages" := by
      rw [List.forall_mem_append]
      refine ⟨?_, hkeys (by decide)⟩
      unfold toolEntries
      split_ifs
      · simp
      · simp
    rw [wireMessages, Value.obj, Value.get_object, Map.get_ofEntries_append_cons hmessages]
    rfl
  · unfold toolEntries
    split_ifs with htools
    · -- Without tools there is no member for them.
      rw [wireTools, Value.obj, Value.get_object, Map.get_ofEntries_of_notMem, htools]
      · rfl
      · simp only [List.nil_append, List.cons_append, List.forall_mem_cons]
        exact ⟨by decide, by decide, hkeys (by decide)⟩
    · have htools' : ∀ e ∈ [("tool_choice", Value.string "auto"), ("tool_stream", .bool true)] ++
          entries, e.1 ≠ "tools" := by
        rw [List.forall_mem_append]
        exact ⟨by simp, hkeys (by decide)⟩
      have hget := Map.get_ofEntries_append_cons htools'
        [("model", Value.string model), ("messages", .array messages)] (.array tools)
      simp only [List.cons_append, List.nil_append] at hget ⊢
      rw [wireTools, Value.obj, Value.get_object, hget]
      rfl

/-- The parts of a request that is accepted. -/
theorem translate_eq_ok {request : Value} {translated : TranslatedRequest}
    (h : translate serde request limits = .ok translated) :
    ∃ object tools names messages, request = .object object ∧
      translateTools (Map.get object "tools") {} = .ok (tools, names) ∧
      (inputItems request).foldlM (translateItem serde limits)
        (instructionMessages object, names) = .ok (messages, translated.tools) ∧
      wireMessages translated.body = messages ∧ wireTools translated.body = tools := by
  unfold translate at h
  split at h
  · cases h
  · rename_i object hobject
    split at h
    · cases h
    · split at h
      · cases h
      · obtain ⟨⟨tools, names⟩, htools, h⟩ := bind_eq_ok.mp h
        obtain ⟨⟨messages, names'⟩, hmessages, h⟩ := bind_eq_ok.mp h
        obtain ⟨effort, heffort, h⟩ := bind_eq_ok.mp h
        cases h
        rw [Value.asObject_eq_some hobject]
        exact ⟨object, tools, names, messages, rfl, htools, translateMessages_ok serde hmessages,
          wire_body heffort _ messages tools⟩

/-- What a request needs besides tools and items that can be translated. -/
def Ready (request : Map Value) : Prop :=
  (∃ model, nonEmptyStr (request.get "model") = some model) ∧
    (["previous_response_id", "conversation"].find? fun field =>
      (request.get field).any (!·.isNull)) = none ∧
    ∃ effort, effortEntry request = .ok effort

/-- Which requests are accepted. -/
theorem translate_accepts {request : Map Value} :
    (∃ translated, translate serde (.object request) limits = .ok translated) ↔
      Ready request ∧ ∃ tools names, translateTools (request.get "tools") {} = .ok (tools, names) ∧
        ∃ acc, translateMessages serde request names limits = .ok acc := by
  constructor
  · rintro ⟨translated, h⟩
    unfold translate at h
    simp only [Value.asObject_object] at h
    split at h
    · cases h
    · rename_i model hmodel
      split at h
      · cases h
      · rename_i hfields
        obtain ⟨⟨tools, names⟩, htools, h⟩ := bind_eq_ok.mp h
        obtain ⟨acc, hmessages, h⟩ := bind_eq_ok.mp h
        obtain ⟨effort, heffort, h⟩ := bind_eq_ok.mp h
        exact ⟨⟨⟨model, hmodel⟩, hfields, effort, heffort⟩, tools, names, htools, acc, hmessages⟩
  · rintro ⟨⟨⟨model, hmodel⟩, hfields, effort, heffort⟩, tools, names, htools, acc, hmessages⟩
    unfold translate
    simp only [Value.asObject_object, hmodel, hfields, htools]
    refine ⟨_, bind_eq_ok.mpr ⟨_, rfl, bind_eq_ok.mpr ⟨_, hmessages, bind_eq_ok.mpr
      ⟨_, heffort, rfl⟩⟩⟩⟩

/-- Which requests are accepted with other input items. -/
theorem translate_withInput_accepts {request : Map Value} {items : List Value} :
    (∃ translated, translate serde (withInput items request) limits = .ok translated) ↔
      Ready request ∧ ∃ tools names, translateTools (request.get "tools") {} = .ok (tools, names) ∧
        ∃ acc, items.foldlM (translateItem serde limits) (instructionMessages request, names) =
          .ok acc := by
  have hget {key : String} (hkey : key ≠ "input") :
      (request.insert "input" (.array items)).get key = request.get key :=
    (Map.get_insert _ _ _ _).trans (if_neg hkey)
  have hready : Ready (request.insert "input" (.array items)) ↔ Ready request := by
    unfold Ready effortEntry
    simp only [List.find?_cons, List.find?_nil, hget (show "model" ≠ "input" by decide),
      hget (show "previous_response_id" ≠ "input" by decide),
      hget (show "conversation" ≠ "input" by decide), hget (show "reasoning" ≠ "input" by decide)]
  have hmessages (names : ToolNames) :
      translateMessages serde (request.insert "input" (.array items)) names limits =
        items.foldlM (translateItem serde limits) (instructionMessages request, names) := by
    unfold translateMessages instructionMessages
    rw [hget (show "instructions" ≠ "input" by decide), Map.get_insert, if_pos rfl]
  rw [withInput, translate_accepts, hready, hget (show "tools" ≠ "input" by decide)]
  simp only [hmessages]

/-! ## Replays -/

/-- Whether an item is a result of a call. -/
def isResultOf (call item : Value) : Bool :=
  isResultItem item && item.get "call_id" = call.get "call_id"

/-- Whether an item replays one of some calls, or is a result of one. -/
def isReplay (calls : List Value) (item : Value) : Bool :=
  item ∈ calls || calls.any fun call => isResultOf call item

/-- A request, with its input items, that follows on another one whose response made some calls. It
has the same tools, it is accepted without what it replays of the calls, and all other calls in it
are calls of the first request. -/
structure Follows (request : Value) (calls : List Value) (next : Map Value) (items : List Value)
    (limits : ModelLimits) : Prop where
  tools : next.get "tools" = request.get "tools"
  accepted : ∃ translated, translate serde
    (withInput (items.filter fun item => !isReplay calls item) next) limits = .ok translated
  calls : ∀ item ∈ items, isCallItem item = true → isReplay calls item = false →
    item ∈ inputItems request

/-- A call of a response goes to the wire with the emitted name, under an id that is that of the
item and of a result, and with arguments that are those of the item, or wrap its input. -/
def OnWire (body : Value) (emitted : String) (item : Value) : Prop :=
  ∃ call ∈ wireCalls (wireMessages body), ∃ callId ∈ wireResults (wireMessages body),
    ∃ function arguments,
      item.get "call_id" = some (.string callId) ∧ call.get "id" = some (.string callId) ∧
      call.get "function" = some function ∧ function.get "name" = some (.string emitted) ∧
      function.get "arguments" = some (.string arguments) ∧
      if isFreeformItem item then item.get "input" = some (.string (freeformInput serde arguments))
      else item.get "arguments" = some (.string arguments)

/-- The indices whose fragments carry an id and a tool name. -/
def namedIndices (fragments : List Value) : List ℕ :=
  (receivedIndices fragments).filter fun i => isNamed (fragmentsAt i fragments)

/-- Each call of the response is that of an index, and every request that follows is accepted and
has the calls that it replays on the wire as the fragments of their indices named them. -/
def ReplayClosed (request : Value) (fragments : List Value) (es : List Event) : Prop :=
  ∃ itemAt : ℕ → Value,
    ((namedIndices fragments).map itemAt).Perm ((responseItems es).filter isCallItem) ∧
      ∀ next items limits,
        Follows serde request ((responseItems es).filter isCallItem) next items limits →
          ∃ translated, translate serde (withInput items next) limits = .ok translated ∧
            ∀ i ∈ namedIndices fragments, itemAt i ∈ items →
              (∃ result ∈ items, isResultOf (itemAt i) result = true) →
                ∀ emitted ∈ firstName (fragmentsAt i fragments),
                  OnWire serde translated.body emitted (itemAt i)

/-- The calls on the wire have names of the wire. -/
theorem translate_wireCalls {request : Value} {translated : TranslatedRequest}
    (h : translate serde request limits = .ok translated) {call function : Value} {name : String}
    (hcall : call ∈ wireCalls (wireMessages translated.body))
    (hfunction : call.get "function" = some function)
    (hname : function.get "name" = some (.string name)) : isWireName name = true := by
  obtain ⟨object, tools, names, messages, -, -, hrun, hmessages, -⟩ := translate_eq_ok serde h
  obtain ⟨calls, hcalls, hforall⟩ := translateItems_calls serde hrun
  have hinstructions : wireCalls (instructionMessages object) = [] := by
    unfold instructionMessages
    cases nonEmptyStr (Map.get object "instructions") with
    | none => rfl
    | some text => simp [wireCalls, callsOf, roleOf, Value.obj, Map.ofEntries]
  have hmem : call ∈ calls := by
    rw [hmessages, hcalls, hinstructions] at hcall
    exact hcall
  obtain ⟨item, -, name', encoded, -, hencode, callId, -, rfl⟩ := exists_of_forall₂ hforall.flip hmem
  obtain ⟨-, function', hfunction', hencoded, -⟩ :=
    wireCall_reads serde (isFreeformItem item) (rawArguments item) callId encoded
  cases hfunction'.symm.trans hfunction
  cases hencoded.symm.trans hname
  exact (encodeFunctionName_eq_ok.mp hencode).2

/-- What Muse gets of a call that was emitted under a name. -/
structure Emitted (table : ToolNames) (emitted : String) (item : Value) : Prop where
  call : isCallItem item = true
  callId : ∃ callId, callId ≠ "" ∧ item.get "call_id" = some (.string callId)
  name : item.get "name" = some (.string (table.decode emitted))
  /-- A function that was called without arguments is called with an empty object. -/
  arguments : isFreeformItem item = false →
    ∃ arguments, arguments ≠ "" ∧ item.get "arguments" = some (.string arguments)
  input : isFreeformItem item = true → ∃ input, item.get "input" = some (.string input)

namespace Emitted

variable {table : ToolNames} {emitted : String} {item : Value}

/-- The call that replays a call is the one that was emitted. -/
theorem wireCall_name (h : Emitted table emitted item) (htable : table.Faithful)
    (hwire : isWireName emitted = true) {name encoded : String} {call : Value}
    (hcall : IsWireCall serde item name encoded call) :
    encoded = emitted ∧ Knows table name encoded := by
  obtain ⟨hname, hencode, -⟩ := hcall
  have hdecoded : table.decode emitted = name := by
    rw [h.name] at hname
    exact (Option.filter_eq_some_iff.mp hname).1 |> Option.some.inj
  have hknows := htable.knows hwire
  rw [hdecoded] at hknows
  cases hknows.1.symm.trans hencode
  exact ⟨rfl, hknows⟩

/-- A call that was emitted under a name of the wire can be translated again. -/
theorem welcome (h : Emitted table emitted item) (htable : table.Faithful)
    (hwire : isWireName emitted = true) (limits : ModelLimits) :
    Welcome serde table limits item := by
  obtain ⟨callId, hne, hid⟩ := h.callId
  have hknows := htable.knows hwire
  have hname : table.decode emitted ≠ "" := by
    intro hempty
    obtain ⟨hencoded, hwire'⟩ := encodeFunctionName_eq_ok.mp hknows.1
    rw [hempty] at hencoded
    rw [hencoded] at hwire'
    exact absurd hwire' (by decide)
  refine .inl ⟨h.call, table.decode emitted, emitted, _, ⟨?_, hknows.1, callId, ?_, rfl⟩, hknows⟩
  · rw [h.name]
    simp [nonEmptyStr, hname]
  · rw [hid]
    simp [nonEmptyStr, hne]

/-- A call on the wire that replays a call has its arguments, or wraps its input. -/
theorem wireArguments_reads (h : Emitted table emitted item) (hserde : serde.Lawful) :
    if isFreeformItem item then item.get "input" = some (.string (freeformInput serde
      (wireArguments serde (isFreeformItem item) (rawArguments item))))
    else item.get "arguments" = some (.string
      (wireArguments serde (isFreeformItem item) (rawArguments item))) := by
  cases hfreeform : isFreeformItem item with
  | false =>
    obtain ⟨arguments, hne, harguments⟩ := h.arguments hfreeform
    simp [rawArguments, hfreeform, harguments, wireArguments, hne]
  | true =>
    obtain ⟨input, hinput⟩ := h.input hfreeform
    have hread : serde.fromStr (serde.toString (.obj [("input", .string input)])) =
        .ok (.obj [("input", .string input)]) :=
      hserde.fromStr_toString _ (.obj (by simp [Plain.string]))
    have hunwrap : freeformInput serde (serde.toString (.obj [("input", .string input)])) =
        input := by
      rw [freeformInput, hread]
      rfl
    simp [rawArguments, hfreeform, hinput, wireArguments, hunwrap]

/-- A call that is replayed with a result is on the wire as it was emitted. -/
theorem onWire (h : Emitted table emitted item) (hserde : serde.Lawful) (htable : table.Faithful)
    (hwire : isWireName emitted = true) {request : Value} {translated : TranslatedRequest}
    (hok : translate serde request limits = .ok translated) (hitem : item ∈ inputItems request)
    {result : Value} (hmem : result ∈ inputItems request) (hresult : isResultOf item result = true) :
    OnWire serde translated.body emitted item := by
  obtain ⟨object, tools, names, messages, -, -, hrun, hmessages, -⟩ := translate_eq_ok serde hok
  obtain ⟨calls, hcalls, hforall⟩ := translateItems_calls serde hrun
  obtain ⟨call, hcall, name, encoded, hwireCall⟩ :=
    exists_of_forall₂ hforall (List.mem_filter.mpr ⟨hitem, h.call⟩)
  obtain ⟨rfl, -⟩ := h.wireCall_name serde htable hwire hwireCall
  obtain ⟨-, -, callId, hid, rfl⟩ := hwireCall
  obtain ⟨callId', hne, hid'⟩ := h.callId
  have hsame : callId' = callId := by
    rw [hid'] at hid
    exact (Option.filter_eq_some_iff.mp hid).1 |> Option.some.inj
  subst hsame
  obtain ⟨hresultItem, hresultId⟩ := Bool.and_eq_true_iff.mp hresult
  have hresults : callId' ∈ wireResults messages := by
    refine translateItems_results serde hrun hmem hresultItem ?_
    rw [of_decide_eq_true hresultId]
    exact hid
  obtain ⟨hread, function, hfunction, hname, harguments⟩ :=
    wireCall_reads serde (isFreeformItem item) (rawArguments item) callId' encoded
  refine ⟨_, ?_, callId', ?_, function, _, hid', hread, hfunction, hname, harguments,
    h.wireArguments_reads serde hserde⟩
  · rw [hmessages, hcalls]
    exact List.mem_append_right _ hcall
  · rw [hmessages]
    exact hresults

end Emitted

/-- What Muse gets of the call at an index. -/
theorem Synthesis.Tracks.emitted {st : Synthesis} {fs : List Value} (h : st.Tracks fs) {i : ℕ}
    (hi : isNamed (fragmentsAt i fs) = true) {emitted : String}
    (hemitted : emitted ∈ firstName (fragmentsAt i fs)) :
    Emitted st.tools emitted (Synthesis.doneItem serde (st.callAt i)) := by
  have hgathered := h.call i
  obtain ⟨-, htype, hcallId, hname, harguments⟩ := Synthesis.doneItem_reads serde (st.callAt i)
  obtain ⟨id, hid⟩ : ∃ id, firstId (fragmentsAt i fs) = some id :=
    Option.isSome_iff_exists.mp (Bool.and_eq_true_iff.mp hi).1
  have hfreeform : isFreeformItem (Synthesis.doneItem serde (st.callAt i)) =
      (st.callAt i).freeform := by
    rw [isFreeformItem, htype]
    cases (st.callAt i).freeform <;> rfl
  refine ⟨Synthesis.doneItem_isCallItem serde _, ⟨_, ?_, hcallId⟩, ?_, fun hnot => ?_, fun hyes => ?_⟩
  · rw [hgathered.callId, hid]
    exact sanitizeIdentifier_ne_empty id
  · rw [hname, hgathered.name, Option.mem_def.mp hemitted]
    rfl
  · rw [hfreeform] at hnot
    refine ⟨_, ?_, harguments hnot⟩
    rw [callText, if_neg (by simp [hnot])]
    split_ifs with hempty
    · decide
    · exact hempty
  · rw [hfreeform] at hyes
    exact ⟨_, by simp [Synthesis.doneItem, PendingCall.item, hyes, Value.obj, Map.ofEntries]; rfl⟩

/-- The indices of the calls that were announced are the named ones. -/
theorem Synthesis.Tracks.announced_perm {st : Synthesis} {fs : List Value} (h : st.Tracks fs) :
    (namedIndices fs).Perm st.announcedIndices := by
  have hnamed : (namedIndices fs).Nodup := (List.nodup_dedup _).filter _
  have hannounced : st.announcedIndices.Nodup := List.nodup_range.filter _
  refine (List.perm_ext_iff_of_nodup hnamed hannounced).mpr fun i => ?_
  rw [namedIndices, List.mem_filter, Synthesis.mem_announcedIndices h]
  constructor
  · exact fun hi => hi.2
  · exact fun hi => ⟨Synthesis.announcedIndices_subset h
      ((Synthesis.mem_announcedIndices h i).mpr hi), hi⟩

/-- What follows on a request with the calls of its response is welcome, when the calls were emitted
under names of the wire. -/
theorem Follows.welcome {request : Value} {first : ModelLimits} {translated : TranslatedRequest}
    (hok : translate serde request first = .ok translated) (htable : translated.tools.Faithful)
    {calls : List Value}
    (hcalls : ∀ call ∈ calls, ∃ emitted, isWireName emitted = true ∧
      Emitted translated.tools emitted call)
    {next : Map Value} {items : List Value} (h : Follows serde request calls next items limits) :
    ∀ item ∈ items, Welcome serde translated.tools limits item := by
  intro item hitem
  obtain ⟨object, tools, names, messages, -, -, hrun, -⟩ := translate_eq_ok serde hok
  cases hreplay : isReplay calls item with
  | true =>
    rcases Bool.or_eq_true_iff.mp hreplay with hcall | hresult
    · obtain ⟨emitted, hwire, hemitted⟩ := hcalls item (of_decide_eq_true hcall)
      exact hemitted.welcome serde htable hwire limits
    · -- A result needs no more than the id, which the call has.
      obtain ⟨call, hcall, hresult⟩ := List.any_eq_true.mp hresult
      obtain ⟨hresultItem, hresultId⟩ := Bool.and_eq_true_iff.mp hresult
      obtain ⟨emitted, -, hemitted⟩ := hcalls call hcall
      obtain ⟨callId, hne, hid⟩ := hemitted.callId
      have hread : nonEmptyStr (item.get "call_id") = some callId := by
        rw [of_decide_eq_true hresultId, hid]
        simp [nonEmptyStr, hne]
      obtain ⟨message, -, hstep⟩ := translateItem_result serde hresultItem hread limits ([], {})
      refine .inr ⟨?_, _, _, hstep⟩
      have htype : itemType item = some "function_call_output" ∨
          itemType item = some "custom_tool_call_output" := by
        simpa [isResultItem] using hresultItem
      rcases htype with htype | htype
      · simp [isCallItem, htype]
      · simp [isCallItem, htype]
  | false =>
    cases hcall : isCallItem item with
    | true =>
      obtain ⟨name, encoded, call, hwire, hknows⟩ :=
        translateItems_known serde hrun (h.calls item hitem hcall hreplay) hcall
      exact .inl ⟨hcall, name, encoded, call, hwire, hknows⟩
    | false =>
      obtain ⟨-, _, _, -, acc, hrest⟩ := (translate_withInput_accepts serde).mp h.accepted
      -- An item that was there before was accepted then.
      have hkept : item ∈ items.filter fun item => !isReplay calls item :=
        List.mem_filter.mpr ⟨hitem, by simp [hreplay]⟩
      obtain ⟨acc₁, acc₂, hstep⟩ := foldlM_mem hrest hkept
      exact .inr ⟨hcall, acc₁, acc₂, hstep⟩

/-- Such a request is accepted. -/
theorem Follows.accepts {request : Value} {first : ModelLimits} {translated : TranslatedRequest}
    (hok : translate serde request first = .ok translated) (htable : translated.tools.Faithful)
    {calls : List Value}
    (hcalls : ∀ call ∈ calls, ∃ emitted, isWireName emitted = true ∧
      Emitted translated.tools emitted call)
    {next : Map Value} {items : List Value} (h : Follows serde request calls next items limits) :
    ∃ translated', translate serde (withInput items next) limits = .ok translated' := by
  obtain ⟨hready, tools', names', htools', -⟩ := (translate_withInput_accepts serde).mp h.accepted
  obtain ⟨object, tools, names, messages, rfl, htools, hrun, -⟩ := translate_eq_ok serde hok
  refine (translate_withInput_accepts serde).mpr ⟨hready, tools', names', htools', ?_⟩
  -- The same tools give the same names, and the input of the first request only adds to them.
  have hnames : names' = names := by
    rw [h.tools, Value.get_object, htools] at htools'
    cases htools'
    rfl
  refine translateItems_ok serde (h.welcome serde hok htable hcalls) ?_
  rw [hnames]
  exact (translateItems_grows serde hrun).agrees

/-- The table of a request is faithful. -/
theorem translate_faithful {request : Value} {translated : TranslatedRequest}
    (h : translate serde request limits = .ok translated) : translated.tools.Faithful := by
  obtain ⟨object, tools, names, messages, -, htools, hrun, -⟩ := translate_eq_ok serde h
  exact (translateItems_grows serde hrun).faithful (translateTools_faithful htools)

/-- A result of a call. -/
def resultItem (callId output : Value) : Value :=
  .obj [("type", .string "function_call_output"), ("call_id", callId), ("output", output)]

/-- The result for an id is one of the call with that id. -/
theorem isResultOf_resultItem {call callId : Value} (h : call.get "call_id" = some callId)
    (output : Value) : isResultOf call (resultItem callId output) = true := by
  simp [isResultOf, isResultItem, itemType, resultItem, h, Value.obj, Map.ofEntries]

/-- A request that replays nothing but a call and a result of it. -/
theorem follows_resultItem {request : Map Value} {translated : TranslatedRequest}
    (hok : translate serde (.object request) limits = .ok translated) {calls : List Value}
    {call callId : Value} (hcall : call ∈ calls) (hid : call.get "call_id" = some callId)
    (output : Value) :
    Follows serde (.object request) calls request [call, resultItem callId output] limits := by
  have hreplay : ∀ item ∈ [call, resultItem callId output], isReplay calls item = true := by
    intro item hitem
    simp only [List.mem_cons, List.not_mem_nil, or_false] at hitem
    rcases hitem with rfl | rfl
    · simp [isReplay, hcall]
    · refine Bool.or_eq_true_iff.mpr (.inr (List.any_eq_true.mpr ⟨call, hcall, ?_⟩))
      exact isResultOf_resultItem hid output
  refine ⟨rfl, ?_, fun item hitem _ hnot => ?_⟩
  · have hnone : [call, resultItem callId output].filter (fun item => !isReplay calls item) = [] :=
      List.filter_eq_nil_iff.mpr fun item hitem => by simp [hreplay item hitem]
    rw [hnone]
    obtain ⟨hready, tools, names, htools, -⟩ := (translate_accepts serde).mp ⟨translated, hok⟩
    exact (translate_withInput_accepts serde).mpr ⟨hready, tools, names, htools, _, rfl⟩
  · rw [hreplay item hitem] at hnot
    cases hnot

/-- The calls of a response can be replayed exactly when they were emitted under names of the
wire. -/
theorem Synthesis.Tracks.replayed_iff (hserde : serde.Lawful) {request : Value}
    {translated : TranslatedRequest} (hok : translate serde request limits = .ok translated)
    {st : Synthesis} {fs : List Value} (h : st.Tracks fs) (htools : st.tools = translated.tools)
    {es : List Event} (hitems : (responseItems es).filter isCallItem =
      (st.calls.filter (·.announced)).map (Synthesis.doneItem serde)) :
    ReplayClosed serde request fs es ↔ ∀ i ∈ namedIndices fs,
      ∀ emitted ∈ firstName (fragmentsAt i fs), isWireName emitted = true := by
  have htable := translate_faithful serde hok
  have hemitted {i : ℕ} (hi : i ∈ namedIndices fs) {emitted : String}
      (hname : emitted ∈ firstName (fragmentsAt i fs)) :
      Emitted translated.tools emitted (Synthesis.doneItem serde (st.callAt i)) := by
    rw [← htools]
    exact h.emitted serde (List.mem_filter.mp hi).2 hname
  rw [Synthesis.calls_filter_announced, List.map_map] at hitems
  have hperm : ((namedIndices fs).map (Synthesis.doneItem serde ∘ st.callAt)).Perm
      ((responseItems es).filter isCallItem) := by
    rw [hitems]
    exact h.announced_perm.map _
  constructor
  · rintro ⟨itemAt, hperm', hclosed⟩ i hi emitted hname
    -- A request that replays the call alone has it on the wire, and so under a name of the wire.
    have hcall : itemAt i ∈ (responseItems es).filter isCallItem :=
      hperm'.mem_iff.mp (List.mem_map_of_mem hi)
    obtain ⟨callId, hid⟩ : ∃ callId, (itemAt i).get "call_id" = some callId := by
      obtain ⟨j, -, hj⟩ := List.mem_map.mp (hperm.mem_iff.mpr hcall)
      rw [← hj]
      exact ⟨_, (Synthesis.doneItem_reads serde (st.callAt j)).2.2.1⟩
    obtain ⟨object, -, -, -, rfl, -⟩ := translate_eq_ok serde hok
    obtain ⟨translated', hok', hon⟩ := hclosed _ _ _
      (follows_resultItem serde hok hcall hid (.string ""))
    obtain ⟨call, hmem, -, -, function, -, -, -, hfunction, hname', -⟩ :=
      hon i hi List.mem_cons_self
        ⟨_, List.mem_cons_of_mem _ List.mem_cons_self, isResultOf_resultItem hid _⟩ emitted hname
    exact translate_wireCalls serde hok' hmem hfunction hname'
  · intro hwire
    have hcalls : ∀ call ∈ (responseItems es).filter isCallItem, ∃ emitted,
        isWireName emitted = true ∧ Emitted translated.tools emitted call := by
      intro call hcall
      obtain ⟨i, hi, rfl⟩ := List.mem_map.mp (hperm.mem_iff.mpr hcall)
      obtain ⟨emitted, hname⟩ : ∃ emitted, firstName (fragmentsAt i fs) = some emitted :=
        Option.isSome_iff_exists.mp (Bool.and_eq_true_iff.mp (List.mem_filter.mp hi).2).2
      exact ⟨emitted, hwire i hi emitted hname, hemitted hi hname⟩
    refine ⟨Synthesis.doneItem serde ∘ st.callAt, hperm, fun next items limits hfollows => ?_⟩
    obtain ⟨translated', hok'⟩ := hfollows.accepts serde hok htable hcalls
    refine ⟨translated', hok', fun i hi hitem hresult emitted hname => ?_⟩
    obtain ⟨result, hmem, hresult⟩ := hresult
    have hinput : inputItems (withInput items next) = items := by
      simp [inputItems, withInput]
    exact (hemitted hi hname).onWire serde hserde htable (hwire i hi emitted hname) hok'
      (by rwa [hinput]) (by rwa [hinput]) hresult

/-- The calls of a response to an accepted request can be replayed by the requests that follow,
exactly when upstream emitted all of them under names of the wire. -/
theorem responsesEvents_replayed (hserde : serde.Lawful) (request : Value) (limits : ModelLimits)
    (translated : TranslatedRequest) (hok : translate serde request limits = .ok translated)
    (upstream : List Poll) (model requestKey : String)
    (hlast : ∃ kind ∈ ["response.completed", "response.incomplete"],
      (responsesEvents serde upstream model requestKey translated.tools).getLast?.map Event.kind =
        some kind) :
    ReplayClosed serde request (transcript serde upstream).fragments
        (responsesEvents serde upstream model requestKey translated.tools) ↔
      ∀ i ∈ namedIndices (transcript serde upstream).fragments,
        ∀ emitted ∈ firstName (fragmentsAt i (transcript serde upstream).fragments),
          isWireName emitted = true := by
  obtain ⟨st, htracks, htools, hitems, -⟩ :=
    responsesEvents_tracks serde upstream model requestKey translated.tools hlast
  exact htracks.replayed_iff serde hserde hok htools hitems

/-- A request with one tool. -/
def listingRequest : Map Value :=
  Map.ofEntries [("model", .string "glm"),
    ("tools", .array [.obj [("type", .string "function"), ("name", .string "ls")]])]

/-- The name of the tool is one of the wire. -/
theorem responsesEvents_replayed_prompt :
    ∃ translated, translate Compact.serde (.object listingRequest) ⟨true, 1, le_refl 1⟩ =
        .ok translated ∧
      ReplayClosed Compact.serde (.object listingRequest)
        (transcript Compact.serde promptCompletion).fragments
        (responsesEvents Compact.serde promptCompletion "glm" "key" translated.tools) := by
  obtain ⟨translated, hok⟩ : ∃ translated,
      translate Compact.serde (.object listingRequest) ⟨true, 1, le_refl 1⟩ = .ok translated :=
    exists_eq_ok (by decide)
  obtain ⟨hfragments, hlast⟩ := promptCompletion_reads translated.tools
  refine ⟨translated, hok, ?_⟩
  refine (responsesEvents_replayed Compact.serde Compact.lawful _ _ translated hok
    promptCompletion "glm" "key" ⟨_, by decide, hlast⟩).mpr ?_
  rw [hfragments]
  decide

/-- A call of a tool that no request declares, under a name that is not one of the wire. -/
def spacedCompletion : List Poll :=
  [.chunk (toUtf8 ("data: \x7b\"choices\":[\x7b\"delta\":\x7b\"tool_calls\":[\x7b\"id\":\"c\"," ++
      "\"function\":\x7b\"name\":\"l s\"\x7d\x7d]\x7d\x7d]\x7d\n\n")),
    .chunk (toUtf8 "data: [DONE]\n\n")]

/-- The item of that call. -/
def spacedItem : Value :=
  .obj [("id", .string "fc_key_0"), ("type", .string "function_call"),
    ("status", .string "completed"), ("call_id", .string "c"), ("name", .string "l s"),
    ("arguments", .string "\x7b\x7d")]

/-- The response completes with the call, and the request that replays it is refused. -/
theorem responsesEvents_replayed_spaced :
    ∃ translated, translate Compact.serde (.object listingRequest) ⟨true, 1, le_refl 1⟩ =
        .ok translated ∧
      (responsesEvents Compact.serde spacedCompletion "glm" "key" translated.tools).getLast?.map
        Event.kind = some "response.completed" ∧
      ¬ ReplayClosed Compact.serde (.object listingRequest)
        (transcript Compact.serde spacedCompletion).fragments
        (responsesEvents Compact.serde spacedCompletion "glm" "key" translated.tools) := by
  have htranscript : (transcript Compact.serde spacedCompletion).chunks =
        [.obj [("choices", .array [.obj [("delta", .obj [("tool_calls", .array [.obj
          [("id", .string "c"), ("function", .obj [("name", .string "l s")])]])])]])]] ∧
      (transcript Compact.serde spacedCompletion).last = .done ∧
      (transcript Compact.serde spacedCompletion).Addressable := by
    decide +kernel
  obtain ⟨hchunks, hdone, haddressable⟩ := htranscript
  have hok : ∃ body, translate Compact.serde (.object listingRequest) ⟨true, 1, le_refl 1⟩ =
      .ok ⟨body, ⟨[("ls", "ls")], []⟩⟩ := ⟨_, rfl⟩
  obtain ⟨body, hok⟩ := hok
  have hevents : (responsesEvents Compact.serde spacedCompletion "glm" "key"
        ⟨[("ls", "ls")], []⟩).getLast?.map Event.kind = some "response.completed" ∧
      (responseItems (responsesEvents Compact.serde spacedCompletion "glm" "key"
        ⟨[("ls", "ls")], []⟩)).filter isCallItem = [spacedItem] := by
    rw [responsesEvents_eq _ haddressable, Synthesis.replay, hchunks, hdone]
    decide
  obtain ⟨hlast, hitems⟩ := hevents
  refine ⟨_, hok, hlast, ?_⟩
  rintro ⟨itemAt, -, hclosed⟩
  rw [hitems] at hclosed
  obtain ⟨translated', hok', -⟩ := hclosed _ _ _
    (follows_resultItem Compact.serde hok (List.mem_singleton_self spacedItem) rfl (.string ""))
  have hrefused : (translate Compact.serde (withInput [spacedItem, resultItem (.string "c")
      (.string "")] listingRequest) ⟨true, 1, le_refl 1⟩).toOption.isSome = false := by
    decide
  rw [hok'] at hrefused
  cases hrefused

end MuseCodex.Zai
