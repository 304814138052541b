import MuseCodex.Zai.Brackets
import Mathlib.Algebra.Order.BigOperators.Group.List
import Mathlib.Data.List.Dedup

/-!
# Tool calls between the completion and the response

The fragments of the tool calls of a completion arrive interleaved, each with the index of its
call. `CallsDelivered` states that none of the calls is lost or altered on the way to the
response: every index that received a fragment has one item of its own, with the arguments that
arrived for it, and the arguments that were sent as deltas are the same text.

The synthesizer announces a call when its id and its tool name have both arrived, drops what was
never announced, and sends no arguments that arrived before. So the calls are delivered exactly
when the fragments of each of them are `Prompt` (`responsesEvents_calls`). The proof follows the
calls by their fragments: `Gathered` says what is known of a call from the fragments of its index,
and `Tracks` that the state knows this of every index at once.
-/

namespace MuseCodex.Zai

open Text Json

/-! ## Fragments -/

/-- The fragments of tool calls that arrive before the end of a completion. -/
def Transcript.fragments (t : Transcript) : List Value := t.spoken.flatMap chunkFragments

/-- The indices that receive a fragment. -/
def receivedIndices (fragments : List Value) : List ℕ :=
  (fragments.map Synthesis.callIndex).dedup

/-- The fragments for an index. -/
def fragmentsAt (index : ℕ) (fragments : List Value) : List Value :=
  fragments.filter fun fragment => Synthesis.callIndex fragment = index

/-- The first call id that some fragments of a call carry. -/
def firstId (fragments : List Value) : Option String :=
  fragments.findSome? fun fragment => nonEmptyStr (fragment.get "id")

/-- The first tool name that some fragments of a call carry. -/
def firstName (fragments : List Value) : Option String :=
  fragments.findSome? (Synthesis.functionStr "name")

/-- Whether some fragments of a call carry an id and a tool name. -/
def isNamed (fragments : List Value) : Bool :=
  (firstId fragments).isSome && (firstName fragments).isSome

/-- Whether some fragments of a call name a tool that takes freeform input. -/
def isFreeformCall (tools : ToolNames) (fragments : List Value) : Bool :=
  (firstName fragments).any tools.isFreeform

/-- The arguments of some fragments of a call, in the order of their arrival. -/
def argumentsOf (fragments : List Value) : String :=
  String.join (fragments.filterMap (Synthesis.functionStr "arguments"))

/-! ## What the response delivers -/

/-- The items of the response at the end of a stream. -/
def responseItems (es : List Event) : List Value :=
  ((es.getLast?.bind Event.responseOutput).bind Value.asArray).getD []

/-- Whether an item is a tool call. -/
def isCallItem (item : Value) : Bool :=
  itemType item ∈ [some "function_call", some "custom_tool_call"]

/-- The piece of a call's arguments that an event sends for an item. -/
def argumentsDelta (id : Option String) (e : Event) : Option String :=
  if e.kind = "response.function_call_arguments.delta" ∧ e.itemRef = id then
    (e.value.get "delta").bind Value.asStr
  else none

/-- The arguments that some events send for an item, one piece after the other. -/
def sentArguments (id : Option String) (es : List Event) : String :=
  String.join (es.filterMap (argumentsDelta id))

/-- An item delivers the call that some fragments make up. -/
structure Delivers (tools : ToolNames) (fragments : List Value) (es : List Event)
    (item : Value) : Prop where
  type : itemType item =
    some (if isFreeformCall tools fragments then "custom_tool_call" else "function_call")
  callId : ∀ id ∈ firstId fragments, item.get "call_id" = some (.string (sanitizeIdentifier id))
  name : ∀ name ∈ firstName fragments, item.get "name" = some (.string (tools.decode name))
  /-- The arguments of a call that is not freeform and has some. -/
  arguments : isFreeformCall tools fragments = false → argumentsOf fragments ≠ "" →
    item.get "arguments" = some (.string (argumentsOf fragments)) ∧
      sentArguments (idOf item) es = argumentsOf fragments

/-- Each index that received a fragment has an item of its own, and there is no other tool call in
the response. -/
def CallsDelivered (tools : ToolNames) (fragments : List Value) (es : List Event) : Prop :=
  ∃ itemAt : ℕ → Value,
    ((receivedIndices fragments).map itemAt).Perm ((responseItems es).filter isCallItem) ∧
      ∀ i ∈ receivedIndices fragments, Delivers tools (fragmentsAt i fragments) es (itemAt i)

/-- The fragments of a call carry an id and a tool name, and, unless the tool takes freeform
input, no arguments before both have arrived. -/
def Prompt (tools : ToolNames) (fragments : List Value) : Prop :=
  isNamed fragments = true ∧ (isFreeformCall tools fragments = false →
    ∀ before fragment after, fragments = before ++ fragment :: after →
      Synthesis.functionStr "arguments" fragment ≠ none → isNamed (before ++ [fragment]) = true)

/-! ## Fragments of one call -/

/-- A fragment brings the first id only if none came before it. -/
theorem firstId_concat (fs : List Value) (f : Value) :
    firstId (fs ++ [f]) = (firstId fs).or (nonEmptyStr (f.get "id")) := by
  simp [firstId, List.findSome?_append]

/-- A fragment brings the first name only if none came before it. -/
theorem firstName_concat (fs : List Value) (f : Value) :
    firstName (fs ++ [f]) = (firstName fs).or (Synthesis.functionStr "name" f) := by
  simp [firstName, List.findSome?_append]

/-- The arguments of a fragment come after those before it. -/
theorem argumentsOf_concat (fs : List Value) (f : Value) :
    argumentsOf (fs ++ [f]) =
      argumentsOf fs ++ (Synthesis.functionStr "arguments" f).getD "" := by
  rw [argumentsOf, List.filterMap_append, String.join_append, ← argumentsOf]
  cases h : Synthesis.functionStr "arguments" f <;> simp [h]

/-- A call that is named stays so. -/
theorem isNamed_append {fs : List Value} (h : isNamed fs = true) (gs : List Value) :
    isNamed (fs ++ gs) = true := by
  unfold isNamed firstId firstName at h ⊢
  rw [Bool.and_eq_true] at h
  rw [List.findSome?_append, List.findSome?_append]
  simp [Option.isSome_or, h.1, h.2]

/-- The fragments from the one on with which both the id and the tool name of a call have
arrived. -/
def lateFragments (before : List Value) : List Value → List Value
  | [] => []
  | f :: after =>
    if isNamed (before ++ [f]) then f :: after else lateFragments (before ++ [f]) after

/-- A fragment is late if the call is named with it. -/
theorem lateFragments_concat (before fs : List Value) (f : Value) :
    lateFragments before (fs ++ [f]) =
      lateFragments before fs ++ if isNamed (before ++ fs ++ [f]) then [f] else [] := by
  induction fs generalizing before with
  | nil => simp [lateFragments]
  | cons g fs ih =>
    rw [List.cons_append, lateFragments, lateFragments]
    have hassoc : before ++ g :: fs ++ [f] = (before ++ [g]) ++ (fs ++ [f]) := by simp
    split_ifs with hg hf hf
    · rfl
    · rw [hassoc] at hf
      exact absurd (isNamed_append hg _) hf
    · rw [ih, if_pos (by simpa using hf)]
    · rw [ih, if_neg (by simpa using hf)]

/-- The arguments that are sent for a call with some fragments. -/
def lateArguments (tools : ToolNames) (fs : List Value) : String :=
  if isFreeformCall tools fs then "" else argumentsOf (lateFragments [] fs)

/-- No fragment of a call without a name is late. -/
theorem lateFragments_of_not_named {before fs : List Value} (h : isNamed (before ++ fs) = false) :
    lateFragments before fs = [] := by
  induction fs generalizing before with
  | nil => rfl
  | cons f fs ih =>
    have hsplit : before ++ f :: fs = (before ++ [f]) ++ fs := by simp
    rw [hsplit] at h
    have hf : isNamed (before ++ [f]) = false := by
      by_contra hf
      rw [isNamed_append (by simpa using hf) fs] at h
      cases h
    rw [lateFragments, if_neg (by simp [hf]), ih h]

/-- One more fragment sends its arguments when the call is known and is not freeform. -/
theorem lateArguments_concat (tools : ToolNames) (fs : List Value) (f : Value) :
    lateArguments tools (fs ++ [f]) = lateArguments tools fs ++
      if isNamed (fs ++ [f]) && !isFreeformCall tools (fs ++ [f]) then
        (Synthesis.functionStr "arguments" f).getD "" else "" := by
  have hlate : argumentsOf (lateFragments [] (fs ++ [f])) = argumentsOf (lateFragments [] fs) ++
      if isNamed (fs ++ [f]) then (Synthesis.functionStr "arguments" f).getD "" else "" := by
    rw [lateFragments_concat, List.nil_append]
    split_ifs
    · rw [argumentsOf_concat]
    · rw [List.append_nil, String.append_empty]
  unfold lateArguments
  cases hname : firstName fs with
  | some name =>
    -- The tool was known before.
    have hsame : isFreeformCall tools (fs ++ [f]) = isFreeformCall tools fs := by
      simp [isFreeformCall, firstName_concat, hname]
    rw [hsame]
    cases isFreeformCall tools fs <;> simp [hlate]
  | none =>
    -- The tool was not known before, so nothing was sent.
    have hnot : isFreeformCall tools fs = false := by simp [isFreeformCall, hname]
    have hempty : lateFragments [] fs = [] :=
      lateFragments_of_not_named (by simp [isNamed, hname])
    rw [hnot, hlate, hempty]
    cases isFreeformCall tools (fs ++ [f]) <;> simp [argumentsOf]

/-- The arguments of a fragment and of those after it. -/
theorem argumentsOf_cons (f : Value) (fs : List Value) :
    argumentsOf (f :: fs) = (Synthesis.functionStr "arguments" f).getD "" ++ argumentsOf fs := by
  unfold argumentsOf
  cases h : Synthesis.functionStr "arguments" f <;> simp [h]

/-- A text of a fragment is not empty. -/
theorem functionStr_getD (key : String) (f : Value) :
    (Synthesis.functionStr key f).getD "" = "" ↔ Synthesis.functionStr key f = none := by
  constructor
  · intro h
    cases hf : Synthesis.functionStr key f with
    | none => rfl
    | some s =>
      have hne := (Option.filter_eq_some_iff.mp hf).2
      rw [hf, Option.getD_some] at h
      simp [h] at hne
  · intro h
    rw [h, Option.getD_none]

/-- The arguments that arrive too early stand before the others. -/
theorem argumentsOf_eq_append (before fs : List Value) :
    ∃ early, argumentsOf fs = early ++ argumentsOf (lateFragments before fs) := by
  induction fs generalizing before with
  | nil => exact ⟨"", rfl⟩
  | cons f fs ih =>
    rw [lateFragments]
    split_ifs
    · exact ⟨"", String.empty_append.symm⟩
    · obtain ⟨early, hearly⟩ := ih (before ++ [f])
      exact ⟨_, by rw [argumentsOf_cons, hearly, ← String.append_assoc]⟩

/-- Late fragments have no more arguments than all of them. -/
theorem argumentsOf_lateFragments_length_le (before fs : List Value) :
    (argumentsOf (lateFragments before fs)).length ≤ (argumentsOf fs).length := by
  obtain ⟨early, hearly⟩ := argumentsOf_eq_append before fs
  rw [hearly, String.length_append]
  omega

/-- A text that is no longer than the end of a text that it equals is that end. -/
theorem eq_append_iff_of_length_le {x s y : String} (h : x.length ≤ y.length) :
    x = s ++ y ↔ s = "" ∧ x = y := by
  constructor
  · rintro rfl
    rw [String.length_append] at h
    have hs : s = "" := by
      rw [← String.length_eq_zero_iff]
      omega
    rw [hs]
    exact ⟨rfl, String.empty_append⟩
  · rintro ⟨rfl, rfl⟩
    exact String.empty_append.symm

/-- All arguments of a call are sent exactly when none of them arrive too early. -/
theorem argumentsOf_lateFragments_iff (before fs : List Value) :
    argumentsOf (lateFragments before fs) = argumentsOf fs ↔
      ∀ front f after, fs = front ++ f :: after →
        Synthesis.functionStr "arguments" f ≠ none → isNamed (before ++ front ++ [f]) = true := by
  induction fs generalizing before with
  | nil => simp [lateFragments]
  | cons g fs ih =>
    rw [lateFragments]
    by_cases hg : isNamed (before ++ [g])
    · -- Once the call has its name, every fragment comes after it.
      rw [if_pos hg]
      refine ⟨fun _ front f after heq _ => ?_, fun _ => rfl⟩
      cases front with
      | nil =>
        cases heq
        rwa [List.append_nil]
      | cons g' front =>
        cases heq
        have hsplit : before ++ g :: front ++ [f] = (before ++ [g]) ++ (front ++ [f]) := by simp
        rw [hsplit]
        exact isNamed_append hg _
    · -- This fragment comes too early, so its arguments are lost unless it has none.
      rw [if_neg hg, argumentsOf_cons,
        eq_append_iff_of_length_le (argumentsOf_lateFragments_length_le _ _), functionStr_getD, ih]
      constructor
      · rintro ⟨hnone, hrest⟩ front f after heq hf
        cases front with
        | nil =>
          cases heq
          exact absurd hnone hf
        | cons g' front =>
          cases heq
          simpa using hrest front f after rfl hf
      · intro hall
        refine ⟨?_, fun front f after heq hf => ?_⟩
        · by_contra hne
          exact hg (by simpa using hall [] g fs rfl hne)
        · have := hall (g :: front) f after (by rw [heq]; rfl) hf
          simpa using this

/-- The number of characters that are due to be sent for a call with some fragments. -/
def dueLength (tools : ToolNames) (fs : List Value) : ℕ :=
  if isFreeformCall tools fs then 0 else (argumentsOf fs).length

/-- No more is sent than is due. -/
theorem lateArguments_length_le (tools : ToolNames) (fs : List Value) :
    (lateArguments tools fs).length ≤ dueLength tools fs := by
  unfold lateArguments dueLength
  split_ifs
  · exact le_refl _
  · exact argumentsOf_lateFragments_length_le [] fs

/-- Less is sent than is due, unless all arguments are sent. -/
theorem lateArguments_length_lt {tools : ToolNames} {fs : List Value}
    (h : isFreeformCall tools fs = false) (hne : lateArguments tools fs ≠ argumentsOf fs) :
    (lateArguments tools fs).length < dueLength tools fs := by
  obtain ⟨early, hearly⟩ := argumentsOf_eq_append [] fs
  rw [lateArguments, if_neg (by simp [h])] at hne ⊢
  have hpos : early.length ≠ 0 := by
    intro hzero
    rw [hearly, String.length_eq_zero_iff.mp hzero, String.empty_append] at hne
    exact hne rfl
  rw [dueLength, if_neg (by simp [h]), hearly, String.length_append]
  omega

/-- An item that delivers a call sends what is due for it. -/
theorem Delivers.dueLength_le {tools : ToolNames} {fs : List Value} {es : List Event}
    {item : Value} (h : Delivers tools fs es item) :
    dueLength tools fs ≤ (sentArguments (idOf item) es).length := by
  cases hfreeform : isFreeformCall tools fs with
  | true =>
    rw [dueLength, if_pos hfreeform]
    exact Nat.zero_le _
  | false =>
    rw [dueLength, if_neg (by simp [hfreeform])]
    by_cases hempty : argumentsOf fs = ""
    · rw [hempty]
      exact Nat.zero_le _
    · rw [(h.arguments hfreeform hempty).2]

/-! ## What is known of a call -/

/-- What is known of a call after some fragments for its index. -/
structure Gathered (tools : ToolNames) (fs : List Value) (entry : PendingCall) : Prop where
  callId : entry.callId = ((firstId fs).map sanitizeIdentifier).getD ""
  encodedName : entry.encodedName = (firstName fs).getD ""
  name : entry.name = ((firstName fs).map tools.decode).getD ""
  freeform : entry.freeform = isFreeformCall tools fs
  arguments : entry.arguments = argumentsOf fs
  announced : entry.announced = isNamed fs

/-- Of no fragments there is the empty call. -/
theorem gathered_nil (tools : ToolNames) : Gathered tools [] {} :=
  ⟨rfl, rfl, rfl, rfl, rfl, rfl⟩

namespace PendingCall

/-- The call with the id of a fragment, unless it has one. -/
def identify (f : Value) (entry : PendingCall) : PendingCall :=
  match nonEmptyStr (f.get "id") with
  | some callId =>
    if entry.callId = "" then { entry with callId := sanitizeIdentifier callId } else entry
  | none => entry

/-- The call with the tool name of a fragment, unless it has one. -/
def rename (tools : ToolNames) (f : Value) (entry : PendingCall) : PendingCall :=
  match Synthesis.functionStr "name" f with
  | some name =>
    if entry.encodedName = "" then
      { entry with encodedName := name, name := tools.decode name, freeform := tools.isFreeform name }
    else entry
  | none => entry

/-- The call, announced when its id and its tool name are known. -/
def announce (entry : PendingCall) : PendingCall :=
  { entry with announced := entry.announced || (entry.encodedName ≠ "" && entry.callId ≠ "") }

/-- The call with the arguments of a fragment. -/
def extend (f : Value) (entry : PendingCall) : PendingCall :=
  { entry with arguments := entry.arguments ++ (Synthesis.functionStr "arguments" f).getD "" }

/-- The call after a fragment for it. -/
def receive (tools : ToolNames) (f : Value) (entry : PendingCall) : PendingCall :=
  ((entry.identify f).rename tools f).announce.extend f

/-- The item of a call keeps its id when the call takes its own. -/
theorem identify_id (f : Value) (entry : PendingCall) : (entry.identify f).id = entry.id := by
  unfold identify
  split
  · split_ifs <;> rfl
  · rfl

/-- The item of a call keeps its id when the call takes its name. -/
theorem rename_id (tools : ToolNames) (f : Value) (entry : PendingCall) :
    (entry.rename tools f).id = entry.id := by
  unfold rename
  split
  · split_ifs <;> rfl
  · rfl

/-- The item of a call keeps its id through a fragment. -/
theorem receive_id (tools : ToolNames) (f : Value) (entry : PendingCall) :
    (entry.receive tools f).id = entry.id :=
  (rename_id tools f _).trans (identify_id f entry)

end PendingCall

/-- An identifier is never empty: without characters that are kept it is a default. -/
theorem sanitizeIdentifier_ne_empty (value : String) : sanitizeIdentifier value ≠ "" := by
  unfold sanitizeIdentifier
  dsimp only
  split_ifs with h
  · decide
  · intro hempty
    apply h
    have := congrArg String.toList hempty
    rwa [String.toList_ofList] at this

/-- A text that a fragment brings is not empty. -/
theorem functionStr_ne_empty {key : String} {f : Value} {s : String}
    (h : Synthesis.functionStr key f = some s) : s ≠ "" := by
  intro hs
  have := (functionStr_getD key f).mp (by rw [h, hs]; rfl)
  rw [h] at this
  cases this

/-- The id of a call after one more fragment. -/
theorem Gathered.identify_eq {tools : ToolNames} {fs : List Value} {entry : PendingCall}
    (h : Gathered tools fs entry) (f : Value) : entry.identify f =
      { entry with callId := ((firstId (fs ++ [f])).map sanitizeIdentifier).getD "" } := by
  have hcallId := h.callId
  unfold PendingCall.identify
  rw [firstId_concat]
  cases hid : firstId fs with
  | some id =>
    rw [hid, Option.map_some, Option.getD_some] at hcallId
    have hne : entry.callId ≠ "" := by
      rw [hcallId]
      exact sanitizeIdentifier_ne_empty id
    rw [Option.some_or, Option.map_some, Option.getD_some, ← hcallId]
    split
    · rw [if_neg hne]
    · rfl
  | none =>
    rw [hid, Option.map_none, Option.getD_none] at hcallId
    rw [Option.none_or]
    split
    · rename_i callId hnew
      rw [if_pos hcallId, hnew]
      rfl
    · rename_i hnew
      rw [hnew, Option.map_none, Option.getD_none, ← hcallId]

/-- The tool name of a call after one more fragment. -/
theorem Gathered.rename_eq {tools : ToolNames} {fs : List Value} {entry : PendingCall}
    (h : Gathered tools fs entry) (f : Value) (callId : String) :
    ({ entry with callId } : PendingCall).rename tools f = { entry with
      callId
      encodedName := (firstName (fs ++ [f])).getD ""
      name := ((firstName (fs ++ [f])).map tools.decode).getD ""
      freeform := isFreeformCall tools (fs ++ [f]) } := by
  have hencoded := h.encodedName
  have hname := h.name
  have hfreeform := h.freeform
  unfold isFreeformCall at hfreeform
  unfold PendingCall.rename isFreeformCall
  rw [firstName_concat]
  cases hfirst : firstName fs with
  | some name =>
    rw [hfirst] at hencoded hname hfreeform
    have hne : entry.encodedName ≠ "" := by
      obtain ⟨g, -, hg⟩ := List.exists_of_findSome?_eq_some hfirst
      rw [hencoded, Option.getD_some]
      exact functionStr_ne_empty hg
    rw [Option.some_or, ← hencoded, ← hname, ← hfreeform]
    split
    · rw [if_neg hne]
    · rfl
  | none =>
    rw [hfirst] at hencoded hname hfreeform
    rw [Option.none_or]
    split
    · rename_i name hnew
      rw [if_pos (show entry.encodedName = "" from hencoded), hnew]
      rfl
    · rename_i hnew
      rw [hnew, ← hencoded, ← hname, ← hfreeform]

/-- What is known of a call after one more fragment. -/
theorem Gathered.receive {tools : ToolNames} {fs : List Value} {entry : PendingCall}
    (h : Gathered tools fs entry) (f : Value) :
    Gathered tools (fs ++ [f]) (entry.receive tools f) := by
  unfold PendingCall.receive
  rw [h.identify_eq f, h.rename_eq f]
  refine ⟨rfl, rfl, rfl, rfl, ?_, ?_⟩
  · rw [argumentsOf_concat, ← h.arguments]
    rfl
  · have hid : (((firstId (fs ++ [f])).map sanitizeIdentifier).getD "" ≠ "") ↔
        (firstId (fs ++ [f])).isSome := by
      cases firstId (fs ++ [f]) with
      | none => simp
      | some id => simpa using sanitizeIdentifier_ne_empty id
    have hname : ((firstName (fs ++ [f])).getD "" ≠ "") ↔ (firstName (fs ++ [f])).isSome := by
      cases hfirst : firstName (fs ++ [f]) with
      | none => simp
      | some name =>
        obtain ⟨g, -, hg⟩ := List.exists_of_findSome?_eq_some hfirst
        simpa using functionStr_ne_empty hg
    show (entry.announced || (decide ((firstName (fs ++ [f])).getD "" ≠ "") &&
      decide (((firstId (fs ++ [f])).map sanitizeIdentifier).getD "" ≠ ""))) = isNamed (fs ++ [f])
    rw [h.announced]
    -- Once known, a call stays known.
    cases hnamed : isNamed fs with
    | true => rw [Bool.true_or, isNamed_append hnamed]
    | false => simp only [hid, hname, Bool.false_or, isNamed, Bool.decide_eq_true, Bool.and_comm]

/-! ## What is sent of a call -/

/-- The arguments of an event come after those sent before it. -/
theorem sentArguments_concat (id : Option String) (es : List Event) (e : Event) :
    sentArguments id (es ++ [e]) = sentArguments id es ++ (argumentsDelta id e).getD "" := by
  unfold sentArguments
  rw [List.filterMap_append, String.join_append]
  cases h : argumentsDelta id e <;> simp [h]

/-- An event of another kind sends no arguments. -/
theorem argumentsDelta_of_ne {kind : String} (h : kind ≠ "response.function_call_arguments.delta")
    (id : Option String) (n : ℕ) (body : List (String × Value)) :
    argumentsDelta id (.of n kind body) = none := by
  unfold argumentsDelta
  rw [if_neg fun hkind => h hkind.1]

/-- The event that sends a piece of a call's arguments. -/
theorem argumentsDelta_of (id id' : String) (n i : ℕ) (fragment : String) :
    argumentsDelta (some id) (.of n "response.function_call_arguments.delta"
      [("item_id", .string id'), ("output_index", .ofNat i), ("delta", .string fragment)]) =
      if id = id' then some fragment else none := by
  by_cases h : id = id'
  · simp [argumentsDelta, Event.of, Event.itemRef, Map.ofEntries, h]
  · simp [argumentsDelta, Event.of, Event.itemRef, Map.ofEntries, h, Ne.symm h]

/-- No event updates an item that was not added. -/
theorem Ledger.itemRef_ne {es : List Event} (h : Ledger es) {id : String}
    (hid : some id ∉ Bracketing.opened (marks es)) {e : Event} (he : e ∈ es)
    (hadded : e.isAdded = false) (hdone : e.isDone = false) (hupdate : e.isUpdate = true) :
    e.itemRef ≠ some id := by
  intro href
  obtain ⟨before, after, rfl⟩ := List.append_of_mem he
  have hmark : e.mark = .uses (some id) := by
    simp [Event.mark, hadded, hdone, hupdate, href]
  have hadmits := h.brackets.admits (show marks (before ++ e :: after) =
    marks before ++ e.mark :: marks after by simp [marks])
  rw [hmark] at hadmits
  have hopened : some id ∈ Bracketing.opened (marks before) :=
    (Bracketing.mem_live.mp hadmits).1
  apply hid
  rw [show marks (before ++ e :: after) = marks before ++ marks (e :: after) by simp [marks],
    Bracketing.opened_append]
  exact List.mem_append_left _ hopened

/-- Nothing is sent for an item that was not added. -/
theorem Ledger.sentArguments_eq {es : List Event} (h : Ledger es) {id : String}
    (hid : some id ∉ Bracketing.opened (marks es)) : sentArguments (some id) es = "" := by
  have hnone : es.filterMap (argumentsDelta (some id)) = [] := by
    rw [List.filterMap_eq_nil_iff]
    intro e he
    unfold argumentsDelta
    rw [if_neg]
    rintro ⟨hkind, href⟩
    have hupdate : e.isUpdate = true := by
      rw [Event.isUpdate, hkind]
      decide
    exact h.itemRef_ne hid he (by simp [Event.isAdded, hkind]) (by simp [Event.isDone, hkind])
      hupdate href
  rw [sentArguments, hnone]
  rfl

namespace Synthesis

/-- A step that changes no other call than the one at an index, and sends a piece of its
arguments. -/
structure Edits (index : ℕ) (entry : PendingCall) (sent : String) (st st' : Synthesis) :
    Prop where
  this : st'.callAt index = entry
  other : ∀ i, i ≠ index → st'.callAt i = st.callAt i
  length : st'.calls.length = st.calls.length
  sent : ∀ id, sentArguments (some id) st'.pending =
    sentArguments (some id) st.pending ++ if id = entry.id then sent else ""
  output : st'.output = st.output
  tools : st'.tools = st.tools

/-- Doing nothing edits a call into itself. -/
theorem edits_refl (index : ℕ) (st : Synthesis) : Edits index (st.callAt index) "" st st :=
  ⟨rfl, fun _ _ => rfl, rfl, fun id => by rw [ite_self, String.append_empty], rfl, rfl⟩

/-- Setting a call edits it, and sends nothing. -/
theorem edits_setCall {index : ℕ} {st : Synthesis} (hi : index < st.calls.length)
    (entry : PendingCall) : Edits index entry "" st (st.setCall index entry) where
  this := callAt_setCall hi entry
  other i h := callAt_setCall_of_ne h entry st
  length := calls_setCall_length index entry st
  sent id := by
    rw [ite_self, String.append_empty]
    rfl
  output := rfl
  tools := rfl

namespace Edits

variable {index : ℕ} {entry entry' : PendingCall} {sent sent' : String} {st st' st'' : Synthesis}

/-- Two edits of one call are one, with what both send. -/
theorem trans (h : Edits index entry sent st st') (h' : Edits index entry' sent' st' st'')
    (hid : entry'.id = entry.id) : Edits index entry' (sent ++ sent') st st'' where
  this := h'.this
  other i hi := (h'.other i hi).trans (h.other i hi)
  length := h'.length.trans h.length
  sent id := by
    rw [h'.sent, h.sent, hid, String.append_assoc]
    split_ifs <;> rfl
  output := h'.output.trans h.output
  tools := h'.tools.trans h.tools

/-- An event that sends no arguments. -/
theorem emit (h : Edits index entry sent st st') {kind : String}
    (hkind : kind ≠ "response.function_call_arguments.delta") (body : List (String × Value)) :
    Edits index entry sent st (st'.emit kind body) :=
  { h with
    sent := fun id => by
      rw [Synthesis.emit, sentArguments_concat, argumentsDelta_of_ne hkind, h.sent,
        Option.getD_none, String.append_empty] }

end Edits

/-- Taking the id of a fragment edits its call only. -/
theorem identifyCall_edits {index : ℕ} {st : Synthesis} (hi : index < st.calls.length)
    (f : Value) :
    Edits index ((st.callAt index).identify f) "" st (st.identifyCall index f) := by
  unfold identifyCall PendingCall.identify
  cases nonEmptyStr (f.get "id") with
  | none => exact edits_refl index st
  | some callId =>
    dsimp only
    split_ifs
    · exact edits_setCall hi _
    · exact edits_refl index st

/-- Taking the name of a fragment edits its call only. -/
theorem nameCall_edits {index : ℕ} {st : Synthesis} (hi : index < st.calls.length) (f : Value) :
    Edits index ((st.callAt index).rename st.tools f) "" st (st.nameCall index f) := by
  unfold nameCall PendingCall.rename
  cases functionStr "name" f with
  | none => exact edits_refl index st
  | some name =>
    dsimp only
    split_ifs
    · exact edits_setCall hi _
    · exact edits_refl index st

/-- The announcement edits one call only, and sends none of its arguments. -/
theorem announceCall_edits {index : ℕ} {st : Synthesis} (hi : index < st.calls.length) :
    Edits index (st.callAt index).announce "" st (st.announceCall index) := by
  unfold announceCall PendingCall.announce
  dsimp only
  split_ifs with h
  · simp only [Bool.and_eq_true, Bool.not_eq_true', decide_eq_true_eq] at h
    have hset := edits_setCall hi { st.callAt index with announced := true }
    have hknown : ((st.callAt index).announced ||
        (decide ((st.callAt index).encodedName ≠ "") &&
          decide ((st.callAt index).callId ≠ ""))) = true := by
      simp [h]
    rw [hknown]
    exact hset.emit (show "response.output_item.added" ≠ _ by decide) _
  · have hsame : ((st.callAt index).announced ||
        (decide ((st.callAt index).encodedName ≠ "") &&
          decide ((st.callAt index).callId ≠ ""))) = (st.callAt index).announced := by
      cases hannounced : (st.callAt index).announced with
      | true => rfl
      | false => simpa [hannounced] using h
    rw [hsame]
    exact edits_refl index st

/-- The arguments of a fragment edit its call only, and are sent if it is announced and not
freeform. -/
theorem pushArguments_edits {index : ℕ} {st : Synthesis} (hi : index < st.calls.length)
    (f : Value) : Edits index ((st.callAt index).extend f)
      (if (st.callAt index).announced && !(st.callAt index).freeform then
        (functionStr "arguments" f).getD "" else "") st (st.pushArguments index f) := by
  unfold pushArguments PendingCall.extend
  dsimp only
  cases hf : functionStr "arguments" f with
  | none =>
    dsimp only
    rw [Option.getD_none, String.append_empty, ite_self]
    exact edits_refl index st
  | some fragment =>
    dsimp only
    rw [Option.getD_some, Bool.and_comm]
    have hset := edits_setCall hi
      { st.callAt index with arguments := (st.callAt index).arguments ++ fragment }
    split_ifs with h
    · refine { hset with sent := fun id => ?_ }
      rw [Synthesis.emit, sentArguments_concat, argumentsDelta_of, hset.sent, ite_self,
        String.append_empty]
      split_ifs <;> rfl
    · exact hset

/-- All that a fragment does to its call, once the call has its id. -/
theorem receive_edits {index : ℕ} {st : Synthesis} (hi : index < st.calls.length) (f : Value) :
    Edits index ((st.callAt index).receive st.tools f)
      (if ((st.callAt index).receive st.tools f).announced &&
          !((st.callAt index).receive st.tools f).freeform then
        (functionStr "arguments" f).getD "" else "") st
      ((((st.identifyCall index f).nameCall index f).announceCall index).pushArguments index f) := by
  have hidentify := identifyCall_edits hi f
  have hname := nameCall_edits (hidentify.length.symm ▸ hi) f
  rw [hidentify.this, hidentify.tools] at hname
  have hboth := hidentify.trans hname (PendingCall.rename_id _ _ _)
  have hannounce := announceCall_edits (hboth.length.symm ▸ hi)
  rw [hboth.this] at hannounce
  have hthree := hboth.trans hannounce rfl
  have harguments := pushArguments_edits (hthree.length.symm ▸ hi) f
  rw [hthree.this] at harguments
  have hall := hthree.trans harguments rfl
  rw [String.append_empty, String.append_empty, String.empty_append] at hall
  exact hall

/-! ## All calls at once -/

/-- The state knows of each index what its fragments say, and has sent what it should. -/
structure Tracks (st : Synthesis) (fs : List Value) : Prop where
  call : ∀ i, Gathered st.tools (fragmentsAt i fs) (st.callAt i)
  id : ∀ i, fragmentsAt i fs ≠ [] → (st.callAt i).id ≠ ""
  sent : ∀ i, (st.callAt i).id ≠ "" → sentArguments (some (st.callAt i).id) st.pending =
    lateArguments st.tools (fragmentsAt i fs)
  output : ∀ item ∈ st.output, isCallItem item = false

/-- A step that concerns no call. -/
structure Quiet (st st' : Synthesis) : Prop where
  call : ∀ i, st'.callAt i = st.callAt i
  sent : ∀ id, sentArguments id st'.pending = sentArguments id st.pending
  output : ∀ item ∈ st'.output, item ∈ st.output ∨ isCallItem item = false
  tools : st'.tools = st.tools

/-- A state that differs in nothing that concerns the calls. -/
theorem quiet_of_eq {st st' : Synthesis} (hcalls : st'.calls = st.calls)
    (hpending : st'.pending = st.pending) (houtput : st'.output = st.output)
    (htools : st'.tools = st.tools) : Quiet st st' where
  call := callAt_congr hcalls
  sent _ := by rw [hpending]
  output item h := .inl (by rwa [houtput] at h)
  tools := htools

/-- Doing nothing is quiet. -/
theorem quiet_refl (st : Synthesis) : Quiet st st := quiet_of_eq rfl rfl rfl rfl

/-- Two quiet steps are one. -/
theorem Quiet.trans {st st' st'' : Synthesis} (h : Quiet st st') (h' : Quiet st' st'') :
    Quiet st st'' where
  call i := (h'.call i).trans (h.call i)
  sent id := (h'.sent id).trans (h.sent id)
  output item hitem := (h'.output item hitem).elim (h.output item) .inr
  tools := h'.tools.trans h.tools

/-- A quiet step leaves all that is known of the calls. -/
theorem Tracks.quiet {st st' : Synthesis} {fs : List Value} (h : Tracks st fs)
    (hq : Quiet st st') : Tracks st' fs where
  call i := by
    rw [hq.tools, hq.call]
    exact h.call i
  id i := by
    rw [hq.call]
    exact h.id i
  sent i := by
    rw [hq.tools, hq.call, hq.sent]
    exact h.sent i
  output item hitem := (hq.output item hitem).elim (h.output item) fun hnot => hnot

/-- An event that sends no arguments is quiet. -/
theorem quiet_emit {kind : String} (hkind : kind ≠ "response.function_call_arguments.delta")
    (body : List (String × Value)) (st : Synthesis) : Quiet st (st.emit kind body) where
  call _ := rfl
  sent id := by
    rw [emit, sentArguments_concat, argumentsDelta_of_ne hkind, Option.getD_none,
      String.append_empty]
  output _ h := .inl h
  tools := rfl

/-- A change of an open item is quiet. -/
theorem quiet_setSlot (c : Channel) (item : Option TextItem) (st : Synthesis) :
    Quiet st (st.setSlot c item) := by
  cases c <;> exact quiet_of_eq rfl rfl rfl rfl

/-- An item that is no call is added to the output. -/
theorem quiet_output {item : Value} (hitem : isCallItem item = false) (st : Synthesis) :
    Quiet st { st with output := st.output ++ [item] } where
  call _ := rfl
  sent _ := rfl
  output i hi := by
    rcases List.mem_append.mp hi with hi | hi
    · exact .inl hi
    · rw [List.mem_singleton.mp hi]
      exact .inr hitem
  tools := rfl

/-- Opening an item is quiet. -/
theorem openItem_quiet (c : Channel) (st : Synthesis) : Quiet st (st.openItem c) := by
  unfold openItem
  cases st.slot c with
  | some item => exact quiet_refl st
  | none =>
    dsimp only
    have hnext : Quiet st { st with nextOutputIndex := st.nextOutputIndex + 1 } :=
      quiet_of_eq rfl rfl rfl rfl
    have hadded := hnext.trans (quiet_emit (show "response.output_item.added" ≠ _ by decide)
      [("output_index", .ofNat st.nextOutputIndex),
        ("item", c.item (st.itemId c.idTag st.nextOutputIndex) "in_progress" [])] _)
    exact (hadded.trans (quiet_emit (by cases c <;> decide) _ _)).trans (quiet_setSlot c _ _)

/-- Extending an item is quiet. -/
theorem extendItem_quiet (c : Channel) (delta : String) (st : Synthesis) :
    Quiet st (st.extendItem c delta) := by
  unfold extendItem
  cases st.slot c with
  | none => exact quiet_refl st
  | some current =>
    exact (quiet_setSlot c _ st).trans (quiet_emit (by cases c <;> decide) _ _)

/-- Closing an item is quiet. -/
theorem closeItem_quiet (c : Channel) (st : Synthesis) : Quiet st (st.closeItem c) := by
  unfold closeItem
  cases st.slot c with
  | none => exact quiet_refl st
  | some current =>
    dsimp only
    have hitem (id status : String) (parts : List Value) :
        isCallItem (c.item id status parts) = false := by
      cases c <;> simp [isCallItem, itemType, Channel.item, Value.obj, Map.ofEntries]
    have htext := (quiet_setSlot c none st).trans
      (quiet_emit (show c.textDoneKind ≠ _ by cases c <;> decide)
        [("item_id", .string current.id), ("output_index", .ofNat current.outputIndex),
          (c.indexKey, .ofNat 0), ("text", .string current.text)] _)
    have hpart := htext.trans (quiet_emit (show c.partDoneKind ≠ _ by cases c <;> decide)
      [("item_id", .string current.id), ("output_index", .ofNat current.outputIndex),
        (c.indexKey, .ofNat 0), ("part", c.part current.text)] _)
    exact (hpart.trans (quiet_emit (by decide) _ _)).trans (quiet_output (hitem _ _ _) _)

/-- The table grows by empty calls, which is quiet. -/
theorem growCalls_quiet (index : ℕ) (st : Synthesis) : Quiet st (st.growCalls index) where
  call i := by
    unfold callAt growCalls
    by_cases hi : i < st.calls.length
    · rw [List.getD_append _ _ _ _ hi]
    · rw [List.getD_append_right _ _ _ _ (by omega), List.getD_eq_default st.calls _ (by omega)]
      simp [List.getD, List.getElem?_replicate]
      split_ifs <;> rfl
  sent _ := rfl
  output _ h := .inl h
  tools := rfl

/-- A fragment is the last of its own index. -/
theorem fragmentsAt_concat (i : ℕ) (fs : List Value) (f : Value) :
    fragmentsAt i (fs ++ [f]) = fragmentsAt i fs ++ if callIndex f = i then [f] else [] := by
  unfold fragmentsAt
  rw [List.filter_append, List.filter_singleton]
  by_cases h : callIndex f = i <;> simp [h]

/-- The id that a call gets is new, so nothing was sent for it. -/
theorem Tracks.reserveCall {st : Synthesis} {fs : List Value} (h : Tracks st fs) (hs : st.Sound)
    {index : ℕ} (hi : index < st.calls.length) : Tracks (st.reserveCall index) fs := by
  unfold Synthesis.reserveCall
  dsimp only
  split_ifs with hempty
  · generalize hentry : PendingCall.mk _ _ _ _ _ _ _ _ = entry
    generalize hst' : setCall index entry _ = st'
    have hthis : st'.callAt index = entry := by
      rw [← hst']
      exact callAt_setCall (by exact hi) entry
    have hother (i : ℕ) (hne : i ≠ index) : st'.callAt i = st.callAt i := by
      rw [← hst']
      exact callAt_setCall_of_ne hne entry _
    -- An entry without an id has had no fragment.
    have hnone : fragmentsAt index fs = [] := by
      by_contra hne
      exact h.id index hne hempty
    have htools : st'.tools = st.tools := by rw [← hst']; rfl
    have hpending : st'.pending = st.pending := by rw [← hst']; rfl
    have hgathered := h.call index
    -- The id is new, so nothing was sent under it.
    have hfresh : sentArguments (some entry.id) st.pending = "" := by
      apply hs.ledger.sentArguments_eq
      rw [opened_marks, ← hentry]
      exact (hs.next_fresh "fc").1
    refine ⟨fun i => ?_, fun i hne => ?_, fun i hne => ?_, ?_⟩
    · by_cases heq : i = index
      · subst heq
        rw [hthis, htools, ← hentry]
        exact ⟨hgathered.callId, hgathered.encodedName, hgathered.name, hgathered.freeform,
          hgathered.arguments, hgathered.announced⟩
      · rw [hother i heq, htools]
        exact h.call i
    · have hne' : i ≠ index := by
        rintro rfl
        exact hne hnone
      rw [hother i hne']
      exact h.id i hne
    · by_cases heq : i = index
      · subst heq
        rw [hthis, hpending, hfresh, hnone]
        rfl
      · rw [hother i heq] at hne ⊢
        rw [hpending, htools]
        exact h.sent i hne
    · rw [← hst']
      exact h.output
  · exact h

/-- The ids of two calls differ. -/
theorem Sound.call_ids_ne {st : Synthesis} (h : st.Sound) {i j : ℕ} (hij : i ≠ j)
    (hi : (st.callAt i).id ≠ "") (hj : (st.callAt j).id ≠ "") :
    (st.callAt i).id ≠ (st.callAt j).id := by
  intro heq
  rw [(h.consistent.calls i hi).1, (h.consistent.calls j hj).1] at heq
  exact h.consistent.distinct i j hij hi hj (itemId_index heq)

/-- A fragment for a call that has its id. -/
theorem Tracks.receive {st st' : Synthesis} {fs : List Value} (h : Tracks st fs) (hs : st.Sound)
    {f : Value} (hid : (st.callAt (callIndex f)).id ≠ "")
    (hedits : Edits (callIndex f) ((st.callAt (callIndex f)).receive st.tools f)
      (if ((st.callAt (callIndex f)).receive st.tools f).announced &&
          !((st.callAt (callIndex f)).receive st.tools f).freeform then
        (functionStr "arguments" f).getD "" else "") st st') : Tracks st' (fs ++ [f]) := by
  have hgathered := (h.call (callIndex f)).receive f
  rw [hgathered.announced, hgathered.freeform] at hedits
  -- The fragment belongs to the call at its index, and to no other.
  have hat : fragmentsAt (callIndex f) (fs ++ [f]) = fragmentsAt (callIndex f) fs ++ [f] := by
    rw [fragmentsAt_concat, if_pos rfl]
  have hother {i : ℕ} (hi : i ≠ callIndex f) : fragmentsAt i (fs ++ [f]) = fragmentsAt i fs := by
    rw [fragmentsAt_concat, if_neg (Ne.symm hi), List.append_nil]
  refine ⟨fun i => ?_, fun i hne => ?_, fun i hne => ?_, ?_⟩
  · rw [hedits.tools]
    by_cases hi : i = callIndex f
    · rw [hi, hat, hedits.this]
      exact hgathered
    · rw [hother hi, hedits.other i hi]
      exact h.call i
  · by_cases hi : i = callIndex f
    · rw [hi, hedits.this, PendingCall.receive_id]
      exact hid
    · rw [hother hi] at hne
      rw [hedits.other i hi]
      exact h.id i hne
  · by_cases hi : i = callIndex f
    · -- What is sent is what the fragment adds to the arguments after the announcement.
      rw [hi, hedits.this, hedits.sent, PendingCall.receive_id, if_pos rfl, hedits.tools, hat,
        lateArguments_concat, h.sent _ hid]
    · rw [hedits.other i hi] at hne ⊢
      rw [hedits.sent, PendingCall.receive_id, if_neg (hs.call_ids_ne hi hne hid),
        String.append_empty, hedits.tools, hother hi]
      exact h.sent i hne
  · rw [hedits.output]
    exact h.output

/-- One more fragment. -/
theorem Tracks.pushToolCall (serde : Serde) {st : Synthesis} {fs : List Value} (h : Tracks st fs)
    (hs : st.Sound) (f : Value) : Tracks (st.pushToolCall f) (fs ++ [f]) := by
  have hclose : Quiet st st.closeReasoning.closeMessage :=
    (closeItem_quiet .reasoning st).trans (closeItem_quiet .message _)
  have hquiet := hclose.trans (growCalls_quiet (callIndex f) _)
  have hi := growCalls_length (callIndex f) st.closeReasoning.closeMessage
  have hmoves : Moves serde st (st.closeReasoning.closeMessage.growCalls (callIndex f)) :=
    .tail (Steps.moves serde ((closeItem_steps serde .reasoning st).trans
      (closeItem_steps serde .message _))) (.growCalls _)
  have hgrown := h.quiet hquiet
  have hsound := hmoves.sound hs
  unfold Synthesis.pushToolCall
  dsimp only
  generalize st.closeReasoning.closeMessage.growCalls (callIndex f) = st₁ at hi hgrown hsound ⊢
  have hreserved := hgrown.reserveCall hsound hi
  have hsound₂ := Moves.sound (Steps.moves serde (reserveCall_steps serde hi)) hsound
  have hid := reserveCall_id hi
  rw [← reserveCall_length (callIndex f) st₁] at hi
  exact hreserved.receive hsound₂ hid (receive_edits hi f)

/-- The start of a response is quiet. -/
theorem start_quiet (chunk : Value) (st : Synthesis) : Quiet st (st.start chunk) := by
  unfold start
  split_ifs
  · exact quiet_refl st
  · dsimp only
    generalize hst' : Synthesis.mk _ _ _ _ _ _ _ _ _ _ _ _ _ _ _ _ _ = st'
    have hquiet : Quiet st st' := by
      rw [← hst']
      exact quiet_of_eq rfl rfl rfl rfl
    exact (hquiet.trans (quiet_emit (by decide) _ _)).trans (quiet_emit (by decide) _ _)

/-- Noting the usage is quiet. -/
theorem noteUsage_quiet (chunk : Value) (st : Synthesis) : Quiet st (st.noteUsage chunk) := by
  unfold noteUsage
  split
  · exact quiet_of_eq rfl rfl rfl rfl
  · exact quiet_refl st

/-- The fragments of a chunk. -/
theorem Tracks.pushToolCalls (serde : Serde) {st : Synthesis} {fs : List Value} (h : Tracks st fs)
    (hs : st.Sound) (calls : List Value) :
    Tracks (calls.foldl (fun st call => st.pushToolCall call) st) (fs ++ calls) := by
  induction calls generalizing st fs with
  | nil => rwa [List.append_nil]
  | cons call calls ih =>
    have hsound := (pushToolCall_moves serde call st).sound hs
    rw [List.foldl_cons, List.append_cons]
    exact ih (h.pushToolCall serde hs call) hsound

/-- The delta of a chunk. -/
theorem Tracks.handleDelta (serde : Serde) {st : Synthesis} {fs : List Value} (h : Tracks st fs)
    (hs : st.Sound) (delta : Map Value) : Tracks (st.handleDelta delta)
      (fs ++ ((delta.get "tool_calls").bind Value.asArray).getD []) := by
  have hreasoning (st : Synthesis) (text : String) : Quiet st (st.pushReasoning text) :=
    ((closeItem_quiet .message st).trans (openItem_quiet .reasoning _)).trans
      (extendItem_quiet .reasoning text _)
  have htext (st : Synthesis) (text : String) : Quiet st (st.pushText text) :=
    ((closeItem_quiet .reasoning st).trans (openItem_quiet .message _)).trans
      (extendItem_quiet .message text _)
  have hboth : ∃ st', Quiet st st' ∧ Steps serde st st' ∧ st.handleDelta delta =
      (((delta.get "tool_calls").bind Value.asArray).getD []).foldl
        (fun st call => st.pushToolCall call) st' := by
    unfold Synthesis.handleDelta
    cases nonEmptyStr (delta.get "reasoning_content") with
    | none =>
      cases nonEmptyStr (delta.get "content") with
      | none => exact ⟨st, quiet_refl st, .refl, rfl⟩
      | some content => exact ⟨_, htext st content, pushText_steps serde content st, rfl⟩
    | some reasoning =>
      cases nonEmptyStr (delta.get "content") with
      | none => exact ⟨_, hreasoning st reasoning, pushReasoning_steps serde reasoning st, rfl⟩
      | some content =>
        exact ⟨_, (hreasoning st reasoning).trans (htext _ content),
          (pushReasoning_steps serde reasoning st).trans (pushText_steps serde content _), rfl⟩
  obtain ⟨st', hquiet, hsteps, heq⟩ := hboth
  rw [heq]
  exact (h.quiet hquiet).pushToolCalls serde (Moves.sound (Steps.moves serde hsteps) hs) _

/-- One more chunk. -/
theorem Tracks.progress (serde : Serde) {st : Synthesis} {fs : List Value} (h : Tracks st fs)
    {chunk : Value} (hs : (st.start chunk).Sound) :
    Tracks (st.progress chunk) (fs ++ chunkFragments chunk) := by
  have hquiet := (start_quiet chunk st).trans (noteUsage_quiet chunk _)
  have hsound : ((st.start chunk).noteUsage chunk).Sound := by
    unfold noteUsage
    split
    · exact Move.sound (show Move serde _ _ from .usage _) hs
    · exact hs
  unfold Synthesis.progress chunkFragments
  dsimp only
  cases (firstChoice chunk).bind fun choice => (choice.get "delta").bind Value.asObject with
  | none =>
    rw [Option.bind_none, Option.getD_none, List.append_nil]
    exact h.quiet hquiet
  | some delta =>
    rw [Option.bind_some]
    exact (h.quiet hquiet).handleDelta serde hsound delta

/-- All chunks of a completion. -/
theorem foldl_progress_tracks (serde : Serde) (model requestKey : String) (tools : ToolNames)
    (chunks : List Value) :
    Tracks (chunks.foldl (fun st chunk => st.progress chunk) { model, requestKey, tools })
      (chunks.flatMap chunkFragments) := by
  induction chunks using List.reverseRecOn with
  | nil => exact ⟨fun _ => gathered_nil tools, by simp [fragmentsAt], by simp [callAt], by simp⟩
  | append_singleton chunks chunk ih =>
    rw [List.foldl_append, List.flatMap_append, List.flatMap_singleton]
    refine ih.progress serde ?_
    by_cases hnil : chunks = []
    · rw [hnil]
      exact start_sound model requestKey tools chunk
    · have hbegun := foldl_progress_begun serde hnil { model, requestKey, tools }
      rw [start, if_pos hbegun.started]
      exact hbegun.sound

/-! ## The end -/

section

variable (serde : Serde)

/-- The item of a call that is done. -/
def doneItem (call : PendingCall) : Value := call.item "completed" (callText serde call)

/-- Closing a call adds its item to the output, and sends no more arguments. -/
theorem closeToolCall_spec (call : PendingCall) (st : Synthesis) :
    (closeToolCall serde st call).output = st.output ++ [doneItem serde call] ∧
      ∀ id, sentArguments id (closeToolCall serde st call).pending =
        sentArguments id st.pending := by
  have hdone {st st' : Synthesis} (h : Quiet st st') : Quiet st
      (st'.emit "response.output_item.done" [("output_index", .ofNat call.outputIndex),
        ("item", call.item "completed" (callText serde call))]) :=
    h.trans (quiet_emit (by decide) _ _)
  unfold closeToolCall
  dsimp only
  split_ifs
  · have hinput := (quiet_emit (show "response.custom_tool_call_input.delta" ≠ _ by decide)
      [("item_id", .string call.id), ("output_index", .ofNat call.outputIndex),
        ("delta", .string (callText serde call))] st).trans
      (quiet_emit (show "response.custom_tool_call_input.done" ≠ _ by decide)
        [("item_id", .string call.id), ("output_index", .ofNat call.outputIndex),
          ("input", .string (callText serde call))] _)
    exact ⟨rfl, (hdone hinput).sent⟩
  · have harguments := quiet_emit
      (show "response.function_call_arguments.done" ≠ _ by decide)
      [("item_id", .string call.id), ("output_index", .ofNat call.outputIndex),
        ("arguments", .string (callText serde call))] st
    exact ⟨rfl, (hdone harguments).sent⟩

/-- Ending the calls adds their items to the output and sends no arguments. -/
theorem closeToolCalls_output (st : Synthesis) :
    (st.closeToolCalls serde).output =
        st.output ++ (st.calls.filter (·.announced)).map (doneItem serde) ∧
      ∀ id, sentArguments id (st.closeToolCalls serde).pending = sentArguments id st.pending := by
  have hfold (calls : List PendingCall) (st : Synthesis) :
      (calls.foldl (closeToolCall serde) st).output = st.output ++ calls.map (doneItem serde) ∧
        ∀ id, sentArguments id (calls.foldl (closeToolCall serde) st).pending =
          sentArguments id st.pending := by
    induction calls generalizing st with
    | nil => exact ⟨(List.append_nil _).symm, fun _ => rfl⟩
    | cons call calls ih =>
      obtain ⟨houtput, hsent⟩ := ih (closeToolCall serde st call)
      obtain ⟨houtput', hsent'⟩ := closeToolCall_spec serde call st
      refine ⟨?_, fun id => (hsent id).trans (hsent' id)⟩
      rw [List.foldl_cons, houtput, houtput', List.append_assoc, List.map_cons,
        List.singleton_append]
  exact hfold _ { st with calls := [] }

/-- What the events of a response that ends say of its calls. -/
theorem finish_spec (reason : Option String) (st : Synthesis) :
    responseItems (st.finish reason).pending = st.output ∧
      ∀ id, sentArguments id (st.finish reason).pending = sentArguments id st.pending := by
  have hquiet := quiet_emit (show (if reason = some "length" then "response.incomplete" else
      "response.completed") ≠ "response.function_call_arguments.delta" by split_ifs <;> decide)
    [("response", st.responseEnvelope (if reason = some "length" then "incomplete" else "completed")
      reason true)] st
  refine ⟨?_, hquiet.sent⟩
  have hlast : (st.finish reason).pending.getLast? = some (.of st.sequence
      (if reason = some "length" then "response.incomplete" else "response.completed")
      [("response", st.responseEnvelope
        (if reason = some "length" then "incomplete" else "completed") reason true)]) := by
    simp [finish, emit]
  rw [responseItems, hlast]
  simp [Event.responseOutput, Event.of, Map.ofEntries, responseEnvelope_output]

end

/-- Closing an item leaves the calls alone. -/
theorem closeItem_calls (c : Channel) (st : Synthesis) : (st.closeItem c).calls = st.calls := by
  unfold closeItem
  cases st.slot c with
  | none => rfl
  | some current => cases c <;> rfl

/-- The item of a call is a call. -/
theorem doneItem_isCallItem (serde : Serde) (call : PendingCall) :
    isCallItem (doneItem serde call) = true := by
  cases h : call.freeform <;>
    simp [isCallItem, itemType, doneItem, PendingCall.item, h, Value.obj, Map.ofEntries]

/-- The calls of the response are the ones that were announced. -/
theorem Tracks.complete (serde : Serde) {st : Synthesis} {fs : List Value} (h : Tracks st fs)
    (hon : st.GoesOn) (hstarted : st.started = true) (reason : Option String) :
    (responseItems (st.complete serde reason).pending).filter isCallItem =
        (st.calls.filter (·.announced)).map (doneItem serde) ∧
      ∀ id, sentArguments id (st.complete serde reason).pending =
        sentArguments id st.pending := by
  have hquiet : Quiet st st.closeReasoning.closeMessage :=
    (closeItem_quiet .reasoning st).trans (closeItem_quiet .message _)
  have hcalls : st.closeReasoning.closeMessage.calls = st.calls :=
    (closeItem_calls .message _).trans (closeItem_calls .reasoning st)
  obtain ⟨houtput, hsent⟩ := closeToolCalls_output serde st.closeReasoning.closeMessage
  obtain ⟨hitems, hsent'⟩ := finish_spec reason (st.closeReasoning.closeMessage.closeToolCalls serde)
  rw [complete_eq_finish serde reason hon hstarted]
  refine ⟨?_, fun id => ((hsent' id).trans (hsent id)).trans (hquiet.sent id)⟩
  have htexts : st.closeReasoning.closeMessage.output.filter isCallItem = [] := by
    rw [List.filter_eq_nil_iff]
    intro item hitem
    rw [(h.quiet hquiet).output item hitem]
    exact Bool.false_ne_true
  have hdone : ((st.calls.filter (·.announced)).map (doneItem serde)).filter isCallItem =
      (st.calls.filter (·.announced)).map (doneItem serde) := by
    rw [List.filter_eq_self]
    intro item hitem
    obtain ⟨call, -, rfl⟩ := List.mem_map.mp hitem
    exact doneItem_isCallItem serde call
  rw [hitems, houtput, hcalls, List.filter_append, htexts, hdone, List.nil_append]

/-- The indices of the calls that were announced. -/
def announcedIndices (st : Synthesis) : List ℕ :=
  (List.range st.calls.length).filter fun i => (st.callAt i).announced

/-- The announced calls are those that are named. -/
theorem mem_announcedIndices {st : Synthesis} {fs : List Value} (h : Tracks st fs) (i : ℕ) :
    i ∈ st.announcedIndices ↔ isNamed (fragmentsAt i fs) = true := by
  rw [announcedIndices, List.mem_filter, List.mem_range, (h.call i).announced]
  constructor
  · exact fun hi => hi.2
  · intro hnamed
    refine ⟨?_, hnamed⟩
    -- Beyond the end of the list nothing was announced.
    by_contra hge
    have hannounced := (h.call i).announced
    rw [callAt, List.getD_eq_default _ _ (by omega), hnamed] at hannounced
    cases hannounced

/-- The announced calls are those at the announced indices, in their order. -/
theorem calls_filter_announced (st : Synthesis) :
    st.calls.filter (·.announced) = st.announcedIndices.map st.callAt := by
  have hcalls : st.calls = (List.range st.calls.length).map fun i => st.callAt i := by
    apply List.ext_getElem (by simp)
    intro i hi hi'
    simp [callAt, hi]
  calc st.calls.filter (·.announced)
      = ((List.range st.calls.length).map fun i => st.callAt i).filter (·.announced) := by
        rw [← hcalls]
    _ = st.announcedIndices.map st.callAt := by
        rw [List.filter_map]
        rfl

/-- The received indices are those of the fragments. -/
theorem mem_receivedIndices (i : ℕ) (fs : List Value) :
    i ∈ receivedIndices fs ↔ fragmentsAt i fs ≠ [] := by
  rw [receivedIndices, List.mem_dedup, List.mem_map, fragmentsAt, Ne, List.filter_eq_nil_iff]
  simp

/-- Only indices that received a fragment are announced. -/
theorem announcedIndices_subset {st : Synthesis} {fs : List Value} (h : Tracks st fs) :
    st.announcedIndices ⊆ receivedIndices fs := by
  intro i hi
  rw [mem_receivedIndices]
  intro hnil
  rw [mem_announcedIndices h, hnil] at hi
  cases hi

/-- The members of the item of a call. -/
theorem doneItem_reads (serde : Serde) (call : PendingCall) :
    idOf (doneItem serde call) = some call.id ∧
      itemType (doneItem serde call) =
        some (if call.freeform then "custom_tool_call" else "function_call") ∧
      (doneItem serde call).get "call_id" = some (.string call.callId) ∧
      (doneItem serde call).get "name" = some (.string call.name) ∧
      (call.freeform = false →
        (doneItem serde call).get "arguments" = some (.string (callText serde call))) := by
  cases h : call.freeform <;>
    simp [idOf, itemType, doneItem, PendingCall.item, h, Value.obj, Map.ofEntries]

/-- The item of a call delivers it when all its arguments were sent. -/
theorem Tracks.delivers (serde : Serde) {st : Synthesis} {fs : List Value} (h : Tracks st fs)
    {i : ℕ} (hi : fragmentsAt i fs ≠ []) {es : List Event}
    (hes : ∀ id, sentArguments id es = sentArguments id st.pending)
    (hlate : isFreeformCall st.tools (fragmentsAt i fs) = false →
      lateArguments st.tools (fragmentsAt i fs) = argumentsOf (fragmentsAt i fs)) :
    Delivers st.tools (fragmentsAt i fs) es (doneItem serde (st.callAt i)) := by
  have hgathered := h.call i
  have hsent := h.sent i (h.id i hi)
  obtain ⟨hid, htype, hcallId, hname, harguments⟩ := doneItem_reads serde (st.callAt i)
  generalize fragmentsAt i fs = gs at hgathered hsent hlate ⊢
  refine ⟨?_, fun id hfirst => ?_, fun name hfirst => ?_, fun hnot hne => ⟨?_, ?_⟩⟩
  · rw [htype, hgathered.freeform]
  · rw [hcallId, hgathered.callId, Option.mem_def.mp hfirst]
    rfl
  · rw [hname, hgathered.name, Option.mem_def.mp hfirst]
    rfl
  · rw [harguments (hgathered.freeform.trans hnot), callText,
      if_neg (by simp [hgathered.freeform, hnot]), hgathered.arguments, if_neg hne]
  · rw [hid, hes, hsent, hlate hnot]

/-- What is sent for the item of a call. -/
theorem Tracks.sent_doneItem (serde : Serde) {st : Synthesis} {fs : List Value} (h : Tracks st fs)
    {es : List Event} (hes : ∀ id, sentArguments id es = sentArguments id st.pending) {i : ℕ}
    (hi : i ∈ receivedIndices fs) : sentArguments (idOf (doneItem serde (st.callAt i))) es =
      lateArguments st.tools (fragmentsAt i fs) := by
  rw [(doneItem_reads serde (st.callAt i)).1, hes,
    h.sent i (h.id i ((mem_receivedIndices i fs).mp hi))]

/-- All arguments of all calls are sent when the items deliver the calls, whichever item delivers
which call: together they cannot send more than arrived. -/
theorem Tracks.late_eq (serde : Serde) {st : Synthesis} {fs : List Value} (h : Tracks st fs)
    {es : List Event} (hes : ∀ id, sentArguments id es = sentArguments id st.pending)
    {itemAt : ℕ → Value} (hperm : ((receivedIndices fs).map itemAt).Perm
      ((receivedIndices fs).map fun i => doneItem serde (st.callAt i)))
    (hdelivers : ∀ i ∈ receivedIndices fs, Delivers st.tools (fragmentsAt i fs) es (itemAt i)) :
    ∀ i ∈ receivedIndices fs, isFreeformCall st.tools (fragmentsAt i fs) = false →
      lateArguments st.tools (fragmentsAt i fs) = argumentsOf (fragmentsAt i fs) := by
  intro i hi hfreeform
  by_contra hne
  have hdue : ((receivedIndices fs).map fun j => dueLength st.tools (fragmentsAt j fs)).sum ≤
      ((receivedIndices fs).map fun j => (sentArguments (idOf (itemAt j)) es).length).sum :=
    List.sum_le_sum fun j hj => (hdelivers j hj).dueLength_le
  have hsum : ((receivedIndices fs).map fun j => (sentArguments (idOf (itemAt j)) es).length).sum =
      ((receivedIndices fs).map fun j =>
        (lateArguments st.tools (fragmentsAt j fs)).length).sum := by
    have hweights := (hperm.map fun item => (sentArguments (idOf item) es).length).sum_eq
    rw [List.map_map, List.map_map] at hweights
    refine hweights.trans (congrArg List.sum (List.map_congr_left fun j hj => ?_))
    exact congrArg String.length (h.sent_doneItem serde hes hj)
  have hless : ((receivedIndices fs).map fun j =>
        (lateArguments st.tools (fragmentsAt j fs)).length).sum <
      ((receivedIndices fs).map fun j => dueLength st.tools (fragmentsAt j fs)).sum :=
    List.sum_lt_sum _ _ (fun j _ => lateArguments_length_le _ _)
      ⟨i, hi, lateArguments_length_lt hfreeform hne⟩
  omega

/-- The items of the calls that were announced are those of all calls when they are as many. -/
theorem Tracks.all_announced {st : Synthesis} {fs : List Value} (h : Tracks st fs)
    (hlength : (receivedIndices fs).length ≤ st.announcedIndices.length) :
    st.announcedIndices.Perm (receivedIndices fs) := by
  have hnodup : st.announcedIndices.Nodup := List.nodup_range.filter _
  exact (List.subperm_of_subset hnodup (announcedIndices_subset h)).perm_of_length_le hlength

/-- The calls of a state are delivered exactly when their fragments are prompt. -/
theorem Tracks.delivered_iff (serde : Serde) {st : Synthesis} {fs : List Value} (h : Tracks st fs)
    {es : List Event} (hes : ∀ id, sentArguments id es = sentArguments id st.pending)
    (hitems : (responseItems es).filter isCallItem =
      (st.calls.filter (·.announced)).map (doneItem serde)) :
    CallsDelivered st.tools fs es ↔
      ∀ i ∈ receivedIndices fs, Prompt st.tools (fragmentsAt i fs) := by
  -- What was sent is all of the arguments where none came before the name.
  have hlate {i : ℕ} (hfreeform : isFreeformCall st.tools (fragmentsAt i fs) = false) :
      lateArguments st.tools (fragmentsAt i fs) = argumentsOf (fragmentsAt i fs) ↔
        ∀ before f after, fragmentsAt i fs = before ++ f :: after →
          functionStr "arguments" f ≠ none → isNamed (before ++ [f]) = true := by
    rw [lateArguments, if_neg (by simp [hfreeform])]
    simpa using argumentsOf_lateFragments_iff [] (fragmentsAt i fs)
  rw [calls_filter_announced, List.map_map] at hitems
  constructor
  · rintro ⟨itemAt, hperm, hdelivers⟩ i hi
    rw [hitems] at hperm
    -- As many calls were announced as were received, so each was.
    have hannounced : st.announcedIndices.Perm (receivedIndices fs) :=
      h.all_announced (by simpa using hperm.length_eq.le)
    have hnamed : isNamed (fragmentsAt i fs) = true :=
      (mem_announcedIndices h i).mp (hannounced.mem_iff.mpr hi)
    have hperm' := hperm.trans (hannounced.map (doneItem serde ∘ st.callAt))
    exact ⟨hnamed, fun hfreeform =>
      (hlate hfreeform).mp (h.late_eq serde hes hperm' hdelivers i hi hfreeform)⟩
  · intro hprompt
    have hnamed : receivedIndices fs ⊆ st.announcedIndices := fun i hi =>
      (mem_announcedIndices h i).mpr (hprompt i hi).1
    have hreceived : (receivedIndices fs).Nodup := List.nodup_dedup _
    have hannounced := h.all_announced (List.subperm_of_subset hreceived hnamed).length_le
    refine ⟨fun i => doneItem serde (st.callAt i), ?_, fun i hi => ?_⟩
    · rw [hitems]
      exact (hannounced.map (doneItem serde ∘ st.callAt)).symm
    · exact h.delivers serde ((mem_receivedIndices i fs).mp hi) hes fun hfreeform =>
        (hlate hfreeform).mpr ((hprompt i hi).2 hfreeform)

end Synthesis

/-- The state at the end of a completion that leads to a response, and what the response has of its
calls. -/
theorem responsesEvents_tracks (serde : Serde) (upstream : List Poll) (model requestKey : String)
    (tools : ToolNames)
    (hlast : ∃ kind ∈ ["response.completed", "response.incomplete"],
      (responsesEvents serde upstream model requestKey tools).getLast?.map Event.kind =
        some kind) :
    ∃ st : Synthesis, st.Tracks (transcript serde upstream).fragments ∧ st.tools = tools ∧
      (responseItems (responsesEvents serde upstream model requestKey tools)).filter isCallItem =
        (st.calls.filter (·.announced)).map (Synthesis.doneItem serde) ∧
      ∀ id, sentArguments id (responsesEvents serde upstream model requestKey tools) =
        sentArguments id st.pending := by
  obtain ⟨haddressable, hterminal⟩ := terminal_ne_error hlast
  rw [responsesEvents_eq serde haddressable]
  have h₀ : Synthesis.Fresh { model, requestKey, tools } := ⟨⟨rfl, rfl⟩, rfl⟩
  rcases Synthesis.replay_cases serde (transcript serde upstream) h₀ with
    ⟨herror, -⟩ | ⟨st, reason, hst, hbegun, heq, -⟩
  · exact absurd herror hterminal
  · have htracks : Synthesis.Tracks st (transcript serde upstream).fragments := by
      rw [hst]
      exact Synthesis.foldl_progress_tracks serde model requestKey tools _
    have htools : st.tools = tools := by
      obtain ⟨chunk, hmoves⟩ := hbegun
      exact congrArg Synthesis.Turn.tools (Synthesis.Moves.turn_eq serde hmoves)
    obtain ⟨hitems, hsent⟩ := htracks.complete serde (hbegun.goesOn serde h₀) hbegun.started reason
    rw [heq]
    exact ⟨st, htracks, htools, hitems, hsent⟩

/-- A response delivers all tool calls of its completion exactly when the fragments of each of them
carry an id and a tool name, and, unless the tool takes freeform input, carry no arguments before
both have arrived. -/
theorem responsesEvents_calls (serde : Serde) (upstream : List Poll) (model requestKey : String)
    (tools : ToolNames)
    (hlast : ∃ kind ∈ ["response.completed", "response.incomplete"],
      (responsesEvents serde upstream model requestKey tools).getLast?.map Event.kind =
        some kind) :
    CallsDelivered tools (transcript serde upstream).fragments
        (responsesEvents serde upstream model requestKey tools) ↔
      ∀ i ∈ receivedIndices (transcript serde upstream).fragments,
        Prompt tools (fragmentsAt i (transcript serde upstream).fragments) := by
  obtain ⟨st, htracks, rfl, hitems, hsent⟩ :=
    responsesEvents_tracks serde upstream model requestKey tools hlast
  exact htracks.delivered_iff serde hsent hitems

/-- A call whose first fragment carries its id and its tool name is prompt. -/
theorem prompt_cons (tools : ToolNames) {f : Value} (h : isNamed [f] = true) (fs : List Value) :
    Prompt tools (f :: fs) := by
  refine ⟨isNamed_append h fs, fun _ before g after heq _ => ?_⟩
  cases before with
  | nil =>
    cases heq
    exact h
  | cons f' before =>
    cases heq
    exact isNamed_append h (before ++ [g])

/-- A call in one fragment with its id, its tool name and its arguments. -/
def promptCompletion : List Poll :=
  [.chunk (toUtf8 ("data: \x7b\"choices\":[\x7b\"delta\":\x7b\"tool_calls\":[\x7b\"id\":\"c\"," ++
      "\"function\":\x7b\"name\":\"ls\",\"arguments\":\"1\"\x7d\x7d]\x7d\x7d]\x7d\n\n")),
    .chunk (toUtf8 "data: [DONE]\n\n")]

/-- The completion is read as one fragment and ends. -/
theorem promptCompletion_reads (tools : ToolNames) :
    (transcript Compact.serde promptCompletion).fragments =
        [.obj [("id", .string "c"), ("function", .obj
          [("name", .string "ls"), ("arguments", .string "1")])]] ∧
      (responsesEvents Compact.serde promptCompletion "glm" "key" tools).getLast?.map Event.kind =
        some "response.completed" := by
  have htranscript : (transcript Compact.serde promptCompletion).chunks =
        [.obj [("choices", .array [.obj [("delta", .obj [("tool_calls", .array [.obj
          [("id", .string "c"), ("function", .obj
            [("name", .string "ls"), ("arguments", .string "1")])]])])]])]] ∧
      (transcript Compact.serde promptCompletion).last = .done ∧
      (transcript Compact.serde promptCompletion).Addressable := by
    decide +kernel
  obtain ⟨hchunks, hdone, haddressable⟩ := htranscript
  constructor
  · rw [Transcript.fragments, Transcript.spoken, hdone, hchunks]
    decide
  · rw [responsesEvents_getLast _ haddressable, Transcript.terminal, hdone, hchunks]
    rfl

/-- The call is delivered. -/
theorem responsesEvents_calls_prompt :
    CallsDelivered {} (transcript Compact.serde promptCompletion).fragments
      (responsesEvents Compact.serde promptCompletion "glm" "key" {}) := by
  obtain ⟨hfragments, hlast⟩ := promptCompletion_reads {}
  refine (responsesEvents_calls Compact.serde promptCompletion "glm" "key" {}
    ⟨_, by decide, hlast⟩).mpr ?_
  rw [hfragments]
  intro i hi
  have hzero : i = 0 := by
    revert hi
    decide +revert
  subst hzero
  exact prompt_cons {} (by decide) _

/-- A call whose fragments never carry a tool name. -/
def namelessCompletion : List Poll :=
  [.chunk (toUtf8 ("data: \x7b\"choices\":[\x7b\"delta\":\x7b\"tool_calls\":[\x7b\"id\":\"c\"," ++
      "\"function\":\x7b\"arguments\":\"1\"\x7d\x7d]\x7d\x7d]\x7d\n\n")),
    .chunk (toUtf8 "data: [DONE]\n\n")]

/-- The call is lost, and the response is presented as complete. -/
theorem responsesEvents_calls_nameless :
    (responsesEvents Compact.serde namelessCompletion "glm" "key" {}).getLast?.map Event.kind =
        some "response.completed" ∧
      ¬ CallsDelivered {} (transcript Compact.serde namelessCompletion).fragments
        (responsesEvents Compact.serde namelessCompletion "glm" "key" {}) := by
  have htranscript : (transcript Compact.serde namelessCompletion).chunks =
        [.obj [("choices", .array [.obj [("delta", .obj [("tool_calls", .array [.obj
          [("id", .string "c"), ("function", .obj [("arguments", .string "1")])]])])]])]] ∧
      (transcript Compact.serde namelessCompletion).last = .done ∧
      (transcript Compact.serde namelessCompletion).Addressable := by
    decide +kernel
  obtain ⟨hchunks, hdone, haddressable⟩ := htranscript
  have hevents : (responsesEvents Compact.serde namelessCompletion "glm" "key" {}).getLast?.map
        Event.kind = some "response.completed" ∧
      (responseItems (responsesEvents Compact.serde namelessCompletion "glm" "key" {})).filter
        isCallItem = [] ∧
      receivedIndices (transcript Compact.serde namelessCompletion).fragments = [0] := by
    rw [responsesEvents_eq _ haddressable, Synthesis.replay, Transcript.fragments,
      Transcript.spoken, hchunks, hdone]
    decide
  obtain ⟨hlast, hitems, hreceived⟩ := hevents
  refine ⟨hlast, ?_⟩
  rintro ⟨itemAt, hperm, -⟩
  rw [hitems, hreceived] at hperm
  exact absurd hperm.length_eq (by simp)

end MuseCodex.Zai
