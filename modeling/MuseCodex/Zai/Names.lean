import MuseCodex.Zai.Replay

/-!
# The table of tool names

Encoding a name is not injective: `a.b` and `a__b` have the same name on the wire. The table makes
it so, by refusing the later of two names that would share one. Over any sequence of records, the
names that were recorded are decoded to themselves in every later table, and nothing else is decoded
to another name (`record_codec`).

The table does not look at declarations, though, and recording a name twice is allowed, since the
calls of the history record the names of the tools that they call. So two declarations of the same
name are both sent (`translate_tools_nodup_iff`).
-/

namespace MuseCodex.Zai

open Text Json Fallible ToolNames

/-! ## Sequences of records -/

/-- A name to be recorded, and whether its tool is freeform. -/
abbrev NameCall := String × Bool

namespace ToolNames

/-- The name on the wire that a record returns, unless it is refused. -/
def returned (names : ToolNames) (call : NameCall) : Option String :=
  (names.record call.1 call.2).toOption.map Prod.fst

/-- The table after a record. A record that is refused returns before it changes anything. -/
def afterRecord (names : ToolNames) (call : NameCall) : ToolNames :=
  match names.record call.1 call.2 with
  | .ok (_, names') => names'
  | .error _ => names

/-- The table after a sequence of records, from the empty one. -/
def tableAfter (calls : List NameCall) : ToolNames := calls.foldl afterRecord {}

/-- The table after two runs of calls. -/
theorem tableAfter_append (calls calls' : List NameCall) :
    tableAfter (calls ++ calls') = calls'.foldl afterRecord (tableAfter calls) :=
  List.foldl_append

/-- A name is returned when it is recorded. -/
theorem returned_eq_some {names : ToolNames} {call : NameCall} {encoded : String} :
    names.returned call = some encoded ↔
      names.record call.1 call.2 = .ok (encoded, names.afterRecord call) := by
  unfold returned afterRecord
  cases hrecord : names.record call.1 call.2 with
  | error error => exact ⟨nofun, nofun⟩
  | ok result =>
    obtain ⟨encoded', names'⟩ := result
    constructor
    · intro h
      cases h
      rfl
    · intro h
      cases h
      rfl

/-- A record extends the table, whether or not it is refused. -/
theorem afterRecord_grows (names : ToolNames) (call : NameCall) :
    Grows names (names.afterRecord call) := by
  unfold afterRecord
  split
  · rename_i hrecord
    exact record_grows hrecord
  · exact Grows.refl names

/-- Records make the table grow. -/
theorem foldl_afterRecord_grows (calls : List NameCall) (names : ToolNames) :
    Grows names (calls.foldl afterRecord names) := by
  induction calls generalizing names with
  | nil => exact Grows.refl names
  | cons call calls ih => exact (afterRecord_grows names call).trans (ih _)

/-- A name that was returned is in every later table. -/
theorem get_tableAfter {before : List NameCall} {call : NameCall} {encoded : String}
    (h : (tableAfter before).returned call = some encoded) (after : List NameCall) :
    (tableAfter (before ++ call :: after)).decoded.get encoded = some call.1 := by
  obtain ⟨-, -, hnames⟩ := record_eq_ok.mp (returned_eq_some.mp h)
  rw [tableAfter_append, List.foldl_cons]
  refine (foldl_afterRecord_grows after _).kept encoded call.1 ?_
  rw [hnames]
  exact (Map.get_insert _ _ _ _).trans (if_pos rfl)

/-- What is in a table was returned by a record. -/
theorem exists_of_get_tableAfter {calls : List NameCall} {encoded original : String}
    (h : (tableAfter calls).decoded.get encoded = some original) :
    ∃ before call after, calls = before ++ call :: after ∧
      (tableAfter before).returned call = some encoded := by
  induction calls using List.reverseRecOn with
  | nil => cases h
  | append_singleton calls call ih =>
    rw [tableAfter_append, List.foldl_cons, List.foldl_nil] at h
    have hearlier (h : (tableAfter calls).decoded.get encoded = some original) :
        ∃ before call' after, calls ++ [call] = before ++ call' :: after ∧
          (tableAfter before).returned call' = some encoded := by
      obtain ⟨before, call', after, rfl, hreturned⟩ := ih h
      exact ⟨before, call', after ++ [call], by simp, hreturned⟩
    cases hreturned : (tableAfter calls).returned call with
    | none =>
      refine hearlier ?_
      unfold returned at hreturned
      unfold afterRecord at h
      cases hrecord : (tableAfter calls).record call.1 call.2 with
      | error error =>
        rw [hrecord] at h
        exact h
      | ok result =>
        rw [hrecord] at hreturned
        cases hreturned
    | some encoded' =>
      obtain ⟨-, -, hnames⟩ := record_eq_ok.mp (returned_eq_some.mp hreturned)
      have hget : ((tableAfter calls).afterRecord call).decoded.get encoded =
          if encoded = encoded' then some call.1 else (tableAfter calls).decoded.get encoded := by
        rw [hnames]
        exact Map.get_insert _ _ _ _
      rw [hget] at h
      split_ifs at h with hsame
      · exact ⟨calls, call, [], rfl, by rw [hsame]; exact hreturned⟩
      · exact hearlier h

/-- The records of a sequence make up an injective codec. -/
structure Codec (calls : List NameCall) : Prop where
  /-- A name that was recorded is decoded to itself in every later table. -/
  decodes : ∀ before call after encoded, calls = before ++ call :: after →
    (tableAfter before).returned call = some encoded → (tableAfter calls).decode encoded = call.1
  /-- Names that are different have different names on the wire. -/
  distinct : ∀ before call between call' after encoded,
    calls = before ++ call :: between ++ call' :: after →
    (tableAfter before).returned call = some encoded →
    (tableAfter (before ++ call :: between)).returned call' = some encoded → call.1 = call'.1
  /-- The later of two names that would share a name on the wire is refused. -/
  refuses : ∀ before call between call' after encoded,
    calls = before ++ call :: between ++ call' :: after →
    (tableAfter before).returned call = some encoded →
    encodeFunctionName call'.1 = .ok encoded → call.1 ≠ call'.1 →
    ∃ error, (tableAfter (before ++ call :: between)).record call'.1 call'.2 = .error error
  /-- A name on the wire is short and plain. -/
  wire : ∀ before call after encoded, calls = before ++ call :: after →
    (tableAfter before).returned call = some encoded → 1 ≤ encoded.utf8ByteSize ∧
      encoded.utf8ByteSize ≤ 64 ∧ ∀ c ∈ encoded.toList, isWireChar c = true
  /-- A name on the wire that was not returned is decoded to itself. -/
  unknown : ∀ encoded, (∀ before call after, calls = before ++ call :: after →
    (tableAfter before).returned call ≠ some encoded) → (tableAfter calls).decode encoded = encoded
  /-- A record that is refused does not change the table. -/
  unchanged : ∀ before call after error, calls = before ++ call :: after →
    (tableAfter before).record call.1 call.2 = .error error →
    tableAfter (before ++ [call]) = tableAfter before

/-- Every sequence of records is a codec. -/
theorem codec (calls : List NameCall) : Codec calls where
  decodes := by
    rintro before call after encoded rfl h
    rw [decode, get_tableAfter h after]
    rfl
  distinct := by
    rintro before call between call' after encoded - h h'
    obtain ⟨-, hsame, -⟩ := record_eq_ok.mp (returned_eq_some.mp h')
    exact hsame call.1 (get_tableAfter h between)
  refuses := by
    rintro before call between call' after encoded - h hencode hne
    cases hrecord : (tableAfter (before ++ call :: between)).record call'.1 call'.2 with
    | error error => exact ⟨error, rfl⟩
    | ok result =>
      obtain ⟨encoded', names'⟩ := result
      obtain ⟨hencode', hsame, -⟩ := record_eq_ok.mp hrecord
      cases hencode.symm.trans hencode'
      exact absurd (hsame call.1 (get_tableAfter h between)) hne
  wire := by
    rintro before call after encoded - h
    obtain ⟨hencode, -, -⟩ := record_eq_ok.mp (returned_eq_some.mp h)
    have hname := (encodeFunctionName_eq_ok.mp hencode).2
    unfold isWireName at hname
    rw [Bool.and_eq_true, Bool.and_eq_true, decide_eq_true_eq, decide_eq_true_eq,
      List.all_eq_true] at hname
    obtain ⟨⟨hne, hle⟩, hchars⟩ := hname
    refine ⟨Nat.pos_of_ne_zero fun hzero => hne ?_, hle, hchars⟩
    exact String.utf8ByteSize_eq_zero_iff.mp hzero
  unknown := by
    intro encoded h
    rw [decode]
    cases hget : (tableAfter calls).decoded.get encoded with
    | none => rfl
    | some original =>
      obtain ⟨before, call, after, hcalls, hreturned⟩ := exists_of_get_tableAfter hget
      exact absurd hreturned (h before call after hcalls)
  unchanged := by
    rintro before call after error - h
    rw [tableAfter_append, List.foldl_cons, List.foldl_nil, afterRecord, h]

end ToolNames

/-! ## The records of a request -/

/-- The name of a declared function or freeform tool. -/
def declaredCall (ns : Option String) (tool : Value) : Option NameCall :=
  tool.asObject.bind fun tool => match (tool.get "type").bind Value.asStr with
    | some "function" => (qualifiedName tool ns).toOption.map fun name => (name, false)
    | some "custom" => (qualifiedName tool ns).toOption.map fun name => (name, true)
    | _ => none

/-- The names that a tool declares: its own, or those of its namespace. -/
def declaredCalls (tool : Value) : List NameCall :=
  if (tool.get "type").bind Value.asStr = some "namespace" then
    match nonEmptyStr (tool.get "name"), (tool.get "tools").bind Value.asArray with
    | some ns, some nested => nested.filterMap (declaredCall (some ns))
    | _, _ => []
  else (declaredCall none tool).toList

/-- The tools of a request. -/
def requestTools (request : Value) : List Value :=
  ((request.get "tools").bind Value.asArray).getD []

/-- The name that an input item records: that of a call. -/
def historyCall (item : Value) : Option NameCall :=
  if isCallItem item then (nonEmptyStr (item.get "name")).map fun name => (name, isFreeformItem item)
  else none

/-- The names that a request records, in order: those of its tools and those of the calls of its
history. -/
def recordCalls (request : Value) : List NameCall :=
  (requestTools request).flatMap declaredCalls ++ (inputItems request).filterMap historyCall

/-- A sequence of records none of which is refused. -/
def Accepted (calls : List NameCall) : Prop :=
  ∀ before call after, calls = before ++ call :: after →
    ∃ encoded, (tableAfter before).returned call = some encoded

/-- One more record that is not refused. -/
theorem Accepted.concat {calls : List NameCall} (h : Accepted calls) (call : NameCall)
    {encoded : String} {names : ToolNames}
    (hrecord : (tableAfter calls).record call.1 call.2 = .ok (encoded, names)) :
    Accepted (calls ++ [call]) ∧ tableAfter (calls ++ [call]) = names := by
  have hreturned : (tableAfter calls).returned call = some encoded := by
    rw [returned, hrecord]
    rfl
  constructor
  · intro before call' after heq
    rcases List.eq_nil_or_concat' after with rfl | ⟨after, last, rfl⟩
    · obtain ⟨rfl, hlast⟩ := List.append_inj' heq rfl
      cases hlast
      exact ⟨encoded, hreturned⟩
    · rw [← List.cons_append, ← List.append_assoc] at heq
      obtain ⟨rfl, -⟩ := List.append_inj' heq rfl
      exact h before call' after rfl
  · rw [tableAfter_append, List.foldl_cons, List.foldl_nil, afterRecord, hrecord]

/-- A name that is recorded is decoded from its encoding. -/
theorem Accepted.decode {calls : List NameCall} (h : Accepted calls) {call : NameCall}
    (hcall : call ∈ calls) : (tableAfter calls).decode (replaceSeparator call.1) = call.1 := by
  obtain ⟨before, after, hcalls⟩ := List.append_of_mem hcall
  obtain ⟨encoded, hreturned⟩ := h before call after hcalls
  obtain ⟨hencode, -, -⟩ := record_eq_ok.mp (returned_eq_some.mp hreturned)
  rw [← (encodeFunctionName_eq_ok.mp hencode).1]
  exact (codec calls).decodes before call after encoded hcalls hreturned

/-- The name of a tool on the wire. -/
def functionName (tool : Value) : Option String :=
  ((tool.get "function").bind (·.get "name")).bind Value.asStr

/-- Tools that declare some names, and the table of these names. -/
structure Declares (calls : List NameCall) (acc : List Value × ToolNames) : Prop where
  accepted : Accepted calls
  table : acc.2 = tableAfter calls
  names : acc.1.map functionName = calls.map fun call => some (replaceSeparator call.1)

/-- A tool that is declared, after the tools before it. -/
theorem Declares.declaredTool {calls : List NameCall} {acc : List Value × ToolNames}
    (h : Declares calls acc) {freeform : Bool} {parameters : Value} {tool : Map Value}
    {ns : Option String} {declared : Value} {names : ToolNames}
    (hok : Zai.declaredTool freeform parameters tool ns acc.2 = .ok (declared, names)) :
    ∃ original, qualifiedName tool ns = .ok original ∧
      Declares (calls ++ [(original, freeform)]) (acc.1 ++ [declared], names) := by
  obtain ⟨original, hname, hok⟩ := bind_eq_ok.mp hok
  obtain ⟨⟨encoded, names'⟩, hrecord, hok⟩ := bind_eq_ok.mp hok
  cases hok
  rw [h.table] at hrecord
  obtain ⟨haccepted, htable⟩ := h.accepted.concat (original, freeform) hrecord
  refine ⟨original, hname, haccepted, htable.symm, ?_⟩
  -- The name of the declaration is the encoding of the original.
  obtain ⟨hencode, -, -⟩ := record_eq_ok.mp hrecord
  have hencoded := (encodeFunctionName_eq_ok.mp hencode).1
  have hfunction : functionName (.obj [("type", .string "function"),
      ("function", .obj ([("name", .string encoded)] ++
        (((tool.get "description").bind Value.asStr).map fun description =>
          ("description", Value.string description)).toList ++
        [("parameters", parameters)]))]) = some encoded := by
    cases (tool.get "description").bind Value.asStr <;>
      simp [functionName, Value.obj, Map.ofEntries]
  rw [List.map_append, List.map_append, h.names, List.map_singleton, List.map_singleton,
    ← hencoded]
  exact congrArg _ (congrArg (fun name => [name]) hfunction)

/-- A tool of either sort, after the tools before it. -/
theorem Declares.declared {calls : List NameCall} {acc acc' : List Value × ToolNames}
    (h : Declares calls acc) {freeform : Bool} {declare : Map Value → Option String → ToolNames →
      Except String (Value × ToolNames)}
    (hdeclare : declare = functionTool ∧ freeform = false ∨ declare = customTool ∧ freeform = true)
    {tool : Map Value} {ns : Option String}
    (hok : (do
      let (translated, names) ← declare tool ns acc.2
      return (acc.1 ++ [translated], names)) = .ok acc') :
    Declares (calls ++ ((qualifiedName tool ns).toOption.map fun name => (name, freeform)).toList)
      acc' := by
  obtain ⟨⟨translated, names⟩, hdeclared, hok⟩ := bind_eq_ok.mp hok
  cases hok
  rcases hdeclare with ⟨rfl, rfl⟩ | ⟨rfl, rfl⟩
  · obtain ⟨original, hname, hdeclares⟩ := h.declaredTool hdeclared
    rw [hname]
    exact hdeclares
  · obtain ⟨original, hname, hdeclares⟩ := h.declaredTool hdeclared
    rw [hname]
    exact hdeclares

/-- A tool of a namespace declares its name. -/
theorem Declares.nestedTool {calls : List NameCall} {acc acc' : List Value × ToolNames}
    (h : Declares calls acc) {ns : String} {tool : Value}
    (hok : translateNestedTool ns acc tool = .ok acc') :
    Declares (calls ++ (declaredCall (some ns) tool).toList) acc' := by
  unfold translateNestedTool at hok
  split at hok
  · rename_i object hobject
    split at hok
    · rename_i htype
      rw [declaredCall, hobject, Option.bind_some, htype]
      exact h.declared (.inl ⟨rfl, rfl⟩) hok
    · rename_i htype
      rw [declaredCall, hobject, Option.bind_some, htype]
      exact h.declared (.inr ⟨rfl, rfl⟩) hok
    · cases hok
  · cases hok

/-- A tool declares its names. -/
theorem Declares.tool {calls : List NameCall} {acc acc' : List Value × ToolNames}
    (h : Declares calls acc) {tool : Value} (hok : translateTool acc tool = .ok acc') :
    Declares (calls ++ declaredCalls tool) acc' := by
  unfold translateTool at hok
  unfold declaredCalls declaredCall
  split at hok
  · rename_i object hobject
    have hget (key : String) : tool.get key = Map.get object key := by
      rw [Value.asObject_eq_some hobject, Value.get_object]
    rw [hobject, Option.bind_some, hget, hget, hget]
    split at hok
    · rename_i htype
      rw [htype, if_neg (by decide)]
      exact h.declared (.inl ⟨rfl, rfl⟩) hok
    · rename_i htype
      rw [htype, if_neg (by decide)]
      exact h.declared (.inr ⟨rfl, rfl⟩) hok
    · rename_i htype
      rw [htype, if_pos rfl]
      split at hok
      · rename_i ns hns
        split at hok
        · rename_i nested hnested
          rw [hns, hnested]
          -- The tools of the namespace one after the other.
          have hrun := foldlM_inv (I := fun before acc =>
              Declares (calls ++ before.filterMap (declaredCall (some ns))) acc)
            (fun hdeclares hstep => ?_) (by rw [List.filterMap_nil, List.append_nil]; exact h) hok
          · exact hrun
          · rw [List.filterMap_append, ← List.append_assoc]
            exact hdeclares.nestedTool hstep
        · cases hok
      · cases hok
    · cases hok
  · cases hok

/-- The tools of a request declare their names. -/
theorem translateTools_declares {object : Map Value} {tools : List Value} {names : ToolNames}
    (h : translateTools (object.get "tools") {} = .ok (tools, names)) :
    Declares ((requestTools (.object object)).flatMap declaredCalls) (tools, names) := by
  have hempty : Declares [] ([], {}) := ⟨fun before call after h => by simp at h, rfl, rfl⟩
  unfold translateTools at h
  unfold requestTools
  rw [Value.get_object]
  cases hget : object.get "tools" with
  | none =>
    rw [hget] at h
    cases h
    exact hempty
  | some value =>
    rw [hget] at h
    split at h
    · rename_i hnull
      have hvalue : value = .null := by
        cases value <;> simp [Option.filter, Value.isNull] at hnull ⊢
      cases h
      rw [hvalue]
      exact hempty
    · rename_i value' hvalue
      cases Option.filter_eq_some_iff.mp hvalue |>.1
      split at h
      · cases h
      · rename_i tools' harray
        rw [Option.bind_some, harray, Option.getD_some]
        have hstart : Declares (([] : List Value).flatMap declaredCalls) ([], {}) := hempty
        have hrun := foldlM_inv (I := fun before acc => Declares (before.flatMap declaredCalls) acc)
          (fun hdeclares hstep => ?_) hstart h
        · exact hrun
        · rw [List.flatMap_append, List.flatMap_singleton]
          exact hdeclares.tool hstep

section

variable (serde : Serde) {limits : ModelLimits}

/-- An input item records the name of a call, and no other. -/
theorem translateItem_records {calls : List NameCall} {acc acc' : List Value × ToolNames}
    (haccepted : Accepted calls) (htable : acc.2 = tableAfter calls) {item : Value}
    (hok : translateItem serde limits acc item = .ok acc') :
    Accepted (calls ++ (historyCall item).toList) ∧
      acc'.2 = tableAfter (calls ++ (historyCall item).toList) := by
  cases hitem : isCallItem item with
  | false =>
    obtain ⟨messages, -, rfl⟩ := translateItem_plain_ok serde hitem hok
    rw [historyCall, if_neg (by simp [hitem]), Option.toList_none, List.append_nil]
    exact ⟨haccepted, htable⟩
  | true =>
    obtain ⟨name, encoded, call, ⟨hname, -, -⟩, hrecord, -⟩ :=
      (translateItem_call serde hitem limits).mp hok
    rw [htable] at hrecord
    rw [historyCall, if_pos hitem, hname, Option.map_some, Option.toList_some]
    obtain ⟨haccepted', htable'⟩ := haccepted.concat (name, isFreeformItem item) hrecord
    exact ⟨haccepted', htable'.symm⟩

/-- The table of an accepted request is that of its records, none of which is refused; its tools on
the wire have the names of those that it declares. -/
theorem translate_records {request : Value} {translated : TranslatedRequest}
    (h : translate serde request limits = .ok translated) :
    Accepted (recordCalls request) ∧ translated.tools = tableAfter (recordCalls request) ∧
      (wireTools translated.body).map functionName =
        ((requestTools request).flatMap declaredCalls).map fun call =>
          some (replaceSeparator call.1) := by
  obtain ⟨object, tools, names, messages, rfl, htools, hrun, -, hwire⟩ := translate_eq_ok serde h
  have hdeclares := translateTools_declares htools
  have hrecords := foldlM_inv (I := fun before (acc : List Value × ToolNames) =>
      Accepted ((requestTools (.object object)).flatMap declaredCalls ++
          before.filterMap historyCall) ∧
        acc.2 = tableAfter ((requestTools (.object object)).flatMap declaredCalls ++
          before.filterMap historyCall))
    (fun hinv hstep => ?_)
    (by rw [List.filterMap_nil, List.append_nil]; exact ⟨hdeclares.accepted, hdeclares.table⟩) hrun
  · rw [hwire]
    exact ⟨hrecords.1, hrecords.2, hdeclares.names⟩
  · rw [List.filterMap_append, ← List.append_assoc]
    exact translateItem_records serde hinv.1 hinv.2 hstep

/-- Every sequence of records makes up an injective codec, and the table of an accepted request is
that of the names that it declares and calls. -/
theorem record_codec : (∀ calls, Codec calls) ∧
    ∀ request limits translated, translate serde request limits = .ok translated →
      Accepted (recordCalls request) ∧ translated.tools = tableAfter (recordCalls request) := by
  refine ⟨codec, fun request limits translated h => ?_⟩
  obtain ⟨haccepted, htable, -⟩ := translate_records serde h
  exact ⟨haccepted, htable⟩

end

/-- A request that declares the function `b` of the namespace `a`, and a function. -/
def dottedRequest (name : String) : Value :=
  .obj [("model", .string "glm"), ("tools", .array [
    .obj [("type", .string "namespace"), ("name", .string "a"), ("tools", .array
      [.obj [("type", .string "function"), ("name", .string "b")]])],
    .obj [("type", .string "function"), ("name", .string name)]])]

/-- The function of the namespace has the name `a__b` on the wire, and is decoded from it; another
tool of that name is refused. -/
theorem record_codec_dotted :
    (∃ translated, translate Compact.serde (dottedRequest "c") ⟨true, 1, le_refl 1⟩ =
      .ok translated ∧ translated.tools = tableAfter (recordCalls (dottedRequest "c")) ∧
      translated.tools.decode "a__b" = "a.b") ∧
    ∃ error, (tableAfter [("a.b", false)]).record "a__b" false = .error error := by
  obtain ⟨hcodec, hrequest⟩ := record_codec Compact.serde
  obtain ⟨translated, hok⟩ : ∃ translated,
      translate Compact.serde (dottedRequest "c") ⟨true, 1, le_refl 1⟩ = .ok translated :=
    exists_eq_ok (by decide)
  obtain ⟨-, htable⟩ := hrequest _ _ _ hok
  have hcalls : recordCalls (dottedRequest "c") = [] ++ ("a.b", false) :: [("c", false)] := by
    decide
  refine ⟨⟨translated, hok, htable, ?_⟩, ?_⟩
  · rw [htable]
    exact (hcodec _).decodes _ _ _ "a__b" hcalls (by decide)
  · exact (hcodec [("a.b", false), ("a__b", false)]).refuses [] ("a.b", false) [] ("a__b", false)
      [] "a__b" rfl (by decide) (by decide) (by decide)

section

variable (serde : Serde) {limits : ModelLimits}

/-- The names that a request declares. -/
def declaredNames (request : Value) : List String :=
  ((requestTools request).flatMap declaredCalls).map Prod.fst

/-- The tools of an accepted request have different names on the wire exactly when they have
different names in the request. -/
theorem translate_tools_nodup_iff {request : Value} {translated : TranslatedRequest}
    (h : translate serde request limits = .ok translated) :
    ((wireTools translated.body).map functionName).Nodup ↔ (declaredNames request).Nodup := by
  obtain ⟨haccepted, -, hnames⟩ := translate_records serde h
  have hmap : ((requestTools request).flatMap declaredCalls).map
      (fun call => some (replaceSeparator call.1)) =
        (declaredNames request).map (some ∘ replaceSeparator) := by
    rw [declaredNames, List.map_map]
    rfl
  rw [hnames, hmap]
  constructor
  · exact List.Nodup.of_map _
  · intro hnodup
    refine hnodup.map_on ?_
    -- The table gives each name back from its encoding.
    have hdecode {name : String} (hname : name ∈ declaredNames request) :
        (tableAfter (recordCalls request)).decode (replaceSeparator name) = name := by
      obtain ⟨call, hcall, rfl⟩ := List.mem_map.mp hname
      exact haccepted.decode (List.mem_append_left _ hcall)
    intro name hname name' hname' hsame
    rw [← hdecode hname, ← hdecode hname', Option.some.inj hsame]

end

/-- The two tools of the request have different names. -/
theorem translate_tools_nodup_iff_dotted :
    ∃ translated, translate Compact.serde (dottedRequest "c") ⟨true, 1, le_refl 1⟩ =
      .ok translated ∧ ((wireTools translated.body).map functionName).Nodup := by
  obtain ⟨translated, hok⟩ : ∃ translated,
      translate Compact.serde (dottedRequest "c") ⟨true, 1, le_refl 1⟩ = .ok translated :=
    exists_eq_ok (by decide)
  exact ⟨translated, hok, (translate_tools_nodup_iff Compact.serde hok).mpr (by decide)⟩

/-- A function and the function of a namespace that have the same dotted name are both declared
under one name on the wire. -/
theorem translate_tools_duplicate :
    ∃ translated, translate Compact.serde (dottedRequest "a.b") ⟨true, 1, le_refl 1⟩ =
        .ok translated ∧
      (wireTools translated.body).map functionName = [some "a__b", some "a__b"] ∧
      ¬ ((wireTools translated.body).map functionName).Nodup := by
  obtain ⟨translated, hok⟩ : ∃ translated,
      translate Compact.serde (dottedRequest "a.b") ⟨true, 1, le_refl 1⟩ = .ok translated :=
    exists_eq_ok (by decide)
  have hnames : (translate Compact.serde (dottedRequest "a.b") ⟨true, 1, le_refl 1⟩).toOption.map
      (fun translated => (wireTools translated.body).map functionName) =
        some [some "a__b", some "a__b"] := by
    decide
  rw [hok] at hnames
  have hnames : (wireTools translated.body).map functionName = [some "a__b", some "a__b"] :=
    Option.some.inj hnames
  refine ⟨translated, hok, hnames, ?_⟩
  rw [hnames]
  decide

end MuseCodex.Zai
