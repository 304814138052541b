import MuseCodex.Transport.Dialects

/-!
# The namespaces of calls

Muse records a call of a function of a namespace under the dotted name of the two, and the request
needs them apart again. The functions of the namespaces are collected under their dotted names
(`Collected`); a dotted name that could be split in two ways, or that a standalone function has, is
refused, so a dotted name that is known has one split. A call without a namespace whose name is
known gets that split back, and every other call keeps its namespace and its name
(`normalizeResponseItem_namespace`).
-/

namespace MuseCodex.Transport

open Text Json Fallible

/-! ## The functions of namespaces -/

/-- The dotted name of a function of a namespace. -/
def dotted (pair : String × String) : String := pair.1 ++ "." ++ pair.2

/-- The functions of a tool that is a namespace, with its name. -/
def namespaceFunctions (tool : Value) : List (String × String) :=
  match toolName "namespace" tool, (tool.get "tools").bind Value.asArray with
  | some ns, some namespaceTools => (namespaceTools.filterMap (toolName "function")).map (ns, ·)
  | _, _ => []

/-- The functions of namespaces that some tools declare. -/
def advertised (tools : List Value) : List (String × String) := tools.flatMap namespaceFunctions

/-- The standalone functions that some tools declare. -/
def standaloneNames (tools : List Value) : List String := tools.filterMap (toolName "function")

/-- The calls under whose dotted names some functions of namespaces are. -/
structure Collected (standalone : List String) (pairs : List (String × String))
    (calls : NamespaceCallMap) : Prop where
  get : ∀ key pair, calls.get key = some pair ↔ pair ∈ pairs ∧ dotted pair = key
  standalone : ∀ pair ∈ pairs, dotted pair ∉ standalone

/-- Two functions with the same dotted name are one. -/
theorem Collected.unique {standalone : List String} {pairs : List (String × String)}
    {calls : NamespaceCallMap} (h : Collected standalone pairs calls) {p q : String × String}
    (hp : p ∈ pairs) (hq : q ∈ pairs) (hsame : dotted p = dotted q) : p = q := by
  have hfirst : calls.get (dotted p) = some p := (h.get _ _).mpr ⟨hp, rfl⟩
  have hsecond : calls.get (dotted p) = some q := (h.get _ _).mpr ⟨hq, hsame.symm⟩
  exact Option.some.inj (hfirst.symm.trans hsecond)

/-- One more tool of a namespace. -/
theorem collectNamespaceCall_collected {standalone : List String} {ns : String}
    {pairs : List (String × String)} {calls calls' : NamespaceCallMap} {tool : Value}
    (h : Collected standalone pairs calls)
    (hstep : collectNamespaceCall standalone ns calls tool = .ok calls') :
    Collected standalone (pairs ++ ((toolName "function" tool).map (ns, ·)).toList) calls' := by
  unfold collectNamespaceCall at hstep
  cases hname : toolName "function" tool with
  | none =>
    rw [hname] at hstep
    cases hstep
    simpa using h
  | some name =>
    rw [hname] at hstep
    dsimp only at hstep
    split_ifs at hstep with hstandalone hambiguous
    cases hstep
    rw [Option.map_some, Option.toList_some]
    -- What is already under the dotted name is the same function.
    have hprevious : ∀ pair ∈ pairs, dotted pair = dotted (ns, name) → pair = (ns, name) := by
      intro pair hpair hsame
      have hget : calls.get (dotted (ns, name)) = some pair := (h.get _ _).mpr ⟨hpair, hsame⟩
      by_contra hne
      apply hambiguous
      change (calls.get (dotted (ns, name))).any _ = true
      rw [hget]
      simpa using hne
    refine ⟨fun key pair => ?_, fun pair hpair => ?_⟩
    · rw [Map.get_insert, List.mem_append, List.mem_singleton]
      change (if key = dotted (ns, name) then _ else _) = _ ↔ _
      split_ifs with hkey
      · constructor
        · rintro ⟨⟩
          exact ⟨.inr rfl, hkey.symm⟩
        · rintro ⟨hpair | rfl, hdotted⟩
          · rw [hprevious pair hpair (hdotted.trans hkey)]
          · rfl
      · rw [h.get]
        constructor
        · exact fun ⟨hpair, hdotted⟩ => ⟨.inl hpair, hdotted⟩
        · rintro ⟨hpair | rfl, hdotted⟩
          · exact ⟨hpair, hdotted⟩
          · exact absurd hdotted.symm hkey
    · rcases List.mem_append.mp hpair with hpair | hpair
      · exact h.standalone pair hpair
      · rw [List.mem_singleton.mp hpair]
        exact hstandalone

/-- One more tool. -/
theorem collectNamespace_collected {standalone : List String} {pairs : List (String × String)}
    {calls calls' : NamespaceCallMap} {tool : Value} (h : Collected standalone pairs calls)
    (hstep : collectNamespace standalone calls tool = .ok calls') :
    Collected standalone (pairs ++ namespaceFunctions tool) calls' := by
  unfold collectNamespace at hstep
  split at hstep
  · rename_i ns namespaceTools hname htools
    rw [namespaceFunctions, hname, htools]
    have hstart : Collected standalone
        (pairs ++ (([] : List Value).filterMap (toolName "function")).map (ns, ·)) calls := by
      simpa using h
    have hrun := foldlM_inv (I := fun before calls =>
        Collected standalone (pairs ++ (before.filterMap (toolName "function")).map (ns, ·)) calls)
      (fun hinv hstep => ?_) hstart hstep
    · simpa using hrun
    · have hmore := collectNamespaceCall_collected hinv hstep
      rw [List.append_assoc] at hmore
      rw [List.filterMap_append, List.map_append]
      convert hmore using 3
      rw [List.filterMap_cons]
      cases toolName "function" _ <;> rfl
  · rename_i hnot
    cases hstep
    unfold namespaceFunctions
    split
    · rename_i hname htools
      exact absurd htools (hnot _ _ hname)
    · rwa [List.append_nil]

/-- The calls of some tools are their functions of namespaces, under their dotted names. -/
theorem collectNamespaceCalls_collected {tools : List Value} {calls : NamespaceCallMap}
    (h : collectNamespaceCalls tools = .ok calls) :
    Collected (standaloneNames tools) (advertised tools) calls := by
  have hempty : Collected (standaloneNames tools) (advertised []) [] :=
    ⟨fun key pair => ⟨nofun, fun ⟨hpair, _⟩ => nomatch hpair⟩, nofun⟩
  have hrun := foldlM_inv (I := fun before calls =>
      Collected (standaloneNames tools) (advertised before) calls)
    (fun hinv hstep => ?_) hempty h
  · rwa [List.nil_append] at hrun
  · have hmore := collectNamespace_collected hinv hstep
    unfold advertised
    rw [List.flatMap_append, List.flatMap_singleton]
    exact hmore

/-! ## The calls of the history -/

/-- A text of a document. -/
def textAt (item : Value) (key : String) : Option String := (item.get key).bind Value.asStr

/-- The name of a call, with its namespace if it has one. -/
def callName (item : Value) : Option String :=
  (textAt item "name").map fun name =>
    match textAt item "namespace" with
    | some ns => dotted (ns, name)
    | none => name

/-- A call that was read and written again. Its namespace is an optional text, which is written
only if there is one. -/
structure SameCall (item written : Value) : Prop where
  type : textAt written "type" = some "function_call"
  name : textAt written "name" = textAt item "name"
  ns : written.get "namespace" = (textAt item "namespace").map .string
  callId : written.get "call_id" = item.get "call_id"
  arguments : written.get "arguments" = item.get "arguments"

/-- The items that the library writes for one that it has read: the item, or the item without its
id. -/
def ItemLibrary.Writes (items : ItemLibrary) (item written : Value) : Prop :=
  ∃ parsed, items.fromValue item = .ok parsed ∧
    (items.toValue parsed = .ok written ∨ items.toValue (items.clearId parsed) = .ok written)

/-- A library that keeps the members of calls. -/
def ItemLibrary.KeepsCalls (items : ItemLibrary) : Prop :=
  ∀ item written, textAt item "type" = some "function_call" → items.Writes item written →
    SameCall item written

section

variable {items : ItemLibrary}

/-- An item is read and written again. -/
theorem writes_of_reserialize {item written : Value} {index : ℕ}
    (h : reserialize items item index = .ok written) : items.Writes item written := by
  unfold reserialize at h
  split at h
  · cases h
  · rename_i parsed hparsed
    split at h
    · cases h
    · dsimp only at h
      refine ⟨parsed, hparsed, ?_⟩
      split at h
      · cases h
      · rename_i written' hwritten
        cases h
        split_ifs at hwritten
        · exact .inr hwritten
        · exact .inl hwritten

/-- A call is not a message, so nothing is done to it before it is read. -/
theorem normalizeResponseItem_call {item normalized : Value} {index : ℕ} {calls : NamespaceCallMap}
    (htype : textAt item "type" = some "function_call")
    (h : normalizeResponseItem items item index calls = .ok normalized) :
    ∃ written, reserialize items item index = .ok written ∧
      normalized = removeResultName (restoreNamespace calls written) := by
  unfold normalizeResponseItem at h
  cases item with
  | object object =>
    have hget : (Map.get object "type").bind Value.asStr = some "function_call" := htype
    rw [Value.asObject_object] at h
    dsimp only at h
    rw [hget] at h
    dsimp only at h
    split_ifs at h with hknown hmessage
    · exact absurd hmessage (by decide)
    · obtain ⟨object', hsame, h⟩ := bind_eq_ok.mp h
      cases hsame
      obtain ⟨written, hwritten, h⟩ := bind_eq_ok.mp h
      cases h
      exact ⟨written, hwritten, rfl⟩
  | _ => cases htype

/-- A call keeps its name when the name of a result is removed. -/
theorem removeResultName_call {item : Value} (h : textAt item "type" = some "function_call") :
    removeResultName item = item := by
  unfold textAt at h
  unfold removeResultName
  split
  · rename_i hresult
    exact absurd (h.symm.trans hresult) (by decide)
  · rename_i hresult
    exact absurd (h.symm.trans hresult) (by decide)
  · rfl

/-- What restoring does to a call without a namespace: its name is split if it is known. -/
theorem restoreNamespace_call {written : Value} {calls : NamespaceCallMap}
    (htype : textAt written "type" = some "function_call") :
    (∃ pair name, written.get "namespace" = none ∧ textAt written "name" = some name ∧
      calls.get name = some pair ∧ ∃ object, written = .object object ∧
        restoreNamespace calls written = .object (Map.insert
          (Map.insert object "namespace" (.string pair.1)) "name" (.string pair.2))) ∨
    ((∀ name, written.get "namespace" = none → textAt written "name" = some name →
      calls.get name = none) ∧ restoreNamespace calls written = written) := by
  unfold textAt at htype ⊢
  have hsplit : namespaceSplit written calls =
      if (written.get "namespace").isNone then
        ((written.get "name").bind Value.asStr).bind calls.get
      else none := by
    unfold namespaceSplit
    rw [htype, decide_eq_true rfl, Bool.true_and]
  cases written with
  | object object =>
    unfold restoreNamespace
    rw [hsplit]
    by_cases hns : (Value.object object).get "namespace" = none
    · rw [hns, Option.isNone_none, if_pos rfl]
      cases hname : ((Value.object object).get "name").bind Value.asStr with
      | none => exact .inr ⟨nofun, rfl⟩
      | some name =>
        rw [Option.bind_some]
        cases hcall : calls.get name with
        | none =>
          refine .inr ⟨fun name' _ hname' => ?_, rfl⟩
          cases hname'
          exact hcall
        | some pair =>
          exact .inl ⟨pair, name, rfl, rfl, hcall, object, rfl, rfl⟩
    · -- A call that names its namespace is left alone.
      rw [if_neg (by simpa using hns)]
      exact .inr ⟨fun name hnone => absurd hnone hns, rfl⟩
  | _ => cases htype

end

/-- What becomes of a call of the history, when some functions of namespaces are advertised. -/
structure RestoresCall (pairs : List (String × String)) (item normalized : Value) : Prop where
  /-- A call without a namespace whose name is the dotted name of a function is split. -/
  split : ∀ pair ∈ pairs, textAt item "namespace" = none →
    textAt item "name" = some (dotted pair) →
    textAt normalized "namespace" = some pair.1 ∧ textAt normalized "name" = some pair.2
  /-- Every other call stays as it is. -/
  others : (∀ pair ∈ pairs, ¬ (textAt item "namespace" = none ∧
      textAt item "name" = some (dotted pair))) →
    textAt normalized "namespace" = textAt item "namespace" ∧
      textAt normalized "name" = textAt item "name"
  callName : callName normalized = callName item
  callId : normalized.get "call_id" = item.get "call_id"
  arguments : normalized.get "arguments" = item.get "arguments"

/-- Tools that are accepted give each dotted name one split and none to a standalone function, and
then exactly the calls without a namespace that have a dotted name of theirs are split; all keep
the name that the namespace and the name make up, the id and the arguments. -/
theorem normalizeResponseItem_namespace (items : ItemLibrary) (hitems : items.KeepsCalls)
    (tools : List Value) (calls : NamespaceCallMap) (hcalls : collectNamespaceCalls tools = .ok calls) :
    (∀ p ∈ advertised tools, ∀ q ∈ advertised tools, dotted p = dotted q → p = q) ∧
      (∀ p ∈ advertised tools, dotted p ∉ standaloneNames tools) ∧
      ∀ item index normalized, textAt item "type" = some "function_call" →
        normalizeResponseItem items item index calls = .ok normalized →
        RestoresCall (advertised tools) item normalized := by
  have hcollected := collectNamespaceCalls_collected hcalls
  refine ⟨fun p hp q hq => hcollected.unique hp hq, hcollected.standalone, ?_⟩
  intro item index normalized htype h
  obtain ⟨written, hwritten, rfl⟩ := normalizeResponseItem_call htype h
  have hsame := hitems item written htype (writes_of_reserialize hwritten)
  have hns : textAt written "namespace" = textAt item "namespace" := by
    rw [textAt, hsame.ns]
    cases textAt item "namespace" with
    | none => rfl
    | some ns => rfl
  have hnone : written.get "namespace" = none ↔ textAt item "namespace" = none := by
    rw [hsame.ns, Option.map_eq_none_iff]
  rcases restoreNamespace_call hsame.type with
    ⟨pair, name, habsent, hname, hget, object, rfl, hrestored⟩ | ⟨hunknown, hrestored⟩
  · -- The name is the dotted name of the pair, and of no other.
    obtain ⟨hpair, rfl⟩ := (hcollected.get _ _).mp hget
    rw [hsame.name] at hname
    have habsent := hnone.mp habsent
    have htext (key : String) (v : Value) (other : String) (hne : other ≠ key) (m : Map Value) :
        (Map.insert m key v).get other = m.get other := by
      rw [Map.get_insert, if_neg hne]
    have hread (other : String) (hne : other ≠ "name") (hne' : other ≠ "namespace") :
        (restoreNamespace calls (.object object)).get other = (Value.object object).get other := by
      rw [hrestored, Value.get_object, htext _ _ _ hne, htext _ _ _ hne', Value.get_object]
    have hcall : textAt (restoreNamespace calls (.object object)) "type" = some "function_call" := by
      unfold textAt
      rw [hread _ (by decide) (by decide)]
      exact hsame.type
    -- The pair is written into the two members that were read.
    have hnew : textAt (restoreNamespace calls (.object object)) "namespace" = some pair.1 ∧
        textAt (restoreNamespace calls (.object object)) "name" = some pair.2 := by
      rw [hrestored]
      simp [textAt]
    rw [removeResultName_call hcall]
    refine ⟨?_, ?_, ?_, ?_, ?_⟩
    · intro other hother _ hdotted
      rw [hname] at hdotted
      rw [hcollected.unique hother hpair (Option.some.inj hdotted).symm]
      exact hnew
    · intro hothers
      exact absurd ⟨habsent, hname⟩ (hothers pair hpair)
    · simp [callName, hnew.1, hnew.2, habsent, hname]
    · rw [hread _ (by decide) (by decide), hsame.callId]
    · rw [hread _ (by decide) (by decide), hsame.arguments]
  · rw [hrestored, removeResultName_call hsame.type]
    refine ⟨?_, fun _ => ⟨hns, hsame.name⟩, ?_, hsame.callId, hsame.arguments⟩
    · -- An advertised name would have been found.
      intro pair hpair habsent hname
      have hget : calls.get (dotted pair) = some pair := (hcollected.get _ _).mpr ⟨hpair, rfl⟩
      rw [hunknown _ (hnone.mpr habsent) (hsame.name.trans hname)] at hget
      cases hget
    · rw [callName, callName, hns, hsame.name]

/-- A library that reads an optional namespace, and leaves it out if it is null. -/
def optionalItems : ItemLibrary where
  Item := Value
  fromValue
    | .object item => match Map.get item "namespace" with
      | none | some (.string _) => .ok (.object item)
      | some .null => .ok (.object (Map.erase item "namespace"))
      | some _ => .error "invalid type: expected a string"
    | _ => .error "invalid type: expected a map"
  isOther _ := false
  id item := (item.get "id").bind Value.asStr
  clearId
    | .object item => .object (Map.erase item "id")
    | item => item
  toValue := .ok
  isReasoningText part := textAt part "type" = some "reasoning_text"

/-- The library keeps calls. -/
theorem optionalItems_keepsCalls : optionalItems.KeepsCalls := by
  rintro item written htype ⟨parsed, hparsed, hwritten⟩
  cases item with
  | object object =>
    -- What is read has the members of the item, but for a namespace that is null.
    have hread : ∃ m, parsed = .object m ∧
        (∀ key, key ≠ "namespace" → Map.get m key = Map.get object key) ∧
        Map.get m "namespace" = (textAt (.object object) "namespace").map .string := by
      unfold textAt
      simp only [optionalItems] at hparsed
      split at hparsed
      · rename_i hget
        cases hparsed
        exact ⟨object, rfl, fun _ _ => rfl, by rw [Value.get_object, hget]; rfl⟩
      · rename_i ns hget
        cases hparsed
        exact ⟨object, rfl, fun _ _ => rfl, by rw [Value.get_object, hget]; rfl⟩
      · rename_i hget
        cases hparsed
        refine ⟨_, rfl, fun key hkey => ?_, ?_⟩
        · rw [Map.get_erase, if_neg hkey]
        · rw [Map.get_erase, if_pos rfl, Value.get_object, hget]
          rfl
      · cases hparsed
    obtain ⟨m, rfl, hothers, hns⟩ := hread
    have hwrites : ∃ m', written = .object m' ∧
        ∀ key, key ≠ "id" → Map.get m' key = Map.get m key := by
      rcases hwritten with hwritten | hwritten
      · cases hwritten
        exact ⟨m, rfl, fun _ _ => rfl⟩
      · cases hwritten
        exact ⟨_, rfl, fun key hkey => by rw [Map.get_erase, if_neg hkey]⟩
    obtain ⟨m', rfl, hkept⟩ := hwrites
    have hsame (key : String) (hid : key ≠ "id") (hne : key ≠ "namespace") :
        (Value.object m').get key = (Value.object object).get key := by
      rw [Value.get_object, hkept key hid, hothers key hne, Value.get_object]
    refine ⟨?_, ?_, ?_, hsame _ (by decide) (by decide), hsame _ (by decide) (by decide)⟩
    · rw [← htype, textAt, textAt, hsame _ (by decide) (by decide)]
    · rw [textAt, textAt, hsame _ (by decide) (by decide)]
    · rw [Value.get_object, hkept _ (by decide), hns]
  | _ => cases htype

/-- A namespace whose name has a dot, with a function, and a standalone function. -/
def dottedTools : List Value :=
  [.obj [("type", .string "namespace"), ("name", .string "muse.files"),
      ("tools", .array [.obj [("type", .string "function"), ("name", .string "read")]])],
    .obj [("type", .string "function"), ("name", .string "muse.read")]]

/-- A call of the function under its dotted name. -/
def dottedCall : Value :=
  .obj [("type", .string "function_call"), ("name", .string "muse.files.read"),
    ("namespace", .null), ("call_id", .string "c"), ("arguments", .string "\x7b\x7d")]

/-- The call gets the namespace back. -/
theorem normalizeResponseItem_namespace_dotted :
    ∃ calls normalized, collectNamespaceCalls dottedTools = .ok calls ∧
      normalizeResponseItem optionalItems dottedCall 0 calls = .ok normalized ∧
      textAt normalized "namespace" = some "muse.files" ∧
      textAt normalized "name" = some "read" ∧
      callName normalized = some "muse.files.read" := by
  obtain ⟨calls, hcalls⟩ : ∃ calls, collectNamespaceCalls dottedTools = .ok calls :=
    exists_eq_ok (by decide)
  have haccepted : (collectNamespaceCalls dottedTools).toOption.any (fun calls =>
      (normalizeResponseItem optionalItems dottedCall 0 calls).toOption.isSome) = true := by
    decide
  rw [hcalls] at haccepted
  obtain ⟨normalized, hok⟩ : ∃ normalized,
      normalizeResponseItem optionalItems dottedCall 0 calls = .ok normalized :=
    exists_eq_ok haccepted
  obtain ⟨-, -, hitems⟩ :=
    normalizeResponseItem_namespace optionalItems optionalItems_keepsCalls _ calls hcalls
  have hrestores := hitems dottedCall 0 normalized (by decide) hok
  obtain ⟨hns, hname⟩ := hrestores.split ("muse.files", "read") (by decide)
    (by decide) (by decide)
  refine ⟨calls, normalized, hcalls, hok, hns, hname, ?_⟩
  rw [hrestores.callName]
  decide

end MuseCodex.Transport
