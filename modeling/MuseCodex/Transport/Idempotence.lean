import MuseCodex.Transport.Items

/-!
# Normalizing a normalized request

Muse sends the history of a conversation again and again, so what the normalization makes of a
request should be something that it leaves alone. All its steps are such that the step, done again,
finds its own result and keeps it, with two exceptions. An image of the assistant under the name
`image_url` is accepted and renamed to `input_image`, under which it is refused. And the library
leaves out the content of reasoning that has no text of its own, and then writes its absence as
null. A normalized request is a fixed point of the normalization exactly when it has neither
(`normalizeResponsesRequest_again_iff`).
-/

namespace MuseCodex.Transport

open Text Json Fallible

/-! ## The library -/

/-- Whether the library leaves out the content of an item: it is reasoning, and none of its content
is read as a text of reasoning. -/
def dropsContent (isReasoningText : Value → Bool) (item : Value) : Bool :=
  textAt item "type" = some "reasoning" &&
    ((item.get "content").bind Value.asArray).any fun content => !content.any isReasoningText

/-- A part of a message that was read and written again. -/
structure SamePart (part part' : Value) : Prop where
  type : textAt part' "type" = textAt part "type"
  text : textAt part "type" ∈ [some "input_text", some "output_text"] →
    part'.get "text" = part.get "text"
  sorted : ∃ m : Map Value, part' = .object m ∧ m.Sorted

/-- What the library keeps of the items that it reads and writes again. Items and parts are objects
that name their type here: the normalization has seen to it before the library reads them. -/
structure ItemLibrary.Lawful (items : ItemLibrary) : Prop where
  /-- An item is written under its type, and a summary of a compaction as a compaction. -/
  type : ∀ item index written type, reserialize items item index = .ok written →
    textAt item "type" = some type →
    textAt written "type" = some (if type = "compaction_summary" then "compaction" else type)
  sorted : ∀ item index written, reserialize items item index = .ok written →
    ∃ m : Map Value, written = .object m ∧ m.Sorted
  /-- A message keeps its role and its parts. -/
  message : ∀ item index written, reserialize items item index = .ok written →
    textAt item "type" = some "message" → ∀ parts, item.get "content" = some (.array parts) →
    (∀ part ∈ parts, (textAt part "type").isSome) → textAt written "role" = textAt item "role" ∧
      ∃ parts', written.get "content" = some (.array parts') ∧ List.Forall₂ SamePart parts parts'
  /-- What is written is read and written the same, unless a content was left out. -/
  settles : ∀ item index written, reserialize items item index = .ok written →
    (textAt item "type").isSome → ∀ index',
      reserialize items written index' = .ok written ↔
        dropsContent items.isReasoningText item = false
  /-- The name and the namespace of a call may be any texts. -/
  split : ∀ m index, reserialize items (.object m) index = .ok (.object m) →
    textAt (.object m) "type" = some "function_call" → ∀ ns name index',
      reserialize items (.object (Map.insert (Map.insert m "namespace" (.string ns)) "name"
        (.string name))) index' = .ok (.object (Map.insert (Map.insert m "namespace" (.string ns))
          "name" (.string name)))
  /-- The name of a result may be missing. -/
  unname : ∀ m index, reserialize items (.object m) index = .ok (.object m) →
    textAt (.object m) "type" ∈ [some "function_call_output", some "custom_tool_call_output"] →
    ∀ index', reserialize items (.object (Map.erase m "name")) index' =
      .ok (.object (Map.erase m "name"))

/-! ## Parts and messages -/

/-- A text of its side stays as it is. -/
theorem normalizeContentPart_text {m : Map Value} (hm : m.Sorted) {assistant : Bool}
    (htype : textAt (.object m) "type" = some (textType assistant)) {text : String}
    (htext : m.get "text" = some (.string text)) (i j : ℕ) :
    normalizeContentPart (.object m) assistant i j = .ok (.object m) := by
  unfold textAt at htype
  have hstays : m.insert "type" (.string (textType assistant)) = m := by
    apply hm.insert_of_get
    obtain ⟨v, hv, hstr⟩ := Option.bind_eq_some_iff.mp htype
    rw [Value.asStr_eq_some hstr] at hv
    exact hv
  have hstring : (!(m.get "text").any Value.isString) = false := by
    rw [htext]
    rfl
  unfold normalizeContentPart
  rw [Value.asObject_object]
  dsimp only
  rw [Value.get_object] at htype
  rw [htype, hstring]
  cases assistant with
  | true => exact congrArg (Except.ok ∘ Value.object) hstays
  | false => exact congrArg (Except.ok ∘ Value.object) hstays

/-- An image stays as it is, unless it is the assistant's. -/
theorem normalizeContentPart_image {part : Value} (htype : textAt part "type" = some "input_image")
    (assistant : Bool) (i j : ℕ) : normalizeContentPart part assistant i j =
      if assistant then .error (partPlace i j ++ " has unsupported type") else .ok part := by
  cases part with
  | object m =>
    unfold textAt at htype
    rw [Value.get_object] at htype
    unfold normalizeContentPart
    rw [Value.asObject_object]
    dsimp only
    rw [htype]
    rfl
  | _ => cases htype

/-- Whether an item is a message of the assistant with an image under its other name. -/
def aliasesImage (item : Value) : Bool :=
  textAt item "type" = some "message" && textAt item "role" = some "assistant" &&
    ((item.get "content").bind Value.asArray).any fun parts =>
      parts.any fun part => textAt part "type" = some "image_url"

/-- A part of a normalized message: a text of its side, or an image. -/
structure Normal (assistant : Bool) (part : Value) : Prop where
  sorted : ∃ m : Map Value, part = .object m ∧ m.Sorted
  kind : (textAt part "type" = some (textType assistant) ∧
      ∃ text, part.get "text" = some (.string text)) ∨
    textAt part "type" = some "input_image"

/-- Whether a part is an image of the assistant, under the name that it gets. -/
def isAssistantImage (assistant : Bool) (part : Value) : Bool :=
  assistant && textAt part "type" = some "input_image"

/-- A part of a normalized message is left alone, unless it is an image of the assistant. -/
theorem Normal.again {assistant : Bool} {part : Value} (h : Normal assistant part) (i j : ℕ) :
    (isAssistantImage assistant part = false ∧
      normalizeContentPart part assistant i j = .ok part) ∨
    (isAssistantImage assistant part = true ∧
      ∀ part', normalizeContentPart part assistant i j ≠ .ok part') := by
  unfold isAssistantImage
  obtain ⟨⟨m, rfl, hm⟩, ⟨htype, text, htext⟩ | htype⟩ := h
  · refine .inl ⟨?_, normalizeContentPart_text hm htype htext i j⟩
    rw [htype]
    cases assistant <;> simp [textType]
  · rw [normalizeContentPart_image htype, htype]
    cases assistant with
    | true => exact .inr ⟨rfl, nofun⟩
    | false => exact .inl ⟨rfl, rfl⟩

/-- A normalized message is left alone, unless it has an image of the assistant. -/
theorem normalizeMessageItem_again {m : Map Value} (hm : m.Sorted) {role : String}
    (hrole : textAt (.object m) "role" = some role) (hknown : role ∈ messageRoles)
    {parts : List Value} (hcontent : m.get "content" = some (.array parts))
    (hparts : ∀ part ∈ parts, Normal (role = "assistant") part) (index : ℕ) (m' : Map Value) :
    normalizeMessageItem m index = .ok m' ↔
      m' = m ∧ ∀ part ∈ parts, isAssistantImage (role = "assistant") part = false := by
  rw [normalizeMessageItem_eq_ok]
  constructor
  · rintro ⟨role', content, parts₁, parts', hrole', -, hcontent', hparts₁, hrun, rfl⟩
    cases hrole.symm.trans hrole'
    cases hcontent.symm.trans hcontent'
    cases hparts₁
    have hall := mapM_zipIdx_forall₂
      (f := fun part j => normalizeContentPart part (role = "assistant") index j) hrun
    -- A part that is an image of the assistant would be refused the second time.
    have hnone : ∀ part ∈ parts, isAssistantImage (role = "assistant") part = false := by
      intro part hpart
      obtain ⟨part', -, j, hnormal⟩ := exists_of_forall₂ hall hpart
      rcases (hparts part hpart).again index j with ⟨himage, -⟩ | ⟨-, hrefused⟩
      · exact himage
      · exact absurd hnormal (hrefused part')
    -- Every other part is left as it is.
    have hsame : List.Forall₂ (fun part part' => part = part') parts parts' := by
      refine List.forall₂_iff_zip.mpr ⟨hall.length_eq, fun {part part'} hzip => ?_⟩
      have hpart := (List.of_mem_zip hzip).1
      obtain ⟨j, hnormal⟩ := List.forall₂_zip hall hzip
      rcases (hparts part hpart).again index j with ⟨-, hfixed⟩ | ⟨himage, -⟩
      · exact Except.ok.inj (hfixed.symm.trans hnormal)
      · rw [hnone part hpart] at himage
        cases himage
    rw [List.forall₂_eq_eq_eq] at hsame
    subst hsame
    exact ⟨hm.insert_of_get hcontent, hnone⟩
  · rintro ⟨rfl, hnone⟩
    refine ⟨role, .array parts, parts, parts, hrole, hknown, hcontent, rfl, ?_,
      (hm.insert_of_get hcontent).symm⟩
    have hfixed : List.Forall₂ (fun part part' => ∀ j,
        normalizeContentPart part (role = "assistant") index j = .ok part') parts parts := by
      refine List.forall₂_same.mpr fun part hpart j => ?_
      rcases (hparts part hpart).again index j with ⟨-, hfixed⟩ | ⟨himage, -⟩
      · exact hfixed
      · rw [hnone part hpart] at himage
        cases himage
    exact mapM_zipIdx_eq_ok
      (f := fun part j => normalizeContentPart part (role = "assistant") index j) hfixed 0

/-- The parts of a message decide whether it has an image under the other name. -/
theorem aliasesImage_iff {object : Map Value} (htype : textAt (.object object) "type" = some "message")
    {role : String} (hrole : textAt (.object object) "role" = some role) {content : Value}
    (hcontent : object.get "content" = some content) {parts : List Value}
    (hparts : contentParts (role = "assistant") content = some parts) :
    aliasesImage (.object object) = true ↔
      role = "assistant" ∧ ∃ part ∈ parts, textAt part "type" = some "image_url" := by
  unfold aliasesImage
  rw [htype, hrole, Value.get_object, hcontent]
  cases content with
  | array parts₁ =>
    cases hparts
    simp [Value.asArray]
  | string text =>
    -- A text stands for one part, which is a text.
    cases hparts
    simp only [Option.bind_some, Value.asArray, Option.any_none, Bool.and_false,
      Bool.false_eq_true, false_iff, not_and]
    rintro - ⟨part, hpart, htype⟩
    rw [List.mem_singleton.mp hpart] at htype
    cases hside : decide (role = "assistant") <;>
      simp [textAt, textType, Value.obj, Map.ofEntries, hside] at htype
  | _ => cases hparts

section

variable {items : ItemLibrary}

/-- A message after the normalization and the library: its parts are normal, and it has an image of
the assistant exactly when it had one under the other name. -/
theorem written_message (hitems : items.Lawful) {object object' : Map Value} {index : ℕ}
    (htype : textAt (.object object) "type" = some "message")
    (hmessage : normalizeMessageItem object index = .ok object') {written : Value}
    (hwritten : reserialize items (.object object') index = .ok written) :
    ∃ (m : Map Value) (role : String) (parts : List Value), written = .object m ∧ m.Sorted ∧
      textAt written "type" = some "message" ∧
      textAt written "role" = some role ∧ role ∈ messageRoles ∧
      m.get "content" = some (.array parts) ∧
      (∀ part ∈ parts, Normal (role = "assistant") part) ∧
      ((∀ part ∈ parts, isAssistantImage (role = "assistant") part = false) ↔
        aliasesImage (.object object) = false) := by
  obtain ⟨role, content, parts, parts', hrole, hknown, hcontent, hparts, hrun, rfl⟩ :=
    normalizeMessageItem_eq_ok.mp hmessage
  have hread (key : String) (hkey : key ≠ "content") :
      textAt (.object (Map.insert object "content" (.array parts'))) key =
        textAt (.object object) key := by
    rw [textAt, Value.get_object, Map.get_insert, if_neg hkey]
    rfl
  have htype' := (hread "type" (by decide)).trans htype
  obtain ⟨m, rfl, hm⟩ := hitems.sorted _ _ _ hwritten
  -- Each part on the wire comes from one of the message, through one of the normalization.
  have hall := mapM_zipIdx_forall₂
    (f := fun part j => normalizeContentPart part (role = "assistant") index j) hrun
  have htyped : ∀ part' ∈ parts', (textAt part' "type").isSome := by
    intro part' hpart'
    obtain ⟨part, -, j, hnormal⟩ := exists_of_forall₂ hall.flip hpart'
    rcases normalizeContentPart_cases hnormal with
      ⟨-, htext, -⟩ | ⟨-, hinput⟩ | ⟨hinput, -, rfl⟩
    · rw [htext, Option.isSome_some]
    · rw [hinput, Option.isSome_some]
    · rw [hinput, Option.isSome_some]
  obtain ⟨hrole', parts'', hcontent'', hsame⟩ := hitems.message _ _ _ hwritten htype' parts'
    (by rw [Value.get_object, Map.get_insert, if_pos rfl]) htyped
  have hkind : ∀ part' part'', SamePart part' part'' → ∀ part j,
      normalizeContentPart part (role = "assistant") index j = .ok part' →
      Normal (role = "assistant") part'' ∧ (isAssistantImage (role = "assistant") part'' = true ↔
        role = "assistant" ∧ textAt part "type" = some "image_url") := by
    intro part' part'' hpart part j hnormal
    unfold isAssistantImage
    rw [hpart.type]
    rcases normalizeContentPart_cases hnormal with
      ⟨hnot, htext, text, hget⟩ | ⟨hurl, hinput⟩ | ⟨hinput, hside, rfl⟩
    · have hmem : textAt part' "type" ∈ [some "input_text", some "output_text"] := by
        rw [htext]
        cases decide (role = "assistant") <;> decide
      refine ⟨⟨hpart.sorted, .inl ⟨hpart.type.trans htext, text, ?_⟩⟩, ?_⟩
      · rw [hpart.text hmem, hget]
      · rw [htext]
        cases decide (role = "assistant") <;> simp [textType, hnot]
    · refine ⟨⟨hpart.sorted, .inr (hpart.type.trans hinput)⟩, ?_⟩
      simp [hinput, hurl]
    · refine ⟨⟨hpart.sorted, .inr (hpart.type.trans hinput)⟩, ?_⟩
      rw [hside, hinput]
      simp
  refine ⟨m, role, parts'', rfl, hm, ?_, ?_, hknown, hcontent'', fun part'' hpart'' => ?_, ?_⟩
  · rw [hitems.type _ _ _ _ hwritten htype']
    rfl
  · rw [hrole', hread "role" (by decide), hrole]
  · obtain ⟨part', hpart', hsame'⟩ := exists_of_forall₂ hsame.flip hpart''
    obtain ⟨part, -, j, hnormal⟩ := exists_of_forall₂ hall.flip hpart'
    exact (hkind part' part'' hsame' part j hnormal).1
  · rw [Bool.eq_false_iff, ne_eq, aliasesImage_iff htype hrole hcontent hparts]
    constructor
    · rintro hnone ⟨hassistant, part, hpart, hurl⟩
      obtain ⟨part', hpart', j, hnormal⟩ := exists_of_forall₂ hall hpart
      obtain ⟨part'', hpart'', hsame'⟩ := exists_of_forall₂ hsame hpart'
      have himage := (hkind part' part'' hsame' part j hnormal).2.mpr ⟨hassistant, hurl⟩
      rw [hnone part'' hpart''] at himage
      cases himage
    · intro hnone part'' hpart''
      obtain ⟨part', hpart', hsame'⟩ := exists_of_forall₂ hsame.flip hpart''
      obtain ⟨part, hpart, j, hnormal⟩ := exists_of_forall₂ hall.flip hpart'
      by_contra himage
      rw [Bool.not_eq_false, (hkind part' part'' hsame' part j hnormal).2] at himage
      exact hnone ⟨himage.1, part, hpart, himage.2⟩

/-! ## Items -/

/-- Only calls get a namespace. -/
theorem restoreNamespace_other {written : Value}
    (h : textAt written "type" ≠ some "function_call") (calls : NamespaceCallMap) :
    restoreNamespace calls written = written := by
  have hsplit : namespaceSplit written calls = none := by
    unfold namespaceSplit
    rw [if_neg]
    rw [Bool.and_eq_true, decide_eq_true_eq, not_and]
    exact fun htype => absurd htype h
  unfold restoreNamespace
  rw [hsplit]

/-- The types of the results of calls. -/
def resultTypes : List (Option String) :=
  [some "function_call_output", some "custom_tool_call_output"]

/-- Only results lose their name. -/
theorem removeResultName_other {written : Value} (h : textAt written "type" ∉ resultTypes) :
    removeResultName written = written := by
  unfold removeResultName
  split
  · rename_i object htype
    exact absurd (show textAt (.object object) "type" ∈ resultTypes by
      rw [textAt, htype]; decide) h
  · rename_i object htype
    exact absurd (show textAt (.object object) "type" ∈ resultTypes by
      rw [textAt, htype]; decide) h
  · rfl

/-- A result of a tool loses its name. -/
theorem removeResultName_result {m : Map Value} (h : textAt (.object m) "type" ∈ resultTypes) :
    removeResultName (.object m) = .object (Map.erase m "name") := by
  unfold textAt at h
  simp only [resultTypes, List.mem_cons, List.not_mem_nil, or_false] at h
  unfold removeResultName
  rcases h with htype | htype
  · simp only [htype]
  · simp only [htype]

/-- What is done to an item after the library has written it. -/
def finish (calls : NamespaceCallMap) (written : Value) : Value :=
  removeResultName (restoreNamespace calls written)

/-- The last step leaves the type of an item. -/
theorem textAt_type_finish (calls : NamespaceCallMap) (written : Value) :
    textAt (finish calls written) "type" = textAt written "type" := by
  unfold finish textAt
  rw [get_removeResultName _ (by decide), get_restoreNamespace _ _ (by decide) (by decide)]

/-- The last step leaves an item that is neither a call nor a result. -/
theorem finish_other {written : Value} (hcall : textAt written "type" ≠ some "function_call")
    (hresult : textAt written "type" ∉ resultTypes) (calls : NamespaceCallMap) :
    finish calls written = written := by
  rw [finish, restoreNamespace_other hcall, removeResultName_other hresult]

/-- An item that the library leaves alone is one that it leaves alone after this, too, and this is
not done to it again. -/
theorem finish_again (hitems : items.Lawful) (calls : NamespaceCallMap) {written : Value}
    (hsettled : ∀ index, reserialize items written index = .ok written) :
    (∀ index, reserialize items (finish calls written) index = .ok (finish calls written)) ∧
      finish calls (finish calls written) = finish calls written := by
  obtain ⟨m, rfl, hm⟩ := hitems.sorted _ _ _ (hsettled 0)
  by_cases hcall : textAt (.object m) "type" = some "function_call"
  · rcases @restoreNamespace_call (.object m) calls hcall with
      ⟨pair, name, -, -, -, object, hobject, hrestored⟩ | ⟨-, hrestored⟩
    · cases hobject
      have hcall' : textAt (restoreNamespace calls (.object m)) "type" = some "function_call" := by
        rw [textAt, get_restoreNamespace _ _ (by decide) (by decide)]
        exact hcall
      have hfinish : finish calls (.object m) = .object (Map.insert
          (Map.insert m "namespace" (.string pair.1)) "name" (.string pair.2)) := by
        rw [finish, removeResultName_call hcall', hrestored]
      rw [hrestored] at hcall'
      rw [hfinish]
      refine ⟨hitems.split m 0 (hsettled 0) hcall pair.1 pair.2, ?_⟩
      -- The call has a namespace now, so it is not split again.
      rcases @restoreNamespace_call _ calls hcall' with ⟨_, _, hnone, -⟩ | ⟨-, hagain⟩
      · simp at hnone
      · rw [finish, hagain, removeResultName_call hcall']
    · have hfinish : finish calls (.object m) = .object m := by
        rw [finish, hrestored, removeResultName_call hcall]
      rw [hfinish]
      exact ⟨hsettled, hfinish⟩
  · by_cases hresult : textAt (.object m) "type" ∈ resultTypes
    · have hfinish : finish calls (.object m) = .object (Map.erase m "name") := by
        rw [finish, restoreNamespace_other hcall, removeResultName_result hresult]
      have htype : textAt (.object (Map.erase m "name")) "type" = textAt (.object m) "type" := by
        rw [← hfinish, textAt_type_finish]
      have hgone : Map.get (Map.erase m "name") "name" = none := by
        rw [Map.get_erase, if_pos rfl]
      rw [hfinish]
      refine ⟨hitems.unname m 0 (hsettled 0) hresult, ?_⟩
      rw [finish, restoreNamespace_other (by rwa [htype]), removeResultName_result (by rwa [htype]),
        (hm.erase "name").erase_of_get hgone]
    · rw [finish_other hcall hresult]
      exact ⟨hsettled, finish_other hcall hresult calls⟩

/-- A normalized item is left alone exactly when the item was not a message of the assistant with an
image under its other name, and not reasoning whose content is left out. -/
theorem normalizeResponseItem_again_iff (hitems : items.Lawful) {item normalized : Value}
    {index : ℕ} {calls : NamespaceCallMap}
    (h : normalizeResponseItem items item index calls = .ok normalized) (index' : ℕ) :
    normalizeResponseItem items normalized index' calls = .ok normalized ↔
      aliasesImage item = false ∧ dropsContent items.isReasoningText item = false := by
  obtain ⟨object, type, object', written, rfl, htype, hknown, hmessage, hwritten, rfl⟩ :=
    normalizeResponseItem_eq_ok.mp h
  change normalizeResponseItem items (finish calls written) index' calls =
    .ok (finish calls written) ↔ _
  by_cases hkind : type = "message"
  · subst hkind
    rw [if_pos rfl] at hmessage
    obtain ⟨m, role, parts, rfl, hm, htype', hrole, hroles, hcontent, hparts, himages⟩ :=
      written_message hitems htype hmessage hwritten
    have hfinish : finish calls (.object m) = .object m :=
      finish_other (by rw [htype']; decide) (by rw [htype']; decide) calls
    -- A message has no reasoning content to leave out.
    have hdrops (object : Map Value) (h : textAt (.object object) "type" = some "message") :
        dropsContent items.isReasoningText (.object object) = false := by
      rw [dropsContent, h]
      rfl
    have hmessage_type : textAt (.object object') "type" = some "message" := by
      obtain ⟨_, _, _, _, -, -, -, -, -, rfl⟩ := normalizeMessageItem_eq_ok.mp hmessage
      rw [textAt, Value.get_object, Map.get_insert, if_neg (by decide)]
      exact htype
    rw [hfinish, normalizeResponseItem_eq_ok]
    constructor
    · rintro ⟨m₁, type, m', written', hsame, htype₁, -, hmessage', -, -⟩
      cases hsame
      cases htype'.symm.trans htype₁
      rw [if_pos rfl, normalizeMessageItem_again hm hrole hroles hcontent hparts] at hmessage'
      exact ⟨himages.mp hmessage'.2, hdrops object htype⟩
    · rintro ⟨hnone, -⟩
      refine ⟨m, "message", m, .object m, rfl, htype', by decide, ?_, ?_, hfinish.symm⟩
      · rw [if_pos rfl, normalizeMessageItem_again hm hrole hroles hcontent hparts]
        exact ⟨rfl, himages.mpr hnone⟩
      · have htyped : (textAt (.object object') "type").isSome := by
          rw [hmessage_type, Option.isSome_some]
        exact (hitems.settles _ _ _ hwritten htyped index').mpr (hdrops object' hmessage_type)
  · rw [if_neg hkind] at hmessage
    cases hmessage
    have htype' := hitems.type _ _ _ _ hwritten htype
    have hsettles := hitems.settles _ _ _ hwritten (by rw [htype, Option.isSome_some])
    -- The label that is written is known too: a summary of a compaction becomes a compaction.
    have hlabel (type' : String) (hsame : textAt written "type" = some type') :
        type' ∈ itemTypes ∧ type' ≠ "message" := by
      rw [htype'] at hsame
      cases hsame
      split_ifs
      · decide
      · exact ⟨hknown, hkind⟩
    have hnot : aliasesImage (.object object) = false := by
      rw [aliasesImage, htype]
      simp [hkind]
    constructor
    · -- If the content were left out, the item would be reasoning, which is only written again.
      intro hagain
      refine ⟨hnot, ?_⟩
      by_contra hdrops
      rw [Bool.not_eq_false] at hdrops
      have hreasoning : type = "reasoning" := by
        unfold dropsContent at hdrops
        rw [htype, Bool.and_eq_true, decide_eq_true_eq] at hdrops
        exact Option.some.inj hdrops.1
      subst hreasoning
      rw [if_neg (by decide)] at htype'
      have hfinish : ∀ written, textAt written "type" = some "reasoning" →
          finish calls written = written := fun written hw =>
        finish_other (by rw [hw]; decide) (by rw [hw]; decide) calls
      rw [hfinish written htype'] at hagain
      obtain ⟨m, type', m', written', rfl, htype₁, -, hmessage', hwritten', hsame⟩ :=
        normalizeResponseItem_eq_ok.mp hagain
      cases htype'.symm.trans htype₁
      rw [if_neg (by decide)] at hmessage'
      cases hmessage'
      have hwritten_type := hitems.type _ _ _ _ hwritten' htype'
      rw [if_neg (by decide)] at hwritten_type
      have hfixed : written' = .object m := by
        rw [hsame]
        exact (hfinish written' hwritten_type).symm
      rw [hfixed] at hwritten'
      rw [(hsettles index').mp hwritten'] at hdrops
      cases hdrops
    · rintro ⟨-, hkeeps⟩
      obtain ⟨hsettled, hfinish⟩ := finish_again hitems calls
        fun index => (hsettles index).mpr hkeeps
      obtain ⟨m, hm, -⟩ := hitems.sorted _ _ _ (hsettled index')
      have htype'' := (textAt_type_finish calls written).trans htype'
      obtain ⟨hknown', hkind'⟩ := hlabel _ htype'
      refine normalizeResponseItem_eq_ok.mpr ⟨m, _, m, finish calls written, hm, htype'', hknown',
        if_neg hkind', ?_, hfinish.symm⟩
      rw [← hm]
      exact hsettled index'

end

/-! ## The other members -/

/-- What a step on some members leaves: the step does nothing to a sorted object that still has what
it left under them. -/
structure Settled (keys : List String) (step : Map Value → Except String (Map Value))
    (object object' : Map Value) : Prop where
  touches : Touches keys object object'
  sorted : object.Sorted → object'.Sorted
  again : ∀ m : Map Value, m.Sorted → (∀ key ∈ keys, m.get key = object'.get key) →
    step m = .ok m

section

variable {object object' : Map Value}

/-- The instructions are settled after one pass. -/
theorem normalizeInstructions_settled (h : normalizeInstructions object = .ok object') :
    Settled ["instructions"] normalizeInstructions object object' := by
  obtain ⟨htouches, instructions, hget⟩ := normalizeInstructions_spec h
  refine ⟨htouches, fun hsorted => ?_, fun m _ hsame => ?_⟩
  · unfold normalizeInstructions at h
    split at h
    · cases h
      exact hsorted.insert _ _
    · cases h
      exact hsorted
    · cases h
  · unfold normalizeInstructions
    rw [hsame _ (by decide), hget]

/-- A reference to stored state is settled after one pass. -/
theorem rejectStatefulReference_settled {field : String}
    (h : rejectStatefulReference field object = .ok object') :
    Settled [field] (rejectStatefulReference field) object object' := by
  have herased : object' = object.erase field := by
    unfold rejectStatefulReference at h
    split at h
    · exact (Except.ok.inj h).symm
    · exact (Except.ok.inj h).symm
    · cases h
  refine ⟨rejectStatefulReference_touches h, fun hsorted => ?_, fun m hm hsame => ?_⟩
  · rw [herased]
    exact hsorted.erase field
  · have hnone : m.get field = none := by
      rw [hsame field (by simp), herased, Map.get_erase, if_pos rfl]
    unfold rejectStatefulReference
    rw [hnone]
    exact congrArg Except.ok (hm.erase_of_get hnone)

/-- The tools are settled after one pass. -/
theorem normalizeTools_settled (h : normalizeTools object = .ok object') :
    Settled ["tools"] normalizeTools object object' := by
  obtain ⟨htouches, hget, htyped⟩ := normalizeTools_spec h
  refine ⟨htouches, fun hsorted => ?_, fun m _ hsame => ?_⟩
  · unfold normalizeTools at h
    split at h
    · cases h
      exact hsorted.insert _ _
    · split_ifs at h
      cases h
      exact hsorted
    · cases h
  · unfold normalizeTools
    rw [hsame _ (by decide), hget]
    exact if_pos (List.all_eq_true.mpr htyped)

/-- The choice of a tool is settled after one pass. -/
theorem normalizeToolChoice_settled {apiKeyAuth : Bool}
    (h : normalizeToolChoice apiKeyAuth object = .ok object') :
    Settled ["tool_choice"] (normalizeToolChoice apiKeyAuth) object object' := by
  refine ⟨normalizeToolChoice_touches h, fun hsorted => ?_, fun m _ hsame => ?_⟩
  · unfold normalizeToolChoice at h
    split at h
    · cases h
      exact hsorted.insert _ _
    · cases h
      exact hsorted
    · split_ifs at h
      cases h
      exact hsorted
    · cases h
  · unfold normalizeToolChoice at h ⊢
    rw [hsame _ (by decide)]
    split at h
    · cases h
      rw [Map.get_insert, if_pos rfl]
    · rename_i hget
      cases h
      rw [hget]
    · rename_i hget
      split_ifs at h with hauth
      cases h
      rw [hget]
      exact if_pos hauth
    · cases h

/-- The permission of parallel calls is settled after one pass. -/
theorem normalizeParallelToolCalls_settled (h : normalizeParallelToolCalls object = .ok object') :
    Settled ["parallel_tool_calls"] normalizeParallelToolCalls object object' := by
  refine ⟨normalizeParallelToolCalls_touches h, fun hsorted => ?_, fun m _ hsame => ?_⟩
  · unfold normalizeParallelToolCalls at h
    split at h
    · cases h
      exact hsorted.insert _ _
    · cases h
      exact hsorted
    · cases h
  · unfold normalizeParallelToolCalls at h ⊢
    rw [hsame _ (by decide)]
    split at h
    · cases h
      rw [Map.get_insert, if_pos rfl]
    · rename_i hget
      cases h
      rw [hget]
    · cases h

/-- The reasoning of a subscription has no member but two, and no summary that is none. -/
theorem subscriptionReasoning_again (reasoning : Map Value) :
    subscriptionReasoning (subscriptionReasoning reasoning) = subscriptionReasoning reasoning := by
  have hkeys : ∀ e ∈ subscriptionReasoning reasoning, e.1 ∈ ["effort", "summary"] := by
    intro e he
    have honly : e ∈ reasoning.only ["effort", "summary"] := by
      unfold subscriptionReasoning at he
      dsimp only at he
      split_ifs at he
      · exact (List.mem_filter.mp he).1
      · exact he
    simpa using (List.mem_filter.mp honly).2
  have hsummary : ((subscriptionReasoning reasoning).get "summary").bind Value.asStr ≠
      some "none" := by
    unfold subscriptionReasoning
    dsimp only
    split_ifs with hnone
    · rw [Map.get_erase, if_pos rfl]
      exact nofun
    · exact hnone
  have honly : (subscriptionReasoning reasoning).only ["effort", "summary"] =
      subscriptionReasoning reasoning := by
    refine List.filter_eq_self.mpr fun e he => ?_
    simpa using hkeys e he
  generalize subscriptionReasoning reasoning = reduced at hsummary honly
  unfold subscriptionReasoning
  dsimp only
  rw [honly, if_neg hsummary]

/-- It has the effort and the summary of the reasoning, but for a summary that is none. -/
theorem get_subscriptionReasoning (reasoning : Map Value) :
    (subscriptionReasoning reasoning).get "effort" = reasoning.get "effort" ∧
      ((subscriptionReasoning reasoning).get "summary" = reasoning.get "summary" ∨
        (subscriptionReasoning reasoning).get "summary" = none) := by
  unfold subscriptionReasoning
  dsimp only
  split_ifs
  · rw [Map.get_erase, if_neg (by decide), Map.get_only (by decide), Map.get_erase, if_pos rfl]
    exact ⟨rfl, .inr rfl⟩
  · rw [Map.get_only (by decide), Map.get_only (by decide)]
    exact ⟨rfl, .inl rfl⟩

/-- The reasoning is settled after one pass. -/
theorem normalizeReasoning_settled {apiKeyAuth : Bool}
    (h : normalizeReasoning apiKeyAuth object = .ok object') :
    Settled ["reasoning"] (normalizeReasoning apiKeyAuth) object object' := by
  refine ⟨(normalizeReasoning_spec h).1, fun hsorted => ?_, fun m hm hsame => ?_⟩
  · unfold normalizeReasoning at h
    split at h
    · cases h
      exact hsorted
    · cases h
      exact hsorted
    · split_ifs at h
      · cases h
        exact hsorted
      · cases h
        exact hsorted.insert _ _
    · cases h
  · have hsame := hsame _ (List.mem_singleton_self _)
    unfold normalizeReasoning at h ⊢
    split at h
    · rename_i hget
      cases h
      rw [hsame, hget]
    · rename_i hget
      cases h
      rw [hsame, hget]
    · rename_i reasoning hget
      split at h
      · cases h
      · rename_i heffort
        split at h
        · cases h
        · rename_i hsummary
          split_ifs at h with hauth
          · cases h
            rw [hsame, hget]
            dsimp only
            rw [if_neg heffort, if_neg hsummary, if_pos hauth]
          · cases h
            rw [Map.get_insert, if_pos rfl] at hsame
            -- What is written under a subscription is accepted, and is written again as it is.
            obtain ⟨heffort', hsummary'⟩ := get_subscriptionReasoning reasoning
            have hchecked : ¬ (!isOptional isReasoningSummary
                ((subscriptionReasoning reasoning).get "summary")) = true := by
              rcases hsummary' with hsummary' | hsummary'
              · rwa [hsummary']
              · rw [hsummary']
                exact Bool.false_ne_true
            rw [hsame]
            dsimp only
            rw [heffort', if_neg heffort, if_neg hchecked, if_neg hauth,
              subscriptionReasoning_again, hm.insert_of_get hsame]
    · cases h

/-- Adding values one by one, unless they are there, keeps those that are there, adds those that are
not, and has none twice. -/
theorem foldl_pushUnique (values : List Value) {acc : List Value} (hacc : acc.Nodup) :
    (values.foldl pushUnique acc).Nodup ∧
      (∀ v, v ∈ values.foldl pushUnique acc ↔ v ∈ acc ∨ v ∈ values) ∧
      ((acc ++ values).Nodup → values.foldl pushUnique acc = acc ++ values) := by
  induction values generalizing acc with
  | nil => exact ⟨hacc, by simp, by simp⟩
  | cons value values ih =>
    rw [List.foldl_cons]
    by_cases hmem : value ∈ acc
    · have hpush : pushUnique acc value = acc := if_pos hmem
      rw [hpush]
      obtain ⟨hnodup, hiff, -⟩ := ih hacc
      -- A value that is there already is passed over.
      refine ⟨hnodup, fun v => ?_, fun htwice => ?_⟩
      · rw [hiff, List.mem_cons]
        constructor
        · tauto
        · rintro (hv | rfl | hv)
          · exact .inl hv
          · exact .inl hmem
          · exact .inr hv
      · exact absurd List.mem_cons_self (List.disjoint_of_nodup_append htwice hmem)
    · have hpush : pushUnique acc value = acc ++ [value] := if_neg hmem
      rw [hpush]
      have hnew : (acc ++ [value]).Nodup := by
        rw [List.nodup_append]
        refine ⟨hacc, List.nodup_singleton value, ?_⟩
        rintro a ha b hb rfl
        exact hmem (List.mem_singleton.mp hb ▸ ha)
      obtain ⟨hnodup, hiff, hall⟩ := ih hnew
      refine ⟨hnodup, fun v => ?_, fun hwhole => ?_⟩
      · rw [hiff, List.mem_append, List.mem_singleton, List.mem_cons]
        tauto
      · rw [hall (by simpa using hwhole)]
        simp

/-- What is to be included is settled after one pass. -/
theorem normalizeInclude_settled (h : normalizeInclude object = .ok object') :
    Settled ["include"] normalizeInclude object object' := by
  refine ⟨normalizeInclude_touches h, fun hsorted => ?_, fun m hm hsame => ?_⟩
  · unfold normalizeInclude at h
    split at h
    · split_ifs at h
      cases h
      exact hsorted.insert _ _
    · cases h
  · have hsame := hsame _ (List.mem_singleton_self _)
    unfold normalizeInclude at h ⊢
    split at h
    · rename_i entries hentries
      split_ifs at h with hstrings
      cases h
      rw [Map.get_insert, if_pos rfl] at hsame
      -- The list has all entries once and the encrypted content, so nothing is left to add.
      generalize hlist : pushUnique (entries.foldl pushUnique [])
        (.string "reasoning.encrypted_content") = list at hsame
      have hrun : list =
          (entries ++ [Value.string "reasoning.encrypted_content"]).foldl pushUnique [] := by
        rw [← hlist, List.foldl_append]
        rfl
      obtain ⟨hnodup, hmem, -⟩ := foldl_pushUnique
        (entries ++ [Value.string "reasoning.encrypted_content"]) List.nodup_nil
      rw [← hrun] at hnodup hmem
      have hagain : list.foldl pushUnique [] = list :=
        (foldl_pushUnique list List.nodup_nil).2.2 hnodup
      have hall : list.all Value.isString = true := by
        rw [List.all_eq_true]
        intro v hv
        rcases (hmem v).mp hv with hv | hv
        · cases hv
        · rcases List.mem_append.mp hv with hv | hv
          · simp only [Bool.not_eq_true', Bool.not_eq_false, List.all_eq_true] at hstrings
            exact hstrings v hv
          · rw [List.mem_singleton.mp hv]
            rfl
      have hthere : pushUnique list (Value.string "reasoning.encrypted_content") = list :=
        if_pos ((hmem _).mpr (.inr (by simp)))
      rw [hsame]
      simp only [Option.getD_some, hall, Bool.not_true, Bool.false_eq_true, if_false, hagain,
        hthere, hm.insert_of_get hsame]
    · cases h

/-- What an account may send is settled after one pass. -/
theorem normalizeAccount_settled {apiKeyAuth : Bool}
    (h : normalizeAccount apiKeyAuth object = .ok object') :
    Settled (["max_output_tokens"] ++ ["client_metadata"] ++ ["metadata"])
      (normalizeAccount apiKeyAuth) object object' := by
  refine ⟨normalizeAccount_touches h, fun hsorted => ?_, fun m hm hsame => ?_⟩
  · unfold normalizeAccount at h
    split_ifs at h
    · obtain ⟨-, -, h⟩ := bind_eq_ok.mp h
      cases h
      exact hsorted
    · cases h
      exact ((hsorted.erase _).erase _).erase _
  · unfold normalizeAccount at h ⊢
    split_ifs at h ⊢ with hauth
    · obtain ⟨⟨⟩, hlimit, h⟩ := bind_eq_ok.mp h
      cases h
      refine bind_eq_ok.mpr ⟨(), ?_, rfl⟩
      unfold validateOptionalPositiveInteger at hlimit ⊢
      rw [hsame _ (by decide)]
      exact hlimit
    · cases h
      -- The three members are gone, so they are not removed again.
      have hgone : ∀ key ∈ ["max_output_tokens", "client_metadata", "metadata"],
          m.get key = none := by
        intro key hkey
        rw [hsame key (by simpa using hkey), Map.get_erase, Map.get_erase, Map.get_erase]
        simp only [List.mem_cons, List.not_mem_nil, or_false] at hkey
        rcases hkey with rfl | rfl | rfl <;> simp
      rw [hm.erase_of_get (hgone _ (by decide)), hm.erase_of_get (hgone _ (by decide)),
        hm.erase_of_get (hgone _ (by decide))]

end

/-! ## The request -/

section

variable {items : ItemLibrary}

/-- An item that the normalization leaves alone once it is normalized. -/
def ItemLibrary.isStable (items : ItemLibrary) (item : Value) : Bool :=
  !aliasesImage item && !dropsContent items.isReasoningText item

/-- The items of the input of a request, if it is an array. -/
def inputOf (request : Map Value) : List Value :=
  ((request.get "input").bind Value.asArray).getD []

/-- The items that an input stands for are those of its array, or a message of the user. -/
theorem rawItems_stable_iff {request : Map Value} {input : Value}
    (hinput : request.get "input" = some input) {raw : List Value} (hraw : rawItems input = some raw) :
    (∀ item ∈ raw, items.isStable item = true) ↔
      ∀ item ∈ inputOf request, items.isStable item = true := by
  unfold inputOf
  rw [hinput, Option.bind_some]
  cases input with
  | array inputItems =>
    cases inputItems with
    | nil => cases hraw
    | cons first rest =>
      cases hraw
      rfl
  | string text =>
    cases hraw
    simp [Value.asArray, ItemLibrary.isStable, aliasesImage, dropsContent, textAt,
      Value.obj, Map.ofEntries]
  | _ => cases hraw

/-- An input stands for some items. -/
theorem rawItems_ne_nil {input : Value} {raw : List Value} (h : rawItems input = some raw) :
    raw ≠ [] := by
  unfold rawItems at h
  split at h
  · cases h
    exact List.cons_ne_nil _ _
  · cases h
  · rename_i hne
    cases h
    exact hne
  · cases h

/-- Normalized items are left alone exactly when the items were such. -/
theorem normalizedItems_again_iff (hitems : items.Lawful) {calls : NamespaceCallMap}
    {raw normalizedItems : List Value}
    (hrun : (raw.zipIdx.mapM fun item => normalizeResponseItem items item.1 item.2 calls) =
      .ok normalizedItems) :
    (normalizedItems.zipIdx.mapM fun item => normalizeResponseItem items item.1 item.2 calls) =
        .ok normalizedItems ↔ ∀ item ∈ raw, items.isStable item = true := by
  have hall := mapM_zipIdx_forall₂
    (f := fun item i => normalizeResponseItem items item i calls) hrun
  have hagain {item normalized : Value} {i : ℕ}
      (h : normalizeResponseItem items item i calls = .ok normalized) (j : ℕ) :
      normalizeResponseItem items normalized j calls = .ok normalized ↔
        items.isStable item = true := by
    rw [normalizeResponseItem_again_iff hitems h]
    simp [ItemLibrary.isStable]
  constructor
  · intro hsecond item hitem
    obtain ⟨normalized, hnormalized, i, hnormal⟩ := exists_of_forall₂ hall hitem
    have hdiagonal := mapM_zipIdx_forall₂
      (f := fun item i => normalizeResponseItem items item i calls) hsecond
    obtain ⟨j, hfixed⟩ := List.forall₂_same.mp hdiagonal normalized hnormalized
    exact (hagain hnormal j).mp hfixed
  · intro hstable
    refine mapM_zipIdx_eq_ok (f := fun item i => normalizeResponseItem items item i calls)
      (List.forall₂_same.mpr fun normalized hnormalized j => ?_) 0
    obtain ⟨item, hitem, i, hnormal⟩ := exists_of_forall₂ hall.flip hnormalized
    exact (hagain hnormal j).mpr (hstable item hitem)

/-- The steps other than that of the input do nothing to a normalized request. -/
theorem normalizeMembers_again {request object : Map Value} {apiKeyAuth : Bool}
    (hsorted : request.Sorted) (h : normalizeMembers items (.object request) apiKeyAuth = .ok object) :
    object.Sorted ∧ ∃ calls input raw normalizedItems, request.get "input" = some input ∧
      rawItems input = some raw ∧
      (raw.zipIdx.mapM fun item => normalizeResponseItem items item.1 item.2 calls) =
        .ok normalizedItems ∧ object.get "input" = some (.array normalizedItems) ∧
      ∀ m : Map Value, m.Sorted → (∀ key, key ∉ ["store", "stream"] → m.get key = object.get key) →
        ∀ m', normalizeMembers items (.object m) apiKeyAuth = .ok m' ↔
          normalizeInput items calls m = .ok m' := by
  obtain ⟨request, model, o₁, o₂, o₃, o₄, calls, o₅, o₆, o₇, o₈, o₉, hsame, hmodel, hid, h₁, h₂, h₃,
    h₄, hcalls, h₅, h₆, h₇, h₈, h₉, h⟩ := normalizeMembers_eq_ok.mp h
  cases hsame
  have s₁ := normalizeInstructions_settled h₁
  have s₂ := rejectStatefulReference_settled h₂
  have s₃ := rejectStatefulReference_settled h₃
  have s₄ := normalizeTools_settled h₄
  have s₆ := normalizeToolChoice_settled h₆
  have s₇ := normalizeParallelToolCalls_settled h₇
  have s₈ := normalizeReasoning_settled h₈
  have s₉ := normalizeInclude_settled h₉
  have s₁₀ := normalizeAccount_settled h
  obtain ⟨input, raw, normalizedItems, hinput, hraw, hrun, ho₅⟩ := normalizeInput_eq_ok.mp h₅
  have t₅ := (normalizeInput_spec h₅).1
  have sorted₄ : o₄.Sorted := s₄.sorted (s₃.sorted (s₂.sorted (s₁.sorted hsorted)))
  have sorted₅ : o₅.Sorted := by
    rw [ho₅]
    exact (sorted₄.erase _).insert _ _
  -- What each step left under its members is there at the end.
  have a₉ : Touches _ o₉ object := s₁₀.touches
  have a₈ : Touches _ o₈ object := s₉.touches.trans a₉
  have a₇ : Touches _ o₇ object := s₈.touches.trans a₈
  have a₆ : Touches _ o₆ object := s₇.touches.trans a₇
  have a₅ : Touches _ o₅ object := s₆.touches.trans a₆
  have a₄ : Touches _ o₄ object := t₅.trans a₅
  have a₃ : Touches _ o₃ object := s₄.touches.trans a₄
  have a₂ : Touches _ o₂ object := s₃.touches.trans a₃
  have a₁ : Touches _ o₁ object := s₂.touches.trans a₂
  have a₀ : Touches _ request object := s₁.touches.trans a₁
  have b₄ : Touches _ request o₄ := ((s₁.touches.trans s₂.touches).trans s₃.touches).trans s₄.touches
  refine ⟨s₁₀.sorted (s₉.sorted (s₈.sorted (s₇.sorted (s₆.sorted sorted₅)))), calls, input, raw,
    normalizedItems, ?_, hraw, hrun, ?_, fun m hm hget m' => ?_⟩
  · rw [← b₄ _ (by decide), hinput]
  · rw [a₅ _ (by decide), ho₅, Map.get_insert, if_pos rfl]
  · have f₁ : normalizeInstructions m = .ok m := s₁.again m hm fun key hkey => by
      rw [List.mem_singleton.mp hkey, hget _ (by decide), a₁ _ (by decide)]
    have f₂ : rejectStatefulReference "previous_response_id" m = .ok m :=
      s₂.again m hm fun key hkey => by
        rw [List.mem_singleton.mp hkey, hget _ (by decide), a₂ _ (by decide)]
    have f₃ : rejectStatefulReference "conversation" m = .ok m := s₃.again m hm fun key hkey => by
      rw [List.mem_singleton.mp hkey, hget _ (by decide), a₃ _ (by decide)]
    have f₄ : normalizeTools m = .ok m := s₄.again m hm fun key hkey => by
      rw [List.mem_singleton.mp hkey, hget _ (by decide), a₄ _ (by decide)]
    have hmodel' : (Map.get m "model").bind Value.asStr = some model := by
      rw [hget _ (by decide), a₀ _ (by decide), hmodel]
    have hcalls' : collectNamespaceCalls (toolsOf m) = .ok calls := by
      rw [← hcalls, toolsOf, toolsOf, hget _ (by decide), a₄ _ (by decide)]
    -- The later steps do nothing either, for the input is none of their members.
    have hrest {m' : Map Value} (hm₅ : normalizeInput items calls m = .ok m') :
        normalizeToolChoice apiKeyAuth m' = .ok m' ∧ normalizeParallelToolCalls m' = .ok m' ∧
          normalizeReasoning apiKeyAuth m' = .ok m' ∧ normalizeInclude m' = .ok m' ∧
          normalizeAccount apiKeyAuth m' = .ok m' := by
      have hm' : m'.Sorted := by
        obtain ⟨_, _, _, -, -, -, rfl⟩ := normalizeInput_eq_ok.mp hm₅
        exact (hm.erase _).insert _ _
      have hread (key : String) (hkey : key ∉ ["input", "store", "stream"]) :
          m'.get key = object.get key := by
        simp only [List.mem_cons, List.not_mem_nil, or_false, not_or] at hkey
        rw [(normalizeInput_spec hm₅).1 key (by simpa using hkey.1), hget key (by simp [hkey])]
      have hthree : ∀ key ∈ ["max_output_tokens"] ++ ["client_metadata"] ++ ["metadata"],
          key ∉ ["input", "store", "stream"] := by decide
      refine ⟨s₆.again m' hm' fun key hkey => ?_, s₇.again m' hm' fun key hkey => ?_,
        s₈.again m' hm' fun key hkey => ?_, s₉.again m' hm' fun key hkey => ?_,
        s₁₀.again m' hm' fun key hkey => hread key (hthree key hkey)⟩
      · rw [List.mem_singleton.mp hkey, hread _ (by decide), a₆ _ (by decide)]
      · rw [List.mem_singleton.mp hkey, hread _ (by decide), a₇ _ (by decide)]
      · rw [List.mem_singleton.mp hkey, hread _ (by decide), a₈ _ (by decide)]
      · rw [List.mem_singleton.mp hkey, hread _ (by decide), a₉ _ (by decide)]
    rw [normalizeMembers_eq_ok]
    constructor
    · rintro ⟨m₀, model', p₁, p₂, p₃, p₄, calls', p₅, p₆, p₇, p₈, p₉, hm₀, -, -, q₁, q₂, q₃, q₄,
        hcalls'', q₅, q₆, q₇, q₈, q₉, q₁₀⟩
      cases hm₀
      cases f₁.symm.trans q₁
      cases f₂.symm.trans q₂
      cases f₃.symm.trans q₃
      cases f₄.symm.trans q₄
      cases hcalls'.symm.trans hcalls''
      obtain ⟨f₆, f₇, f₈, f₉, f₁₀⟩ := hrest q₅
      cases f₆.symm.trans q₆
      cases f₇.symm.trans q₇
      cases f₈.symm.trans q₈
      cases f₉.symm.trans q₉
      cases f₁₀.symm.trans q₁₀
      exact q₅
    · intro hm₅
      obtain ⟨f₆, f₇, f₈, f₉, f₁₀⟩ := hrest hm₅
      exact ⟨m, model, m, m, m, m, calls, m', m', m', m', m', rfl, hmodel', hid, f₁, f₂, f₃, f₄,
        hcalls', hm₅, f₆, f₇, f₈, f₉, f₁₀⟩

/-- A message whose parts are those of its role: texts of the output of the assistant, and texts and
images of the input of all others. -/
def ObeysRole (item : Value) : Prop :=
  textAt item "type" = some "message" → ∀ parts, item.get "content" = some (.array parts) →
    ∀ part ∈ parts,
      (textAt item "role" = some "assistant" → textAt part "type" = some "output_text") ∧
      (textAt item "role" ≠ some "assistant" →
        textAt part "type" = some "input_text" ∨ textAt part "type" = some "input_image")

/-- A normalized item obeys its role, unless it had an image of the assistant under its other
name. -/
theorem normalizeResponseItem_obeysRole (hitems : items.Lawful) {item normalized : Value}
    {index : ℕ} {calls : NamespaceCallMap}
    (h : normalizeResponseItem items item index calls = .ok normalized)
    (hnone : aliasesImage item = false) : ObeysRole normalized := by
  intro hmessage parts hparts part hpart
  obtain ⟨object, type, object', written, rfl, htype, -, hnormal, hwritten, hnormalized⟩ :=
    normalizeResponseItem_eq_ok.mp h
  have hfinish : normalized = finish calls written := hnormalized
  have hwritten_type : textAt written "type" = some "message" := by
    rw [← textAt_type_finish calls, ← hfinish, hmessage]
  -- Only a message is written as one.
  have hkind : type = "message" := by
    by_contra hkind
    rw [if_neg hkind] at hnormal
    cases hnormal
    have hsame := hwritten_type.symm.trans (hitems.type _ _ _ _ hwritten htype)
    split_ifs at hsame
    · exact absurd hsame (by decide)
    · exact hkind (Option.some.inj hsame).symm
  subst hkind
  rw [if_pos rfl] at hnormal
  obtain ⟨m, role, parts', rfl, -, -, hrole, -, hcontent, hnormals, himages⟩ :=
    written_message hitems htype hnormal hwritten
  rw [finish_other (by rw [hwritten_type]; decide) (by rw [hwritten_type]; decide)] at hfinish
  subst hfinish
  cases hcontent.symm.trans hparts
  rw [hrole]
  have himage := himages.mpr hnone part hpart
  unfold isAssistantImage at himage
  refine ⟨fun hassistant => ?_, fun hassistant => ?_⟩
  · rw [Option.some_inj] at hassistant
    rw [decide_eq_true hassistant, Bool.true_and, decide_eq_false_iff_not] at himage
    rcases (hnormals part hpart).kind with ⟨htext, -⟩ | hinput
    · rw [htext, textType, if_pos (by simpa using hassistant)]
    · exact absurd hinput himage
  · rcases (hnormals part hpart).kind with ⟨htext, -⟩ | hinput
    · left
      rw [htext, textType, if_neg (by simpa using hassistant)]
    · exact .inr hinput

end

/-- A request in the standard dialect is a fixed point of the normalization, and all its messages
obey their roles, exactly when the input has no message of the assistant with an image under the
name `image_url`, and no reasoning whose content has nothing that is read as a text of reasoning. -/
theorem normalizeResponsesRequest_again_iff (serde : Serde) (sha256 : Bytes → Bytes)
    (items : ItemLibrary) (hitems : items.Lawful) (request : Map Value) (hsorted : request.Sorted)
    (apiKeyAuth : Bool) (requestNamespace requestNamespace' : Option String) (standard : Value)
    (h : normalizeResponsesRequest serde sha256 items (.object request) apiKeyAuth false
      requestNamespace = .ok standard) :
    (normalizeResponsesRequest serde sha256 items standard apiKeyAuth false requestNamespace' =
        .ok standard ∧
      ∀ inputItems, standard.get "input" = some (.array inputItems) →
        ∀ item ∈ inputItems, ObeysRole item) ↔
      ∀ item ∈ inputOf request,
        aliasesImage item = false ∧ dropsContent items.isReasoningText item = false := by
  obtain ⟨object, hmembers, rfl⟩ := (normalizeResponsesRequest_standard serde sha256 items).mp h
  obtain ⟨hobject, calls, input, raw, normalizedItems, hinput, hraw, hrun, hget, hagain⟩ :=
    normalizeMembers_again hsorted hmembers
  have hstable (item : Value) : items.isStable item = true ↔
      aliasesImage item = false ∧ dropsContent items.isReasoningText item = false := by
    simp [ItemLibrary.isStable]
  rw [forall₂_congr fun item _ => (hstable item).symm, ← rawItems_stable_iff hinput hraw]
  -- The request with the members that every request has.
  generalize hm : (object.insert "store" (.bool false)).insert "stream" (.bool true) = m
  have hstored : stored object = .object m := by
    rw [stored, hm]
  have hmsorted : m.Sorted := by
    rw [← hm]
    exact (hobject.insert _ _).insert _ _
  have hread (key : String) : m.get key = if key = "stream" then some (.bool true)
      else if key = "store" then some (.bool false) else object.get key := by
    rw [← Value.get_object, ← hstored, get_stored]
  have hminput : m.get "input" = some (.array normalizedItems) := by
    rw [hread, if_neg (by decide), if_neg (by decide), hget]
  have hsecond := hagain m hmsorted fun key hkey => by
    simp only [List.mem_cons, List.not_mem_nil, or_false, not_or] at hkey
    rw [hread, if_neg hkey.2, if_neg hkey.1]
  have hitems_again := normalizedItems_again_iff hitems hrun
  have hnonempty : rawItems (.array normalizedItems) = some normalizedItems := by
    have hall := mapM_zipIdx_forall₂
      (f := fun item i => normalizeResponseItem items item i calls) hrun
    cases hall with
    | nil => exact absurd rfl (rawItems_ne_nil hraw)
    | cons => rfl
  rw [hstored, normalizeResponsesRequest_standard]
  constructor
  · rintro ⟨⟨m', hm', hsame⟩, -⟩
    obtain ⟨input', raw', again, hinput', hraw', hrun', rfl⟩ :=
      normalizeInput_eq_ok.mp ((hsecond m').mp hm')
    cases hminput.symm.trans hinput'
    cases hnonempty.symm.trans hraw'
    -- The result is the same request, so its items are the same, too.
    have hfixed : normalizedItems = again := by
      have hinputs := congrArg (fun v => Value.get v "input") hsame
      simp only [get_stored] at hinputs
      rw [if_neg (by decide), if_neg (by decide), Map.get_insert, if_pos rfl, Value.get_object,
        hminput] at hinputs
      exact Value.array.inj (Option.some.inj hinputs)
    rw [← hfixed] at hrun'
    exact hitems_again.mp hrun'
  · intro hraw_stable
    have hfixed := hitems_again.mpr hraw_stable
    refine ⟨⟨m, (hsecond m).mpr (normalizeInput_eq_ok.mpr ⟨_, _, _, hminput, hnonempty, hfixed,
      (hmsorted.insert_erase_of_get hminput).symm⟩), ?_⟩, ?_⟩
    · rw [stored, hmsorted.insert_of_get (by rw [hread]; rfl),
        hmsorted.insert_of_get (by rw [hread]; rfl)]
    · intro inputItems hinputItems normalized hnormalized
      cases hminput.symm.trans hinputItems
      have hall := mapM_zipIdx_forall₂
        (f := fun item i => normalizeResponseItem items item i calls) hrun
      obtain ⟨item, hitem, i, hnormal⟩ := exists_of_forall₂ hall.flip hnormalized
      exact normalizeResponseItem_obeysRole hitems hnormal
        ((hstable item).mp (hraw_stable item hitem)).1

/-- Whether a document is an object whose keys are in order. -/
def isOrdered : Value → Bool
  | .object m => decide (Map.Sorted m)
  | _ => false

/-- Whether a part names itself a text of reasoning. -/
def isReasoningTag (part : Value) : Bool := textAt part "type" = some "reasoning_text"

/-- Whether a document is an item that is written as it is read. -/
def isItem (item : Value) : Bool :=
  isOrdered item && !dropsContent isReasoningTag item &&
    textAt item "type" ≠ some "compaction_summary" && (textAt item "type" ≠ some "message" ||
      ((item.get "content").bind Value.asArray).any (·.all isOrdered))

/-- A library that reads such items only. -/
def strictItems : ItemLibrary where
  Item := Value
  fromValue item := if isItem item then .ok item else .error "invalid item"
  isOther _ := false
  id item := textAt item "id"
  clearId
    | .object item => .object (Map.erase item "id")
    | item => item
  toValue := .ok
  isReasoningText := isReasoningTag

/-- An item is written without an id that has no prefix, and otherwise as it is. -/
theorem reserialize_strictItems {item written : Value} {index : ℕ} :
    reserialize strictItems item index = .ok written ↔ isItem item = true ∧ ∃ m : Map Value,
      item = .object m ∧ m.Sorted ∧ written =
        .object (if (textAt item "id").any (!isPrefixed ·) then Map.erase m "id" else m) := by
  unfold reserialize
  constructor
  · intro h
    have hitem : isItem item = true := by
      by_contra hnot
      simp only [strictItems, if_neg hnot] at h
      cases h
    have hordered : isOrdered item = true := by
      unfold isItem at hitem
      rw [Bool.and_eq_true, Bool.and_eq_true, Bool.and_eq_true] at hitem
      exact hitem.1.1.1
    cases item with
    | object m =>
      refine ⟨hitem, m, rfl, of_decide_eq_true hordered, ?_⟩
      simp only [strictItems, if_pos hitem, Bool.false_eq_true, if_false] at h
      rw [apply_ite Value.object]
      exact (Except.ok.inj h).symm
    | _ => cases hordered
  · rintro ⟨hitem, m, rfl, -, rfl⟩
    simp only [strictItems, if_pos hitem, Bool.false_eq_true, if_false]
    rw [apply_ite Value.object]
    rfl

/-- Whether a document is an item depends on its order, its type and its content. -/
theorem isItem_congr {m m' : Map Value} (hm' : m'.Sorted)
    (hsame : ∀ key ∈ ["type", "content"], m'.get key = m.get key)
    (h : isItem (.object m) = true) : isItem (.object m') = true := by
  have htype : textAt (.object m') "type" = textAt (.object m) "type" := by
    rw [textAt, Value.get_object, hsame _ (by decide)]
    rfl
  have hordered : isOrdered (.object m') = true := decide_eq_true hm'
  unfold isItem dropsContent at h ⊢
  rw [Value.get_object, hsame _ (by decide), htype, hordered, Bool.true_and]
  simp only [Bool.and_eq_true] at h
  simp only [Bool.and_eq_true]
  exact ⟨⟨h.1.1.2, h.1.2⟩, h.2⟩

/-- An item that is written as it is stays one when other members change. -/
theorem reserialize_strictItems_congr {m m' : Map Value} {index : ℕ}
    (h : reserialize strictItems (.object m) index = .ok (.object m)) (hm' : m'.Sorted)
    (hsame : ∀ key ∈ ["type", "content", "id"], m'.get key = m.get key) (index' : ℕ) :
    reserialize strictItems (.object m') index' = .ok (.object m') := by
  obtain ⟨hitem, m₁, hm₁, -, hwritten⟩ := reserialize_strictItems.mp h
  cases hm₁
  have hprefixed : (textAt (.object m) "id").any (!isPrefixed ·) = false := by
    by_contra hbad
    rw [Bool.not_eq_false] at hbad
    rw [if_pos hbad] at hwritten
    -- The id would have been removed, but it is there.
    have hnone : m.get "id" = none := by
      rw [Value.object.inj hwritten, Map.get_erase, if_pos rfl]
    rw [textAt, Value.get_object, hnone] at hbad
    cases hbad
  have hid : textAt (.object m') "id" = textAt (.object m) "id" := by
    rw [textAt, Value.get_object, hsame _ (by decide)]
    rfl
  refine reserialize_strictItems.mpr ⟨isItem_congr hm' (fun key hkey => hsame key ?_) hitem, m',
    rfl, hm', ?_⟩
  · simp only [List.mem_cons, List.not_mem_nil, or_false] at hkey ⊢
    tauto
  · rw [hid, hprefixed]
    rfl

/-- What is written is an item that is written as it is, with the members of the one that was read
but for its id. -/
theorem reserialize_strictItems_spec {item written : Value} {index : ℕ}
    (h : reserialize strictItems item index = .ok written) :
    isItem item = true ∧ ∃ m : Map Value, written = .object m ∧ m.Sorted ∧
      (∀ key, key ≠ "id" → written.get key = item.get key) ∧
      ∀ index', reserialize strictItems written index' = .ok written := by
  obtain ⟨hitem, m, rfl, hm, rfl⟩ := reserialize_strictItems.mp h
  refine ⟨hitem, _, rfl, ?_, fun key hkey => ?_, fun index' => ?_⟩
  · split_ifs
    · exact hm.erase "id"
    · exact hm
  · split_ifs
    · rw [Value.get_object, Map.get_erase, if_neg hkey, Value.get_object]
    · rfl
  · split_ifs with hid
    · -- The id is gone, so nothing is removed again.
      have hkept : ∀ key ∈ ["type", "content"], (Map.erase m "id").get key = m.get key := by
        intro key hkey
        rw [Map.get_erase, if_neg (by rintro rfl; exact absurd hkey (by decide))]
      refine reserialize_strictItems.mpr ⟨isItem_congr (hm.erase "id") hkept hitem, _, rfl,
        hm.erase "id", ?_⟩
      rw [textAt, Value.get_object, Map.get_erase, if_pos rfl]
      rfl
    · refine reserialize_strictItems.mpr ⟨hitem, m, rfl, hm, ?_⟩
      rw [if_neg hid]

/-- The library keeps its laws. -/
theorem strictItems_lawful : strictItems.Lawful where
  type item index written type h htype := by
    obtain ⟨hitem, m, -, -, hsame, -⟩ := reserialize_strictItems_spec h
    have hsummary : type ≠ "compaction_summary" := by
      rintro rfl
      unfold isItem at hitem
      simp [htype] at hitem
    rw [textAt, hsame _ (by decide), if_neg hsummary]
    exact htype
  sorted item index written h := by
    obtain ⟨-, m, hm, hsorted, -⟩ := reserialize_strictItems_spec h
    exact ⟨m, hm, hsorted⟩
  message item index written h htype parts hparts _ := by
    obtain ⟨hitem, m, -, -, hsame, -⟩ := reserialize_strictItems_spec h
    unfold isItem at hitem
    simp only [htype, hparts, Option.bind_some, Value.asArray, ne_eq, not_true_eq_false,
      decide_false, Bool.false_or, Bool.and_eq_true, Option.any_some] at hitem
    have hordered := hitem.2
    refine ⟨by rw [textAt, hsame _ (by decide)]; rfl, parts, (hsame _ (by decide)).trans hparts,
      List.forall₂_same.mpr fun part hpart => ?_⟩
    refine ⟨rfl, fun _ => rfl, ?_⟩
    have hpart_ordered := List.all_eq_true.mp hordered part hpart
    cases part with
    | object m => exact ⟨m, rfl, of_decide_eq_true hpart_ordered⟩
    | _ => cases hpart_ordered
  settles item index written h _ index' := by
    obtain ⟨hitem, -, -, -, -, hagain⟩ := reserialize_strictItems_spec h
    -- Items whose content would be left out are none of this library's.
    have hkeeps : dropsContent isReasoningTag item = false := by
      unfold isItem at hitem
      rw [Bool.and_eq_true, Bool.and_eq_true, Bool.and_eq_true] at hitem
      simpa using hitem.1.1.2
    exact iff_of_true (hagain index') hkeeps
  split m index h htype ns name index' := by
    obtain ⟨-, m₁, hm₁, hm, -⟩ := reserialize_strictItems_spec h
    cases hm₁
    refine reserialize_strictItems_congr h ((hm.insert _ _).insert _ _) (fun key hkey => ?_) index'
    have hnot : ∀ key ∈ ["type", "content", "id"], key ≠ "namespace" ∧ key ≠ "name" := by decide
    rw [Map.get_insert, if_neg (hnot key hkey).2, Map.get_insert, if_neg (hnot key hkey).1]
  unname m index h htype index' := by
    obtain ⟨-, m₁, hm₁, hm, -⟩ := reserialize_strictItems_spec h
    cases hm₁
    refine reserialize_strictItems_congr h (hm.erase _) (fun key hkey => ?_) index'
    have hnot : ∀ key ∈ ["type", "content", "id"], key ≠ "name" := by decide
    rw [Map.get_erase, if_neg (hnot key hkey)]

/-- A request whose input is a message with a text and an image under its other name. -/
def aliasedRequest (role : String) : Map Value :=
  Map.ofEntries [("model", .string "m"), ("input", .array [.obj [("type", .string "message"),
    ("role", .string role), ("content", .array [.obj [("type", .string "text"),
      ("text", .string "hi")], .obj [("type", .string "image_url"),
      ("image_url", .string "data:,")]])]])]

/-- From the user, the normalized request is a fixed point. -/
theorem normalizeResponsesRequest_again_iff_user :
    ∃ standard, normalizeResponsesRequest Compact.serde goDigest strictItems
        (.object (aliasedRequest "user")) false false none = .ok standard ∧
      normalizeResponsesRequest Compact.serde goDigest strictItems standard false false none =
        .ok standard := by
  obtain ⟨standard, hok⟩ : ∃ standard, normalizeResponsesRequest Compact.serde goDigest strictItems
      (.object (aliasedRequest "user")) false false none = .ok standard :=
    exists_eq_ok (by decide)
  refine ⟨standard, hok, ((normalizeResponsesRequest_again_iff Compact.serde goDigest strictItems
    strictItems_lawful _ (Map.ofEntries_sorted _) _ _ none standard hok).mpr ?_).1⟩
  have hall : ((inputOf (aliasedRequest "user")).all fun item =>
      !aliasesImage item && !dropsContent isReasoningTag item) = true := by
    decide
  intro item hitem
  change aliasesImage item = false ∧ dropsContent isReasoningTag item = false
  simpa using List.all_eq_true.mp hall item hitem

/-- From the assistant, the image is accepted under one name and refused under the other. -/
theorem normalizeResponsesRequest_again_refused :
    strictItems.Lawful ∧ (aliasedRequest "assistant").Sorted ∧
    ∃ standard, normalizeResponsesRequest Compact.serde goDigest strictItems
        (.object (aliasedRequest "assistant")) false false none = .ok standard ∧
      normalizeResponsesRequest Compact.serde goDigest strictItems standard false false none =
        .error "message item 0 content part 1 has unsupported type" := by
  refine ⟨strictItems_lawful, Map.ofEntries_sorted _, ?_⟩
  obtain ⟨standard, hok⟩ : ∃ standard, normalizeResponsesRequest Compact.serde goDigest strictItems
      (.object (aliasedRequest "assistant")) false false none = .ok standard :=
    exists_eq_ok (by decide)
  have hrun : (normalizeResponsesRequest Compact.serde goDigest strictItems
      (.object (aliasedRequest "assistant")) false false none >>= fun standard =>
        normalizeResponsesRequest Compact.serde goDigest strictItems standard false false none) =
      .error "message item 0 content part 1 has unsupported type" := by
    decide
  rw [hok] at hrun
  exact ⟨standard, hok, hrun⟩

end MuseCodex.Transport
