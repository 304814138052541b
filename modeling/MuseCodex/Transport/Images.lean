import MuseCodex.Transport.Items

/-!
# The gate for images

A request is checked against the row of its model before it is normalized. Whether it has an image
is found out by looking at the parts of the raw body, under both names that an image can have there.
The normalization brings in no image that this does not see: a text becomes a text, an image comes
from an image, and nothing that is added at the start of the input has one
(`validateModelRequest_noImage`).
-/

namespace MuseCodex.Transport

open Text Json Fallible

/-! ## The check of a request -/

/-- What is known of a model of the catalog when a request is checked. -/
structure ModelCapabilities where
  isVisible : Bool
  useResponsesLite : Bool
  toolMode : Option String
  inputModalities : List String
  supportedReasoningEfforts : List String
  supportsFastMode : Bool

/-- Whether a part is an image, under one of its names. -/
def isImagePart (part : Value) : Bool :=
  textAt part "type" = some "input_image" || textAt part "type" = some "image_url"

/-- Whether a member of an item is an array with an image. -/
def holdsImage (item : Value) (key : String) : Bool :=
  ((item.get key).bind Value.asArray).any fun parts => parts.any isImagePart

/-- Whether a request has an image. -/
def requestContainsImage (body : Value) : Bool :=
  ((body.get "input").bind Value.asArray).any fun items => items.any fun item =>
    holdsImage item "content" || holdsImage item "output"

/-- The effort that a request asks for. -/
def requestedEffort (body : Value) : Option String :=
  (((body.get "reasoning").bind Value.asObject).bind (·.get "effort")).bind Value.asStr

/-- Checks a request against the catalog. A request with a key may name a model that is not in
it. -/
def validateModelRequest (modelCapabilities : Map ModelCapabilities) (body : Value)
    (apiKeyAuth : Bool) : Except String (Option ModelCapabilities) :=
  match (body.get "model").bind Value.asStr with
  | none => .error "model must be a string"
  | some model => match modelCapabilities.get model with
    | none =>
      if apiKeyAuth then .ok none
      else .error "model is not available in the authenticated Codex catalog"
    | some capabilities =>
      if !capabilities.isVisible then .error "model is not available for interactive use"
      else if capabilities.toolMode = some "code_mode_only" && !capabilities.useResponsesLite then
        .error "model requires the Responses Lite tool protocol"
      else if requestContainsImage body && "image" ∉ capabilities.inputModalities then
        .error "model does not accept image input"
      else if (requestedEffort body).any fun effort =>
          capabilities.supportedReasoningEfforts ≠ [] &&
            effort ∉ capabilities.supportedReasoningEfforts then
        .error "reasoning effort is not supported by the selected model"
      else .ok (some capabilities)

/-- A request that is accepted for a model without images has none that the check sees. -/
theorem requestContainsImage_of_validate {modelCapabilities : Map ModelCapabilities} {body : Value}
    {apiKeyAuth : Bool} {row : ModelCapabilities}
    (h : validateModelRequest modelCapabilities body apiKeyAuth = .ok (some row))
    (hrow : "image" ∉ row.inputModalities) : requestContainsImage body = false := by
  unfold validateModelRequest at h
  split at h
  · cases h
  · split at h
    · split_ifs at h
      cases h
    · split_ifs at h with _ _ himage _
      cases h
      rw [Bool.and_eq_true, not_and, decide_eq_true_eq] at himage
      by_contra hcontains
      rw [Bool.not_eq_false] at hcontains
      exact himage hcontains hrow

/-! ## Images through the normalization -/

/-- Whether a member of an item is an array with an image that the upstream takes for one. -/
def HasInputImage (item : Value) (key : String) : Prop :=
  ∃ parts, item.get key = some (.array parts) ∧
    ∃ part ∈ parts, textAt part "type" = some "input_image"

/-- A library that adds no image to the content or the output of an item. -/
def ItemLibrary.AddsNoImage (items : ItemLibrary) : Prop :=
  ∀ item written, items.Writes item written → ∀ key ∈ ["content", "output"],
    HasInputImage written key → HasInputImage item key

/-- The check sees an image of an item. -/
theorem holdsImage_of_hasInputImage {item : Value} {key : String} (h : HasInputImage item key) :
    holdsImage item key = true := by
  obtain ⟨parts, hparts, part, hpart, htype⟩ := h
  unfold holdsImage
  rw [hparts, Option.bind_some, Value.asArray_array, Option.any_some, List.any_eq_true]
  exact ⟨part, hpart, by simp [isImagePart, htype]⟩

section

variable {items : ItemLibrary}

/-- An image of a message that has been put into parts was one before, in the same member. -/
theorem holdsImage_of_normalizeMessageItem {object object' : Map Value} {index : ℕ}
    (h : normalizeMessageItem object index = .ok object') {key : String}
    (himage : HasInputImage (.object object') key) : holdsImage (.object object) key = true := by
  obtain ⟨role, content, parts, parts', -, -, hcontent, hparts, hrun, rfl⟩ :=
    normalizeMessageItem_eq_ok.mp h
  obtain ⟨found, hfound, part', hpart', htype'⟩ := himage
  rw [Value.get_object, Map.get_insert] at hfound
  split_ifs at hfound with hkey
  · cases hfound
    subst hkey
    have hparts' := mapM_zipIdx_forall₂
      (f := fun part j => normalizeContentPart part (role = "assistant") index j) hrun
    obtain ⟨part, hpart, i, hnormal⟩ := exists_of_forall₂ hparts'.flip hpart'
    -- The part was an image too, so the content is not a text.
    have himage : isImagePart part = true := by
      unfold isImagePart
      rcases normalizeContentPart_cases hnormal with ⟨-, htext, -⟩ | ⟨hurl, -⟩ | ⟨hinput, -, -⟩
      · rw [htext] at htype'
        cases hside : decide (role = "assistant") <;> simp [textType, hside] at htype'
      · simp [hurl]
      · simp [hinput]
    cases content with
    | array parts₁ =>
      cases hparts
      unfold holdsImage
      rw [Value.get_object, hcontent, Option.bind_some, Value.asArray_array, Option.any_some,
        List.any_eq_true]
      exact ⟨part, hpart, himage⟩
    | string text =>
      cases hparts
      rw [List.mem_singleton.mp hpart] at himage
      cases hside : decide (role = "assistant") <;>
        simp [isImagePart, textAt, textType, Value.obj, Map.ofEntries, hside] at himage
    | _ => cases hparts
  · exact holdsImage_of_hasInputImage ⟨found, hfound, part', hpart', htype'⟩

/-- An image of a normalized item is one that the check sees in the item. -/
theorem holdsImage_of_normalizeResponseItem (hitems : items.AddsNoImage) {item normalized : Value}
    {index : ℕ} {calls : NamespaceCallMap}
    (h : normalizeResponseItem items item index calls = .ok normalized) {key : String}
    (hkey : key ∈ ["content", "output"]) (himage : HasInputImage normalized key) :
    holdsImage item key = true := by
  obtain ⟨object, type, object', written, rfl, -, -, hmessage, hwritten, rfl⟩ :=
    normalizeResponseItem_eq_ok.mp h
  have hnot : ∀ key ∈ ["content", "output"], key ≠ "namespace" ∧ key ≠ "name" := by decide
  obtain ⟨hns, hname⟩ := hnot key hkey
  -- Neither the namespace nor the name is among the members that hold images.
  have hwrites : HasInputImage written key := by
    obtain ⟨parts, hparts, hpart⟩ := himage
    rw [get_removeResultName _ hname, get_restoreNamespace _ _ hns hname] at hparts
    exact ⟨parts, hparts, hpart⟩
  have hbefore := hitems _ _ (writes_of_reserialize hwritten) key hkey hwrites
  split_ifs at hmessage
  · exact holdsImage_of_normalizeMessageItem hmessage hbefore
  · cases hmessage
    exact holdsImage_of_hasInputImage hbefore

/-- The items of a request that has no image that the check sees have none after the
normalization. -/
theorem noInputImage_of_normalizeMembers (hitems : items.AddsNoImage) {body : Value}
    {apiKeyAuth : Bool} {object : Map Value}
    (h : normalizeMembers items body apiKeyAuth = .ok object)
    (hbody : requestContainsImage body = false) :
    ∃ inputItems, object.get "input" = some (.array inputItems) ∧
      ∀ item ∈ inputItems, ∀ key ∈ ["content", "output"], ¬ HasInputImage item key := by
  obtain ⟨request, model, o₁, o₂, o₃, o₄, calls, o₅, o₆, o₇, o₈, o₉, rfl, -, -, h₁, h₂, h₃, h₄, -, h₅,
    h₆, h₇, h₈, h₉, h⟩ := normalizeMembers_eq_ok.mp h
  have before : Touches _ request o₄ := (((normalizeInstructions_spec h₁).1.trans
    (rejectStatefulReference_touches h₂)).trans (rejectStatefulReference_touches h₃)).trans
      (normalizeTools_spec h₄).1
  have after : Touches _ o₅ object := (normalizeToolChoice_touches h₆).trans
    ((normalizeParallelToolCalls_touches h₇).trans ((normalizeReasoning_spec h₈).1.trans
      ((normalizeInclude_touches h₉).trans (normalizeAccount_touches h))))
  obtain ⟨input, raw, inputItems, hinput, hraw, hrun, rfl⟩ := normalizeInput_eq_ok.mp h₅
  rw [before _ (by decide)] at hinput
  refine ⟨inputItems, by rw [after _ (by decide), Map.get_insert, if_pos rfl], ?_⟩
  intro normalized hnormalized key hkey himage
  have hall := mapM_zipIdx_forall₂
    (f := fun item i => normalizeResponseItem items item i calls) hrun
  obtain ⟨item, hitem, i, hnormal⟩ := exists_of_forall₂ hall.flip hnormalized
  have hholds := holdsImage_of_normalizeResponseItem hitems hnormal hkey himage
  -- The item is one of the input, or it is the message that a text stands for, without images.
  cases input with
  | array rawInput =>
    have hmem : item ∈ rawInput := by
      cases rawInput with
      | nil => cases hraw
      | cons first rest =>
        cases hraw
        exact hitem
    have hcontains : requestContainsImage (.object request) = true := by
      unfold requestContainsImage
      rw [Value.get_object, hinput, Option.bind_some, Value.asArray_array, Option.any_some,
        List.any_eq_true]
      refine ⟨item, hmem, ?_⟩
      simp only [List.mem_cons, List.not_mem_nil, or_false] at hkey
      rcases hkey with rfl | rfl
      · rw [hholds, Bool.true_or]
      · rw [hholds, Bool.or_true]
    rw [hbody] at hcontains
    cases hcontains
  | string text =>
    cases hraw
    rw [List.mem_singleton.mp hitem] at hholds
    simp only [List.mem_cons, List.not_mem_nil, or_false] at hkey
    rcases hkey with rfl | rfl <;>
      simp [holdsImage, isImagePart, textAt, Value.obj, Map.ofEntries] at hholds
  | _ => cases hraw

end

/-- Removing the details of images makes no image. -/
theorem hasInputImage_of_sameButDetails {item item' : Value} (h : SameButDetails item item')
    {key : String} (himage : HasInputImage item' key) : HasInputImage item key := by
  obtain ⟨parts', hparts', part', hpart', htype⟩ := himage
  unfold SameButDetails at h
  split at h
  · rw [h] at hparts'
    exact ⟨parts', hparts', part', hpart', htype⟩
  · rename_i key₀ _
    by_cases hkey : key = key₀
    · subst hkey
      by_cases hparts : ∃ parts, item.get key = some (.array parts)
      · obtain ⟨parts, hparts⟩ := hparts
        obtain ⟨stripped, hstripped, hget⟩ := h.parts parts hparts
        cases hget.symm.trans hparts'
        obtain ⟨part, hpart, hwithout⟩ := exists_of_forall₂ hstripped.flip hpart'
        refine ⟨parts, hparts, part, hpart, ?_⟩
        -- The type stays, whether or not the part is an image.
        split_ifs at hwithout with himage
        · exact himage
        · rw [← hwithout]
          exact htype
      · rw [h.text fun parts heq => hparts ⟨parts, heq⟩] at hparts'
        exact absurd ⟨parts', hparts'⟩ hparts
    · rw [h.others key hkey] at hparts'
      exact ⟨parts', hparts', part', hpart', htype⟩

/-- An item that carries an image: a message in its content, or the result of a call in its
output. -/
def CarriesImage (item : Value) : Prop := ∃ key ∈ imageKey item, HasInputImage item key

/-- Images are in the content or in the output of an item. -/
theorem imageKey_mem {item : Value} {key : String} (h : key ∈ imageKey item) :
    key ∈ ["content", "output"] := by
  unfold imageKey at h
  split at h
  · cases h
    decide
  · cases h
    decide
  · cases h
    decide
  · cases h

/-- The items at the start of a request in Responses Lite carry no image. -/
theorem not_carriesImage_start (toolsId messageId instructions : String) (tools : List Value) :
    ¬ CarriesImage (additionalTools toolsId tools) ∧
      ¬ CarriesImage (developerMessage messageId instructions) := by
  constructor
  · rintro ⟨key, hkey, -⟩
    have hnone : imageKey (additionalTools toolsId tools) = none := by
      simp [imageKey, additionalTools, Value.obj, Map.ofEntries]
    rw [hnone] at hkey
    cases hkey
  · rintro ⟨key, hkey, parts, hparts, part, hpart, htype⟩
    have hcontent : imageKey (developerMessage messageId instructions) = some "content" := by
      simp [imageKey, developerMessage, Value.obj, Map.ofEntries]
    rw [hcontent] at hkey
    cases hkey
    have hget : (developerMessage messageId instructions).get "content" =
        some (.array [.obj [("type", .string "input_text"), ("text", .string instructions)]]) := by
      simp [developerMessage, Value.obj, Map.ofEntries]
    cases hget.symm.trans hparts
    rw [List.mem_singleton.mp hpart] at htype
    simp [textAt, Value.obj, Map.ofEntries] at htype

/-- A request that is accepted for a model without images carries none after the normalization, in
either dialect. -/
theorem validateModelRequest_noImage (serde : Serde) (sha256 : Bytes → Bytes) (items : ItemLibrary)
    (hitems : items.AddsNoImage) (modelCapabilities : Map ModelCapabilities) (body : Value)
    (apiKeyAuth : Bool) (row : ModelCapabilities) (hrow : "image" ∉ row.inputModalities)
    (hvalid : validateModelRequest modelCapabilities body apiKeyAuth = .ok (some row))
    (useResponsesLite : Bool) (requestNamespace : Option String) (normalized : Value)
    (h : normalizeResponsesRequest serde sha256 items body apiKeyAuth useResponsesLite
      requestNamespace = .ok normalized) :
    ∃ inputItems, normalized.get "input" = some (.array inputItems) ∧
      ∀ item ∈ inputItems, ¬ CarriesImage item := by
  -- A model without images was only accepted with a request that has none.
  have hbody := requestContainsImage_of_validate hvalid hrow
  have hread (object : Map Value) : (stored object).get "input" = object.get "input" := by
    rw [get_stored, if_neg (by decide), if_neg (by decide)]
  cases useResponsesLite with
  | false =>
    obtain ⟨object, hmembers, rfl⟩ := (normalizeResponsesRequest_standard serde sha256 items).mp h
    obtain ⟨inputItems, hinput, hnone⟩ := noInputImage_of_normalizeMembers hitems hmembers hbody
    refine ⟨inputItems, by rw [hread, hinput], ?_⟩
    rintro item hitem ⟨key, hkey, himage⟩
    exact hnone item hitem key (imageKey_mem hkey) himage
  | true =>
    obtain ⟨object, requestNamespace', object', hmembers, -, hlite, rfl⟩ :=
      (normalizeResponsesRequest_true serde sha256 items).mp h
    obtain ⟨inputItems, hinput, hnone⟩ := noInputImage_of_normalizeMembers hitems hmembers hbody
    obtain ⟨instructions, tools, grouped, inputItems', reasoning, -, -, -, hinput', -, rfl⟩ :=
      normalizeResponsesLiteRequest_eq_ok.mp hlite
    cases hinput.symm.trans hinput'
    obtain ⟨htools, hmessage⟩ := not_carriesImage_start
      (stablePrefixItemId serde sha256 "at" requestNamespace' (.array grouped))
      (stablePrefixItemId serde sha256 "msg" requestNamespace' (.string instructions))
      instructions grouped
    refine ⟨additionalTools (stablePrefixItemId serde sha256 "at" requestNamespace'
        (.array grouped)) grouped ::
      ((if instructions = "" then [] else [developerMessage (stablePrefixItemId serde sha256 "msg"
        requestNamespace' (.string instructions)) instructions]) ++
        inputItems.map stripResponsesLiteImageDetails), ?_, ?_⟩
    · rw [hread]
      simp [liteObject]
    · intro item hitem
      rcases List.mem_cons.mp hitem with rfl | hitem
      · exact htools
      · rcases List.mem_append.mp hitem with hitem | hitem
        · split_ifs at hitem
          · cases hitem
          · rw [List.mem_singleton.mp hitem]
            exact hmessage
        · -- Taking out the detail of an image adds none.
          obtain ⟨item, hmem, rfl⟩ := List.mem_map.mp hitem
          rintro ⟨key, hkey, himage⟩
          exact hnone item hmem key (imageKey_mem hkey)
            (hasInputImage_of_sameButDetails (stripResponsesLiteImageDetails_same item) himage)

/-- The library adds no image. -/
theorem plainItems_addsNoImage : plainItems.AddsNoImage := by
  rintro item written ⟨parsed, hparsed, hwritten⟩ key hkey ⟨parts, hparts, hpart⟩
  cases hparsed
  rcases hwritten with hwritten | hwritten
  · cases hwritten
    exact ⟨parts, hparts, hpart⟩
  · have hne : key ≠ "id" := by
      rintro rfl
      exact absurd hkey (by decide)
    cases hwritten
    cases item with
    | object object =>
      have hkept : Map.get (Map.erase object "id") key = some (.array parts) := hparts
      rw [Map.get_erase, if_neg hne] at hkept
      exact ⟨parts, hkept, hpart⟩
    | _ => exact ⟨parts, hparts, hpart⟩

/-- A model that takes texts only. -/
def textModel : ModelCapabilities := ⟨true, true, none, ["text"], ["low"], false⟩

/-- The request with parts and an output that are texts is accepted for the model, and carries no
image in Responses Lite. -/
theorem validateModelRequest_noImage_go :
    validateModelRequest [("m", textModel)] (goRequest [] []) false = .ok (some textModel) ∧
      ∃ normalized inputItems, normalizeResponsesRequest Compact.serde goDigest plainItems
          (goRequest [] []) false true (some "s") = .ok normalized ∧
        normalized.get "input" = some (.array inputItems) ∧
        ∀ item ∈ inputItems, ¬ CarriesImage item := by
  have hvalid : validateModelRequest [("m", textModel)] (goRequest [] []) false =
      .ok (some textModel) := rfl
  obtain ⟨normalized, hok⟩ : ∃ normalized, normalizeResponsesRequest Compact.serde goDigest
      plainItems (goRequest [] []) false true (some "s") = .ok normalized :=
    exists_eq_ok (by decide +kernel)
  obtain ⟨inputItems, hinput, hnone⟩ := validateModelRequest_noImage Compact.serde goDigest
    plainItems plainItems_addsNoImage _ _ _ textModel (by decide) hvalid _ _ _ hok
  exact ⟨hvalid, normalized, inputItems, hok, hinput, hnone⟩

end MuseCodex.Transport
