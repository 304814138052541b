import MuseCodex.Fallible
import MuseCodex.Transport.Request

/-!
# The catalog of models

The normalization of `crates/codex-transport/src/transport.rs` that turns the answer of an upstream
to `/models` into the rows of the catalog. The rows are checked and reduced one by one, in the order
of their priorities, and the first visible row becomes the default. For the public API the rows that
the account has are completed from a catalog that is bundled with the gateway.

Decoding the answer is the work of a derived decoder, which is a parameter. The integers have the
widths that the decoder checks.
-/

namespace MuseCodex.Transport

open Text

/-- The largest number of models in a catalog. -/
def MAX_MODELS : ℕ := 4096

/-- The version of the client whose wire format the gateway speaks. -/
def CODEX_WIRE_COMPATIBILITY_VERSION : String := "0.153.4"

/-! ## Rows -/

/-- The oldest client that may use a model. -/
inductive UpstreamClientVersion where
  | text (version : String)
  | triple (major minor patch : UInt64)

/-- A model in the answer of the upstream. -/
structure UpstreamModel where
  slug : String
  displayName : Option String := none
  description : Option String := none
  contextWindow : Option Int64 := none
  maxOutputTokens : Option Int64 := none
  supportedReasoningLevels : List String := []
  defaultReasoningLevel : Option String := none
  priority : Int32 := 0
  visibility : Option String := none
  minimalClientVersion : Option UpstreamClientVersion := none
  useResponsesLite : Bool := false
  toolMode : Option String := none
  inputModalities : List String := []
  supportedInApi : Bool := true
  serviceTiers : List String := []
  additionalSpeedTiers : List String := []

/-- The answer of the upstream: a subscription lists models, the public API data. -/
structure UpstreamModelsResponse where
  models : List UpstreamModel := []
  data : List UpstreamModel := []

/-- A row of the catalog. -/
structure ModelInfo where
  id : String
  displayName : Option String
  description : Option String
  contextWindow : Option UInt64
  maxOutputTokens : Option UInt64
  supportedReasoningEfforts : List String
  defaultReasoningEffort : Option String
  isVisible : Bool
  isDefault : Bool
  useResponsesLite : Bool
  toolMode : Option String
  inputModalities : List String
  supportedInApi : Bool
  supportsFastMode : Bool

/-! ## Checks -/

/-- Checks a text of the catalog. A blank text is none. -/
def normalizeCatalogText (value : Option String) (maxBytes : ℕ) (allowNewlines : Bool) :
    Except String (Option String) :=
  match value with
  | none => .ok none
  | some value =>
    if trim value = "" then .ok none
    else if maxBytes < value.utf8ByteSize || value.toList.any fun character =>
        isControl character && !(allowNewlines && character ∈ ['\n', '\r', '\t']) then
      .error "model catalog returned invalid display text"
    else .ok (some value)

/-- Checks a limit of the catalog. -/
def normalizeModelLimit (value : Option Int64) : Except String (Option UInt64) :=
  match value with
  | none => .ok none
  | some value =>
    if 0 < value then .ok (some value.toUInt64)
    else .error "model catalog returned a non-positive token limit"

/-- Adds an input modality, unless it is there. -/
def addInputModality (normalized : List String) (modality : String) :
    Except String (List String) :=
  if modality = "" || 32 < modality.utf8ByteSize || modality.toList.any isWhitespace ||
      modality.toList.any isControl then
    .error "model catalog returned an invalid input modality"
  else .ok (if modality ∈ normalized then normalized else normalized ++ [modality])

/-- Checks the input modalities. -/
def normalizeInputModalities (modalities : List String) : Except String (List String) :=
  modalities.foldlM addInputModality []

/-- An unsigned number of 64 bits, with an optional sign. -/
def parseU64 (text : String) : Option ℕ :=
  let digits := ((stripPrefix '+' text).getD text).toList
  if digits = [] || !digits.all Char.isDigit then none
  else
    let n := digits.foldl (fun n c => n * 10 + (c.toNat - '0'.toNat)) 0
    if n < 2 ^ 64 then some n else none

/-- The three numbers of a version. -/
def parseVersion (version : String) : Option (ℕ × ℕ × ℕ) :=
  match (splitChars (· = '.') version.toList).map String.ofList with
  | [major, minor, patch] => do
    let major ← parseU64 major
    let minor ← parseU64 minor
    let patch ← parseU64 patch
    return (major, minor, patch)
  | _ => none

/-- Whether a version comes after another one. -/
def isLater (left right : ℕ × ℕ × ℕ) : Bool :=
  right.1 < left.1 || (right.1 = left.1 && (right.2.1 < left.2.1 ||
    (right.2.1 = left.2.1 && right.2.2 < left.2.2)))

/-- The three numbers of the oldest client that may use a model. -/
def UpstreamClientVersion.numbers : UpstreamClientVersion → Option (ℕ × ℕ × ℕ)
  | .text version => parseVersion version
  | .triple major minor patch => some (major.toNat, minor.toNat, patch.toNat)

/-- Whether a model needs a later client than the gateway is compatible with. -/
def needsLaterClient (version : Option UpstreamClientVersion) : Except String Bool :=
  match version with
  | none => .ok false
  | some version => match version.numbers with
    | none => .error "model catalog returned an invalid minimum client version"
    | some left =>
      .ok ((parseVersion CODEX_WIRE_COMPATIBILITY_VERSION).any fun right => isLater left right)

/-- Whether a model is listed. -/
def isListed (visibility : Option String) : Except String Bool :=
  match visibility with
  | none | some "list" => .ok true
  | some "hide" | some "none" => .ok false
  | some _ => .error "model catalog returned unknown visibility"

/-- Adds an effort of reasoning that the gateway knows, unless it is there. -/
def addEffort (supported : List String) (effort : String) : List String :=
  if isReasoningEffort effort && effort ∉ supported then supported ++ [effort] else supported

/-- Normalizes a row, but for its id. -/
def normalizeModel (model : UpstreamModel) : Except String ModelInfo := do
  let listed ← isListed model.visibility
  let later ← needsLaterClient model.minimalClientVersion
  let knownMode := model.toolMode.all (· ∈ ["direct", "code_mode", "code_mode_only"])
  let efforts := model.supportedReasoningLevels.foldl addEffort []
  let knownEfforts := model.supportedReasoningLevels = [] || efforts ≠ []
  let inputModalities ← normalizeInputModalities model.inputModalities
  let takesText := inputModalities = [] || "text" ∈ inputModalities
  let displayName ← normalizeCatalogText model.displayName 512 false
  let description ← normalizeCatalogText model.description (16 * 1024) true
  let contextWindow ← normalizeModelLimit model.contextWindow
  let maxOutputTokens ← normalizeModelLimit model.maxOutputTokens
  return {
    id := model.slug
    displayName
    description
    contextWindow
    maxOutputTokens
    supportedReasoningEfforts := efforts
    defaultReasoningEffort := model.defaultReasoningLevel.filter (· ∈ efforts)
    isVisible := listed && !later && knownMode && knownEfforts && takesText
    isDefault := false
    useResponsesLite := model.useResponsesLite
    toolMode := model.toolMode
    inputModalities
    supportedInApi := model.supportedInApi
    supportsFastMode := "priority" ∈ model.serviceTiers || "fast" ∈ model.additionalSpeedTiers }

/-- Normalizes a row, after the rows before it and their ids. -/
def addModel (acc : List ModelInfo × List String) (model : UpstreamModel) :
    Except String (List ModelInfo × List String) :=
  match validateModelId model.slug with
  | .error _ => .error "model catalog returned an invalid id"
  | .ok () =>
    if model.slug ∈ acc.2 then .error "model catalog returned duplicate ids"
    else do
      let row ← normalizeModel model
      return (acc.1 ++ [row], acc.2 ++ [model.slug])

/-- Makes the first visible row the default. -/
def markDefault (models : List ModelInfo) : Except String (List ModelInfo) :=
  match models.findIdx? (·.isVisible) with
  | none => .error "model catalog has no visible models"
  | some index => .ok (models.modify index fun model => { model with isDefault := true })

section

variable (fromSlice : Bytes → Except String UpstreamModelsResponse)

/-- The catalog in the answer of an upstream. -/
def normalizeModels (bytes : Bytes) : Except String (List ModelInfo) :=
  match fromSlice bytes with
  | .error error => .error ("could not decode models response: " ++ error)
  | .ok upstream =>
    if !upstream.models.isEmpty && !upstream.data.isEmpty then
      .error "models response mixed subscription and public API catalog shapes"
    else
      let subscriptionCatalog := !upstream.models.isEmpty
      let upstreamModels := if subscriptionCatalog then upstream.models else upstream.data
      if upstreamModels.isEmpty then .error "models response contained no models"
      else if MAX_MODELS < upstreamModels.length then
        .error "models response exceeded the 4096-model limit"
      else
        let upstreamModels := if subscriptionCatalog then
            upstreamModels.mergeSort fun model model' => model.priority ≤ model'.priority
          else upstreamModels
        do
          let (models, _) ← upstreamModels.foldlM addModel ([], [])
          markDefault models

/-- Takes a row of the bundled catalog, if the account has a row with its id. -/
def mergeModel (acc : List ModelInfo × List ModelInfo) (metadata : ModelInfo) :
    List ModelInfo × List ModelInfo :=
  match acc.1.findIdx? (·.id = metadata.id) with
  | none => acc
  | some index =>
    let available := acc.1.eraseIdx index
    if !metadata.supportedInApi then (available, acc.2)
    else (available, acc.2 ++ [{ metadata with
      isVisible := metadata.isVisible && (acc.1[index]?).any (·.isVisible)
      isDefault := false }])

/-- The catalog of an account of the public API, completed from the bundled catalog. -/
def normalizeApiModelsWithBundledMetadata (bundledModelCatalog bytes : Bytes) :
    Except String (List ModelInfo) := do
  let available ← normalizeModels fromSlice bytes
  let bundled ← normalizeModels fromSlice bundledModelCatalog
  markDefault (bundled.foldl mergeModel (available, [])).2

end

/-! ## What a catalog guarantees -/

open Fallible

/-- What every row of a catalog guarantees. -/
structure ModelInfo.Valid (model : ModelInfo) : Prop where
  id : validateModelId model.id = .ok ()
  displayName : ∀ text ∈ model.displayName, text ≠ "" ∧ text.utf8ByteSize ≤ 512 ∧
    ∀ c ∈ text.toList, isControl c = false
  description : ∀ text ∈ model.description, text.utf8ByteSize ≤ 16 * 1024 ∧
    ∀ c ∈ text.toList, isControl c = true → c ∈ ['\n', '\r', '\t']
  contextWindow : ∀ limit ∈ model.contextWindow, 0 < limit.toNat ∧ limit.toNat < 2 ^ 63
  maxOutputTokens : ∀ limit ∈ model.maxOutputTokens, 0 < limit.toNat ∧ limit.toNat < 2 ^ 63
  efforts : model.supportedReasoningEfforts.Nodup
  effort : ∀ effort ∈ model.supportedReasoningEfforts, isReasoningEffort effort = true
  defaultEffort : ∀ effort ∈ model.defaultReasoningEffort,
    effort ∈ model.supportedReasoningEfforts

/-- What a catalog guarantees: valid rows with ids of their own, and one default, which is the first
visible row. -/
structure Catalog (models : List ModelInfo) : Prop where
  count : models.length ≤ MAX_MODELS
  valid : ∀ model ∈ models, model.Valid
  ids : (models.map (·.id)).Nodup
  default : ∃ before model after, models = before ++ model :: after ∧ model.isVisible = true ∧
    model.isDefault = true ∧ (∀ other ∈ before, other.isVisible = false) ∧
    ∀ other ∈ before ++ after, other.isDefault = false

/-- A text of the catalog is not empty, not long, and without control characters. -/
theorem normalizeCatalogText_ok {value text : Option String} {maxBytes : ℕ}
    {allowNewlines : Bool} (h : normalizeCatalogText value maxBytes allowNewlines = .ok text) :
    ∀ t ∈ text, t ≠ "" ∧ t.utf8ByteSize ≤ maxBytes ∧ ∀ c ∈ t.toList, isControl c = true →
      allowNewlines = true ∧ c ∈ ['\n', '\r', '\t'] := by
  unfold normalizeCatalogText at h
  split at h
  · cases h
    exact nofun
  · rename_i value
    split_ifs at h with hblank hinvalid
    · cases h
      exact nofun
    · cases h
      simp only [Bool.or_eq_true, decide_eq_true_eq, not_or, not_lt, List.any_eq_true,
        not_exists, not_and] at hinvalid
      obtain ⟨hlength, hchars⟩ := hinvalid
      rintro t ⟨⟩
      refine ⟨?_, hlength, fun c hc hcontrol => ?_⟩
      · rintro rfl
        exact hblank rfl
      · have hallowed := hchars c hc
        rw [hcontrol, Bool.true_and, Bool.not_eq_true', Bool.not_eq_false, Bool.and_eq_true,
          decide_eq_true_eq] at hallowed
        exact hallowed

/-- A limit is positive, and at most the largest signed number. -/
theorem normalizeModelLimit_ok {value : Option Int64} {limit : Option UInt64}
    (h : normalizeModelLimit value = .ok limit) :
    ∀ n ∈ limit, 0 < n.toNat ∧ n.toNat < 2 ^ 63 := by
  unfold normalizeModelLimit at h
  split at h
  · cases h
    exact nofun
  · rename_i value
    split_ifs at h with hpos
    cases h
    rintro n ⟨⟩
    have hle : 0 ≤ value := Int64.le_of_lt hpos
    have hint : 0 < value.toInt := by simpa using Int64.lt_iff_toInt_lt.mp hpos
    rw [Int64.toNat_toUInt64_of_le hle]
    have hcast := Int64.cast_toNatClampNeg value hle
    exact ⟨by omega, Int64.toNatClampNeg_lt value⟩

/-- The efforts of a row are known ones, and none of them is there twice. -/
theorem foldl_addEffort (levels : List String) {supported : List String}
    (hnodup : supported.Nodup) (hknown : ∀ effort ∈ supported, isReasoningEffort effort = true) :
    (levels.foldl addEffort supported).Nodup ∧
      ∀ effort ∈ levels.foldl addEffort supported, isReasoningEffort effort = true := by
  induction levels generalizing supported with
  | nil => exact ⟨hnodup, hknown⟩
  | cons level levels ih =>
    rw [List.foldl_cons]
    unfold addEffort
    split_ifs with hnew
    · simp only [Bool.and_eq_true, decide_eq_true_eq] at hnew
      refine ih (List.nodup_append.mpr ⟨hnodup, by simp, ?_⟩) ?_
      · intro effort heffort effort' heffort'
        rintro rfl
        exact hnew.2 (List.mem_singleton.mp heffort' ▸ heffort)
      · intro effort heffort
        rcases List.mem_append.mp heffort with heffort | heffort
        · exact hknown effort heffort
        · rw [List.mem_singleton.mp heffort]
          exact hnew.1
    · exact ih hnodup hknown

/-- A row that is normalized is valid and not the default. -/
theorem normalizeModel_valid {model : UpstreamModel} {row : ModelInfo}
    (hid : validateModelId model.slug = .ok ()) (h : normalizeModel model = .ok row) :
    row.Valid ∧ row.id = model.slug ∧ row.isDefault = false := by
  unfold normalizeModel at h
  obtain ⟨listed, -, h⟩ := bind_eq_ok.mp h
  obtain ⟨later, -, h⟩ := bind_eq_ok.mp h
  dsimp only at h
  obtain ⟨inputModalities, -, h⟩ := bind_eq_ok.mp h
  obtain ⟨displayName, hname, h⟩ := bind_eq_ok.mp h
  obtain ⟨description, hdescription, h⟩ := bind_eq_ok.mp h
  obtain ⟨contextWindow, hwindow, h⟩ := bind_eq_ok.mp h
  obtain ⟨maxOutputTokens, htokens, h⟩ := bind_eq_ok.mp h
  obtain ⟨hnodup, hknown⟩ := foldl_addEffort model.supportedReasoningLevels List.nodup_nil nofun
  cases h
  refine ⟨⟨hid, fun text htext => ?_, fun text htext => ?_, normalizeModelLimit_ok hwindow,
    normalizeModelLimit_ok htokens, hnodup, hknown, fun effort heffort => ?_⟩, rfl, rfl⟩
  · obtain ⟨hne, hlength, hchars⟩ := normalizeCatalogText_ok hname text htext
    refine ⟨hne, hlength, fun c hc => ?_⟩
    by_contra hcontrol
    exact absurd (hchars c hc (Bool.not_eq_false _ ▸ hcontrol)).1 Bool.false_ne_true
  · obtain ⟨-, hlength, hchars⟩ := normalizeCatalogText_ok hdescription text htext
    exact ⟨hlength, fun c hc hcontrol => (hchars c hc hcontrol).2⟩
  · simpa using (Option.filter_eq_some_iff.mp heffort).2

/-- A run over rows extends a list of valid rows that has no id twice, and marks no default. -/
theorem foldlM_addModel {upstream : List UpstreamModel} {acc acc' : List ModelInfo × List String}
    (h : upstream.foldlM addModel acc = .ok acc') (hids : acc.2 = acc.1.map (·.id))
    (hnodup : (acc.1.map (·.id)).Nodup)
    (hvalid : ∀ row ∈ acc.1, row.Valid ∧ row.isDefault = false) :
    acc'.1.length = acc.1.length + upstream.length ∧ (acc'.1.map (·.id)).Nodup ∧
      ∀ row ∈ acc'.1, row.Valid ∧ row.isDefault = false := by
  induction upstream generalizing acc with
  | nil =>
    cases h
    exact ⟨rfl, hnodup, hvalid⟩
  | cons model upstream ih =>
    obtain ⟨acc₁, hfirst, hrest⟩ := foldlM_cons_eq_ok.mp h
    unfold addModel at hfirst
    split at hfirst
    · cases hfirst
    · rename_i hid
      split_ifs at hfirst with hseen
      obtain ⟨row, hrow, hfirst⟩ := bind_eq_ok.mp hfirst
      cases hfirst
      obtain ⟨hrowValid, hrowId, hrowDefault⟩ := normalizeModel_valid hid hrow
      -- An id that was seen before is refused.
      have hnew : row.id ∉ acc.1.map (·.id) := by
        rw [hrowId, ← hids]
        exact hseen
      have hnodup' : ((acc.1 ++ [row]).map (·.id)).Nodup := by
        rw [List.map_append, List.map_singleton]
        refine List.nodup_append.mpr ⟨hnodup, by simp, fun id hid id' hid' heq => hnew ?_⟩
        rw [← List.mem_singleton.mp hid', ← heq]
        exact hid
      have hvalid' : ∀ row' ∈ acc.1 ++ [row], row'.Valid ∧ row'.isDefault = false := by
        intro row' hrow'
        rcases List.mem_append.mp hrow' with hrow' | hrow'
        · exact hvalid row' hrow'
        · rw [List.mem_singleton.mp hrow']
          exact ⟨hrowValid, hrowDefault⟩
      obtain ⟨hlength, hrest⟩ := ih hrest (by simp [hids, hrowId]) hnodup' hvalid'
      refine ⟨?_, hrest⟩
      rw [hlength, List.length_append, List.length_singleton, List.length_cons]
      omega

/-- The rows around the first one with a property, and a change of that row. -/
theorem findIdx?_split {α : Type} {p : α → Bool} {as : List α} {index : ℕ}
    (h : as.findIdx? p = some index) : ∃ before a after, as = before ++ a :: after ∧ p a = true ∧
      (∀ b ∈ before, p b = false) ∧ as[index]? = some a ∧
      as.eraseIdx index = before ++ after ∧
      ∀ f : α → α, as.modify index f = before ++ f a :: after := by
  obtain ⟨hlt, hpos, hbefore⟩ := List.findIdx?_eq_some_iff_getElem.mp h
  refine ⟨as.take index, as[index], as.drop (index + 1), ?_, hpos, fun b hb => ?_, ?_, ?_,
    fun f => List.modify_eq_take_cons_drop hlt⟩
  · rw [← List.drop_eq_getElem_cons hlt, List.take_append_drop]
  · obtain ⟨j, hj, rfl⟩ := List.mem_iff_getElem.mp hb
    rw [List.length_take] at hj
    rw [List.getElem_take]
    exact Bool.eq_false_iff.mpr (hbefore j (by omega))
  · exact List.getElem?_eq_getElem hlt
  · exact List.eraseIdx_eq_take_drop_succ as index

/-- Marking the first visible row makes a catalog of valid rows without a default. -/
theorem markDefault_catalog {rows models : List ModelInfo} (hcount : rows.length ≤ MAX_MODELS)
    (hids : (rows.map (·.id)).Nodup)
    (hvalid : ∀ row ∈ rows, row.Valid ∧ row.isDefault = false)
    (h : markDefault rows = .ok models) : Catalog models := by
  unfold markDefault at h
  split at h
  · cases h
  · rename_i index hindex
    cases h
    obtain ⟨before, row, after, rfl, hvisible, hbefore, -, -, hmodify⟩ := findIdx?_split hindex
    rw [hmodify]
    obtain ⟨hrow, -⟩ := hvalid row (by simp)
    refine ⟨?_, fun model hmodel => ?_, ?_, before, _, after, rfl, hvisible, rfl, hbefore, ?_⟩
    · simpa using hcount
    · simp only [List.mem_append, List.mem_cons] at hmodel
      rcases hmodel with hmodel | rfl | hmodel
      · exact (hvalid model (by simp [hmodel])).1
      · exact ⟨hrow.id, hrow.displayName, hrow.description, hrow.contextWindow,
          hrow.maxOutputTokens, hrow.efforts, hrow.effort, hrow.defaultEffort⟩
      · exact (hvalid model (by simp [hmodel])).1
    · simpa using hids
    · intro other hother
      refine (hvalid other ?_).2
      rcases List.mem_append.mp hother with hother | hother
      · simp [hother]
      · simp [hother]

/-- A catalog that is normalized guarantees what a catalog does. -/
theorem normalizeModels_catalog {fromSlice : Bytes → Except String UpstreamModelsResponse}
    {bytes : Bytes} {models : List ModelInfo} (h : normalizeModels fromSlice bytes = .ok models) :
    Catalog models := by
  unfold normalizeModels at h
  split at h
  · cases h
  · dsimp only at h
    split_ifs at h with hmixed hempty hcount hsubscription hsubscription
    all_goals
      obtain ⟨⟨rows, ids⟩, hrun, h⟩ := bind_eq_ok.mp h
      obtain ⟨hlength, hids, hvalid⟩ := foldlM_addModel hrun rfl List.nodup_nil (by simp)
      have hrows : rows.length ≤ MAX_MODELS := by
        rw [show rows.length = _ from hlength]
        simp only [List.length_nil, List.length_mergeSort]
        omega
      exact markDefault_catalog hrows hids hvalid h

/-- What a step of the merge does. -/
theorem mergeModel_cases (acc : List ModelInfo × List ModelInfo) (metadata : ModelInfo) :
    mergeModel acc metadata = acc ∨ ∃ available, available.length + 1 = acc.1.length ∧
      (mergeModel acc metadata = (available, acc.2) ∨ ∃ isVisible, mergeModel acc metadata =
        (available, acc.2 ++ [{ metadata with isVisible, isDefault := false }])) := by
  unfold mergeModel
  split
  · exact .inl rfl
  · rename_i index hindex
    obtain ⟨hlt, -⟩ := List.findIdx?_eq_some_iff_getElem.mp hindex
    refine .inr ⟨acc.1.eraseIdx index, ?_, ?_⟩
    · rw [List.length_eraseIdx_of_lt hlt]
      omega
    · dsimp only
      split_ifs
      · exact .inl rfl
      · exact .inr ⟨_, rfl⟩

/-- Merging takes rows of the bundled catalog, in their order, and at most one for each row of the
account. -/
theorem foldl_mergeModel {bundled : List ModelInfo} (hbundled : ∀ row ∈ bundled, row.Valid)
    {acc : List ModelInfo × List ModelInfo}
    (hvalid : ∀ row ∈ acc.2, row.Valid ∧ row.isDefault = false) :
    (bundled.foldl mergeModel acc).2.length ≤ acc.1.length + acc.2.length ∧
      ((bundled.foldl mergeModel acc).2.map (·.id)).Sublist
        (acc.2.map (·.id) ++ bundled.map (·.id)) ∧
      ∀ row ∈ (bundled.foldl mergeModel acc).2, row.Valid ∧ row.isDefault = false := by
  induction bundled generalizing acc with
  | nil => exact ⟨Nat.le_add_left _ _, by simp, hvalid⟩
  | cons metadata bundled ih =>
    have hrest : ∀ row ∈ bundled, row.Valid := fun row hrow =>
      hbundled row (List.mem_cons_of_mem _ hrow)
    have hmetadata := hbundled metadata List.mem_cons_self
    have hskip : (acc.2.map (·.id) ++ bundled.map (·.id)).Sublist
        (acc.2.map (·.id) ++ (metadata :: bundled).map (·.id)) :=
      (List.Sublist.refl _).append (List.sublist_cons_self _ _)
    rw [List.foldl_cons]
    rcases mergeModel_cases acc metadata with hsame | ⟨available, hlength, hsame | ⟨visible, hsame⟩⟩
    · rw [hsame]
      obtain ⟨hcount, hids, hrows⟩ := ih hrest hvalid
      exact ⟨hcount, hids.trans hskip, hrows⟩
    · obtain ⟨hcount, hids, hrows⟩ := @ih hrest (available, acc.2) hvalid
      rw [hsame]
      dsimp only at hcount
      exact ⟨by omega, hids.trans hskip, hrows⟩
    · -- The row is added with the visibility that the service reports.
      have hadded : ∀ row ∈ acc.2 ++ [{ metadata with isVisible := visible, isDefault := false }],
          row.Valid ∧ row.isDefault = false := by
        intro row hrow
        rcases List.mem_append.mp hrow with hrow | hrow
        · exact hvalid row hrow
        · rw [List.mem_singleton.mp hrow]
          exact ⟨⟨hmetadata.id, hmetadata.displayName, hmetadata.description,
            hmetadata.contextWindow, hmetadata.maxOutputTokens, hmetadata.efforts,
            hmetadata.effort, hmetadata.defaultEffort⟩, rfl⟩
      obtain ⟨hcount, hids, hrows⟩ := @ih hrest (available, acc.2 ++ [_]) hadded
      rw [hsame]
      dsimp only at hcount hids
      rw [List.length_append, List.length_singleton] at hcount
      refine ⟨by omega, ?_, hrows⟩
      simpa using hids

/-- So does a catalog that is completed from the bundled one. -/
theorem normalizeApiModels_catalog {fromSlice : Bytes → Except String UpstreamModelsResponse}
    {bundledModelCatalog bytes : Bytes} {models : List ModelInfo}
    (h : normalizeApiModelsWithBundledMetadata fromSlice bundledModelCatalog bytes = .ok models) :
    Catalog models := by
  obtain ⟨available, havailable, h⟩ := bind_eq_ok.mp h
  obtain ⟨bundled, hbundled, h⟩ := bind_eq_ok.mp h
  have hcatalog := normalizeModels_catalog hbundled
  obtain ⟨hcount, hids, hrows⟩ :=
    @foldl_mergeModel bundled hcatalog.valid (available, []) (by simp)
  refine markDefault_catalog ?_ (hcatalog.ids.sublist ?_) hrows h
  · exact hcount.trans (normalizeModels_catalog havailable).count
  · simpa using hids

end MuseCodex.Transport
