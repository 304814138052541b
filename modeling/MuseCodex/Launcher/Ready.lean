import Mathlib.Data.List.Perm.Subperm
import MuseCodex.Json.Compact
import MuseCodex.Transport.Models

/-!
# The catalog that the launcher is given

The gateway writes the catalog into its readiness file (`crates/muse-codex-gateway/src/server.rs`),
and the launcher reads it and checks every row again before it starts Muse
(`crates/muse-codex/src/lib.rs`). The two sides state their bounds independently. They agree:
whatever catalog the gateway has, the launcher accepts (`normalizeModels_accepted`).
-/

namespace MuseCodex.Launcher

open Text Json Fallible Transport

/-! ## The readiness file -/

/-- The version of the readiness file. -/
def READY_SCHEMA_VERSION : ℕ := 4

/-- A text, or null. -/
def optionalText (text : Option String) : Value := (text.map Value.string).getD .null

/-- A number, or null. -/
def optionalNumber (n : Option UInt64) : Value := (n.map fun n => Value.ofNat n.toNat).getD .null

/-- A row of the catalog in the readiness file. What only the gateway uses is left out. -/
def modelValue (model : ModelInfo) : Value :=
  .obj [("id", .string model.id),
    ("display_name", optionalText model.displayName),
    ("description", optionalText model.description),
    ("context_window", optionalNumber model.contextWindow),
    ("max_output_tokens", optionalNumber model.maxOutputTokens),
    ("supported_reasoning_efforts",
      .array (model.supportedReasoningEfforts.map Value.string)),
    ("default_reasoning_effort", optionalText model.defaultReasoningEffort),
    ("is_visible", .bool model.isVisible),
    ("is_default", .bool model.isDefault)]

/-- The id of the default model of a catalog. -/
def defaultModelOf (models : List ModelInfo) : Option String :=
  (models.find? (·.isDefault)).map (·.id)

/-- The readiness file. -/
def readyFile (provider baseUrl token defaultModel : String) (models : List ModelInfo) : Value :=
  .obj [("schema_version", .ofNat READY_SCHEMA_VERSION),
    ("provider", .string provider),
    ("base_url", .string baseUrl),
    ("token", .string token),
    ("default_model", .string defaultModel),
    ("models", .array (models.map modelValue))]

/-! ## Reading it -/

/-- A row of the catalog, as the launcher knows it. -/
structure GatewayModel where
  id : String
  displayName : Option String
  description : Option String
  contextWindow : Option UInt64
  maxOutputTokens : Option UInt64
  supportedReasoningEfforts : List String
  defaultReasoningEffort : Option String
  isVisible : Bool
  isDefault : Bool

/-- The readiness file, as the launcher knows it. -/
structure GatewayReady where
  schemaVersion : ℕ
  provider : String
  baseUrl : String
  token : String
  defaultModel : String
  models : List GatewayModel

/-- A truth value. -/
def asBool : Value → Option Bool
  | .bool b => some b
  | _ => none

/-- An unsigned number of 64 bits. -/
def asUInt64 (v : Value) : Option UInt64 :=
  v.asU64.bind fun n => if n < 2 ^ 64 then some (UInt64.ofNat n) else none

/-- A member that may be missing or null. -/
def readOptional {α : Type} (read : Value → Option α) (member : Option Value) :
    Option (Option α) :=
  match member with
  | none | some .null => some none
  | some v => (read v).map some

/-- An array of texts. -/
def readTexts (v : Value) : Option (List String) :=
  v.asArray.bind fun items => items.mapM Value.asStr

/-- Reads a row. -/
def readGatewayModel (v : Value) : Option GatewayModel := do
  let id ← (v.get "id").bind Value.asStr
  let displayName ← readOptional Value.asStr (v.get "display_name")
  let description ← readOptional Value.asStr (v.get "description")
  let contextWindow ← readOptional asUInt64 (v.get "context_window")
  let maxOutputTokens ← readOptional asUInt64 (v.get "max_output_tokens")
  let supportedReasoningEfforts ←
    ((v.get "supported_reasoning_efforts").map readTexts).getD (some [])
  let defaultReasoningEffort ← readOptional Value.asStr (v.get "default_reasoning_effort")
  let isVisible ← (v.get "is_visible").bind asBool
  let isDefault ← (v.get "is_default").bind asBool
  return ⟨id, displayName, description, contextWindow, maxOutputTokens,
    supportedReasoningEfforts, defaultReasoningEffort, isVisible, isDefault⟩

/-- Reads the readiness file. -/
def readGatewayReady (serde : Serde) (bytes : Bytes) : Option GatewayReady := do
  let v ← serde.fromSlice bytes
  let schemaVersion ← (v.get "schema_version").bind Value.asU64
  let provider ← (v.get "provider").bind Value.asStr
  let baseUrl ← (v.get "base_url").bind Value.asStr
  let token ← (v.get "token").bind Value.asStr
  let defaultModel ← (v.get "default_model").bind Value.asStr
  let models ← ((v.get "models").bind Value.asArray).bind fun rows => rows.mapM readGatewayModel
  return ⟨schemaVersion, provider, baseUrl, token, defaultModel, models⟩

/-! ## Checking it -/

/-- The largest number of models that the launcher takes. -/
def MAX_GATEWAY_MODELS : ℕ := 4096

/-- The largest signed number of 64 bits. -/
def I64_MAX : ℕ := 2 ^ 63 - 1

/-- Checks the id of a model. -/
def validateGatewayModel (model : String) : Except String Unit :=
  if model = "" || 256 < model.utf8ByteSize || startsWith '-' model ||
      model.toList.any fun character => isControl character || isWhitespace character then
    .error "gateway returned an invalid default model id"
  else .ok ()

/-- Checks an effort, after the efforts before it. -/
def validateEffort (reasoningEfforts : List String) (effort : String) :
    Except String (List String) :=
  if effort = "" || 64 < effort.utf8ByteSize ||
      (effort.toList.any fun character => isControl character || isWhitespace character) ||
      effort ∈ reasoningEfforts then
    .error "gateway returned an invalid reasoning effort variant"
  else .ok (effort :: reasoningEfforts)

/-- Whether a limit is out of bounds. -/
def isInvalidLimit (limit : Option UInt64) : Bool :=
  limit.any fun limit => limit.toNat = 0 || I64_MAX < limit.toNat

/-- What the rows before a row have been counted to. -/
structure Tally where
  ids : List String := []
  matchingDefault : ℕ := 0
  visible : ℕ := 0

/-- Counts a row. -/
def Tally.count (model : GatewayModel) (tally : Tally) : Tally where
  ids := model.id :: tally.ids
  matchingDefault := tally.matchingDefault + if model.isDefault then 1 else 0
  visible := tally.visible + if model.isVisible then 1 else 0

/-- Checks a row, after the rows before it. -/
def validateRow (defaultModel : String) (tally : Tally) (model : GatewayModel) :
    Except String Tally :=
  match validateGatewayModel model.id with
  | .error error => .error error
  | .ok () =>
    if model.id ∈ tally.ids then .error "gateway returned duplicate model ids"
    else if model.displayName.any fun label =>
        label = "" || 512 < label.utf8ByteSize || label.toList.any isControl then
      .error "gateway returned an invalid model display name"
    else if model.description.any fun description =>
        16 * 1024 < description.utf8ByteSize || '\x00' ∈ description.toList then
      .error "gateway returned an invalid model description"
    else if isInvalidLimit model.contextWindow || isInvalidLimit model.maxOutputTokens then
      .error "gateway returned an invalid model limit"
    else if 32 < model.supportedReasoningEfforts.length then
      .error "gateway returned too many reasoning effort variants"
    else match model.supportedReasoningEfforts.foldlM validateEffort [] with
      | .error error => .error error
      | .ok _ =>
        if model.defaultReasoningEffort.any (· ∉ model.supportedReasoningEfforts) then
          .error "gateway returned an unsupported default reasoning effort"
        else if model.isDefault && (!model.isVisible || model.id ≠ defaultModel) then
          .error "gateway default model metadata is inconsistent"
        else .ok (tally.count model)

/-- Checks the rows of a catalog. -/
def validateGatewayModels (models : List GatewayModel) (defaultModel : String) :
    Except String Unit :=
  if models = [] || MAX_GATEWAY_MODELS < models.length then
    .error "gateway returned an invalid model count"
  else match models.foldlM (validateRow defaultModel) {} with
    | .error error => .error error
    | .ok tally =>
      if tally.visible = 0 || tally.matchingDefault ≠ 1 then
        .error "gateway returned no unique visible default model"
      else .ok ()

/-! ## What the launcher accepts -/

/-- A row within the bounds of the launcher. -/
structure GatewayModel.Sound (row : GatewayModel) : Prop where
  id : validateGatewayModel row.id = .ok ()
  displayName : ∀ label ∈ row.displayName, label ≠ "" ∧ label.utf8ByteSize ≤ 512 ∧
    ∀ c ∈ label.toList, isControl c = false
  description : ∀ text ∈ row.description, text.utf8ByteSize ≤ 16 * 1024 ∧ '\x00' ∉ text.toList
  contextWindow : ∀ limit ∈ row.contextWindow, 0 < limit.toNat ∧ limit.toNat ≤ I64_MAX
  maxOutputTokens : ∀ limit ∈ row.maxOutputTokens, 0 < limit.toNat ∧ limit.toNat ≤ I64_MAX
  efforts : row.supportedReasoningEfforts.length ≤ 32 ∧ row.supportedReasoningEfforts.Nodup
  effort : ∀ effort ∈ row.supportedReasoningEfforts, effort ≠ "" ∧ effort.utf8ByteSize ≤ 64 ∧
    ∀ c ∈ effort.toList, isControl c = false ∧ isWhitespace c = false
  defaultEffort : ∀ effort ∈ row.defaultReasoningEffort, effort ∈ row.supportedReasoningEfforts

/-- Rows within the bounds of the launcher, with ids of their own and one default, which is the
first visible row. -/
structure Listed (rows : List GatewayModel) (defaultModel : String) : Prop where
  count : 1 ≤ rows.length ∧ rows.length ≤ MAX_GATEWAY_MODELS
  sound : ∀ row ∈ rows, row.Sound
  ids : (rows.map (·.id)).Nodup
  default : ∃ before row after, rows = before ++ row :: after ∧ row.id = defaultModel ∧
    row.isVisible = true ∧ row.isDefault = true ∧ (∀ other ∈ before, other.isVisible = false) ∧
    ∀ other ∈ before ++ after, other.isDefault = false

/-- The efforts of a sound row pass. -/
theorem foldlM_validateEffort {efforts seen : List String}
    (hefforts : ∀ effort ∈ efforts, effort ≠ "" ∧ effort.utf8ByteSize ≤ 64 ∧
      ∀ c ∈ effort.toList, isControl c = false ∧ isWhitespace c = false)
    (hnodup : (seen.reverse ++ efforts).Nodup) :
    ∃ seen', efforts.foldlM validateEffort seen = .ok seen' := by
  induction efforts generalizing seen with
  | nil => exact ⟨seen, rfl⟩
  | cons effort efforts ih =>
    obtain ⟨hne, hlength, hchars⟩ := hefforts effort List.mem_cons_self
    have hnew : effort ∉ seen := by
      intro hmem
      have hdisjoint := (List.nodup_append.mp hnodup).2.2
      exact hdisjoint effort (List.mem_reverse.mpr hmem) effort List.mem_cons_self rfl
    have hplain : (effort.toList.any fun c => isControl c || isWhitespace c) = false := by
      rw [List.any_eq_false]
      intro c hc
      simp [hchars c hc]
    have hstep : validateEffort seen effort = .ok (effort :: seen) := by
      unfold validateEffort
      rw [if_neg]
      simp [hne, hlength, hplain, hnew]
    obtain ⟨seen', hrest⟩ := @ih (effort :: seen)
      (fun effort' hmem => hefforts effort' (List.mem_cons_of_mem _ hmem)) (by simpa using hnodup)
    exact ⟨seen', foldlM_cons_eq_ok.mpr ⟨_, hstep, hrest⟩⟩

/-- A sound row with an id of its own passes, and is counted. -/
theorem validateRow_ok {row : GatewayModel} (h : row.Sound) {defaultModel : String} {tally : Tally}
    (hnew : row.id ∉ tally.ids)
    (hdefault : row.isDefault = true → row.isVisible = true ∧ row.id = defaultModel) :
    validateRow defaultModel tally row = .ok (tally.count row) := by
  have hlimit {limit : Option UInt64}
      (hlimit : ∀ n ∈ limit, 0 < n.toNat ∧ n.toNat ≤ I64_MAX) : isInvalidLimit limit = false := by
    cases limit with
    | none => rfl
    | some n =>
      obtain ⟨hpos, hle⟩ := hlimit n rfl
      simp [isInvalidLimit, hle, Nat.pos_iff_ne_zero.mp hpos]
  have hlabel : (row.displayName.any fun label =>
      label = "" || 512 < label.utf8ByteSize || label.toList.any isControl) = false := by
    cases hname : row.displayName with
    | none => rfl
    | some label =>
      obtain ⟨hne, hlength, hchars⟩ := h.displayName label hname
      have hplain : label.toList.any isControl = false := by
        rw [List.any_eq_false]
        exact fun c hc => by simp [hchars c hc]
      simp [hne, hlength, hplain]
  have hdescription : (row.description.any fun description =>
      16 * 1024 < description.utf8ByteSize || '\x00' ∈ description.toList) = false := by
    cases htext : row.description with
    | none => rfl
    | some text =>
      obtain ⟨hlength, hnul⟩ := h.description text htext
      simp [hlength, hnul]
  have heffort : (row.defaultReasoningEffort.any (· ∉ row.supportedReasoningEfforts)) = false := by
    cases heffort : row.defaultReasoningEffort with
    | none => rfl
    | some effort => simp [h.defaultEffort effort heffort]
  have hconsistent : (row.isDefault && (!row.isVisible || row.id ≠ defaultModel)) = false := by
    cases hmarked : row.isDefault with
    | false => rfl
    | true => simp [hdefault hmarked]
  obtain ⟨seen, hseen⟩ := @foldlM_validateEffort row.supportedReasoningEfforts [] h.effort h.efforts.2
  unfold validateRow
  rw [h.id]
  dsimp only
  rw [if_neg hnew, hlabel, hdescription, hlimit h.contextWindow, hlimit h.maxOutputTokens,
    if_neg (by simp), if_neg (by simp), if_neg (by simp), if_neg (Nat.not_lt.mpr h.efforts.1), hseen]
  dsimp only
  rw [heffort, hconsistent, if_neg (by simp), if_neg (by simp)]

/-- Sound rows with ids of their own pass, and their defaults and visible rows are counted. -/
theorem foldlM_validateRow {rows : List GatewayModel} (hsound : ∀ row ∈ rows, row.Sound)
    {defaultModel : String} (hdefault : ∀ row ∈ rows, row.isDefault = true →
      row.isVisible = true ∧ row.id = defaultModel)
    {tally : Tally} (hids : (tally.ids.reverse ++ rows.map (·.id)).Nodup) :
    ∃ tally', rows.foldlM (validateRow defaultModel) tally = .ok tally' ∧
      tally'.matchingDefault = tally.matchingDefault + rows.countP (·.isDefault) ∧
      tally'.visible = tally.visible + rows.countP (·.isVisible) := by
  induction rows generalizing tally with
  | nil => exact ⟨tally, rfl, rfl, rfl⟩
  | cons row rows ih =>
    have hnew : row.id ∉ tally.ids := by
      intro hmem
      have hdisjoint := (List.nodup_append.mp hids).2.2
      exact hdisjoint row.id (List.mem_reverse.mpr hmem) row.id List.mem_cons_self rfl
    have hstep := validateRow_ok (hsound row List.mem_cons_self) hnew
      (hdefault row List.mem_cons_self)
    obtain ⟨tally', hrest, hmatching, hvisible⟩ := @ih
      (fun row' hmem => hsound row' (List.mem_cons_of_mem _ hmem))
      (fun row' hmem => hdefault row' (List.mem_cons_of_mem _ hmem)) (tally.count row)
      (by simpa [Tally.count] using hids)
    refine ⟨tally', foldlM_cons_eq_ok.mpr ⟨_, hstep, hrest⟩, ?_, ?_⟩
    · rw [hmatching, List.countP_cons]
      dsimp only [Tally.count]
      omega
    · rw [hvisible, List.countP_cons]
      dsimp only [Tally.count]
      omega

/-- The launcher accepts rows within its bounds. -/
theorem Listed.validate {rows : List GatewayModel} {defaultModel : String}
    (h : Listed rows defaultModel) : validateGatewayModel defaultModel = .ok () ∧
      validateGatewayModels rows defaultModel = .ok () := by
  obtain ⟨before, row, after, hrows, hid, hvisible, hmarked, hbefore, hothers⟩ := h.default
  have hrow : row ∈ rows := by
    rw [hrows]
    simp
  refine ⟨hid ▸ (h.sound row hrow).id, ?_⟩
  have hdefault : ∀ row' ∈ rows, row'.isDefault = true →
      row'.isVisible = true ∧ row'.id = defaultModel := by
    intro row' hmem hmarked'
    rw [hrows] at hmem
    by_cases hother : row' ∈ before ++ after
    · rw [hothers row' hother] at hmarked'
      cases hmarked'
    · have hsame : row' = row := by
        simp only [List.mem_append, List.mem_cons, not_or] at hmem hother
        tauto
      rw [hsame]
      exact ⟨hvisible, hid⟩
  obtain ⟨tally, hrun, hmatching, hcount⟩ :=
    @foldlM_validateRow rows h.sound defaultModel hdefault {} (by simpa using h.ids)
  have hone : rows.countP (·.isDefault) = 1 := by
    have hnone {others : List GatewayModel} (hsub : ∀ other ∈ others, other ∈ before ++ after) :
        others.countP (·.isDefault) = 0 := by
      rw [List.countP_eq_zero]
      intro other hother
      rw [hothers other (hsub other hother)]
      exact Bool.false_ne_true
    rw [hrows, List.countP_append, List.countP_cons, if_pos hmarked,
      hnone fun other hother => List.mem_append_left _ hother,
      hnone fun other hother => List.mem_append_right _ hother]
  have hsome : 0 < rows.countP (·.isVisible) := List.countP_pos_iff.mpr ⟨row, hrow, hvisible⟩
  unfold validateGatewayModels
  rw [if_neg, hrun]
  · dsimp only
    rw [if_neg]
    rw [hmatching, hcount, hone]
    simp only [Bool.or_eq_true, decide_eq_true_eq, not_or]
    exact ⟨by omega, by simp⟩
  · simp only [Bool.or_eq_true, decide_eq_true_eq, not_or, Nat.not_lt]
    refine ⟨?_, h.count.2⟩
    rintro rfl
    cases hrow

/-! ## The two sides agree -/

/-- A row of the catalog, as the launcher reads it. -/
def gatewayModel (model : ModelInfo) : GatewayModel :=
  ⟨model.id, model.displayName, model.description, model.contextWindow, model.maxOutputTokens,
    model.supportedReasoningEfforts, model.defaultReasoningEffort, model.isVisible,
    model.isDefault⟩

/-- A text that may be missing is read back. -/
theorem readOptional_optionalText (text : Option String) :
    readOptional Value.asStr (some (optionalText text)) = some text := by
  cases text with
  | none => rfl
  | some text => rfl

/-- A number that may be missing is read back. -/
theorem readOptional_optionalNumber (n : Option UInt64) :
    readOptional asUInt64 (some (optionalNumber n)) = some n := by
  cases n with
  | none => rfl
  | some n =>
    have hread : asUInt64 (.ofNat n.toNat) = some n := by
      rw [asUInt64, Value.asU64_ofNat, Option.bind_some, if_pos n.toNat_lt, UInt64.ofNat_toNat]
    exact congrArg (Option.map some) hread

/-- Texts are read back. -/
theorem readTexts_texts (texts : List String) :
    readTexts (.array (texts.map Value.string)) = some texts := by
  rw [readTexts, Value.asArray_array, Option.bind_some]
  induction texts with
  | nil => rfl
  | cons text texts ih =>
    rw [List.map_cons, List.mapM_cons, ih]
    rfl

/-- A row is read as it was written. -/
theorem readGatewayModel_modelValue (model : ModelInfo) :
    readGatewayModel (modelValue model) = some (gatewayModel model) := by
  unfold readGatewayModel modelValue
  simp [Value.obj, Map.ofEntries, readOptional_optionalText, readOptional_optionalNumber,
    readTexts_texts, asBool, gatewayModel]

/-- The models of a published document are read back. -/
theorem mapM_readGatewayModel (models : List ModelInfo) :
    models.mapM (readGatewayModel ∘ modelValue) = some (models.map gatewayModel) := by
  induction models with
  | nil => rfl
  | cons model models ih =>
    rw [List.mapM_cons, ih, Function.comp_apply, readGatewayModel_modelValue]
    rfl

/-- The readiness file can be read back by any JSON library. -/
theorem readyFile_plain (provider baseUrl token defaultModel : String) (models : List ModelInfo) :
    Json.Plain 127 (readyFile provider baseUrl token defaultModel models) := by
  have htext (text : Option String) (d : ℕ) : Json.Plain d (optionalText text) := by
    cases text with
    | none => exact .null d
    | some text => exact .string d text
  have hnumber (n : Option UInt64) (d : ℕ) : Json.Plain d (optionalNumber n) := by
    cases n with
    | none => exact .null d
    | some n => exact .posInt d n.toNat_lt
  have hefforts (efforts : List String) : Json.Plain 1 (.array (efforts.map Value.string)) := by
    refine .array 0 fun v hv => ?_
    obtain ⟨effort, -, rfl⟩ := List.mem_map.mp hv
    exact .string 0 effort
  have hmodel (model : ModelInfo) : Json.Plain 2 (modelValue model) := by
    refine Json.Plain.obj fun e he => ?_
    simp only [List.mem_cons, List.not_mem_nil, or_false] at he
    rcases he with rfl | rfl | rfl | rfl | rfl | rfl | rfl | rfl | rfl
    · exact .string _ _
    · exact htext _ _
    · exact htext _ _
    · exact hnumber _ _
    · exact hnumber _ _
    · exact hefforts _
    · exact htext _ _
    · exact .bool _ _
    · exact .bool _ _
  have hfile : Json.Plain 4 (readyFile provider baseUrl token defaultModel models) := by
    refine Json.Plain.obj fun e he => ?_
    simp only [List.mem_cons, List.not_mem_nil, or_false] at he
    rcases he with rfl | rfl | rfl | rfl | rfl | rfl
    · exact .posInt _ (by decide)
    · exact .string _ _
    · exact .string _ _
    · exact .string _ _
    · exact .string _ _
    · refine .array 2 fun v hv => ?_
      obtain ⟨model, -, rfl⟩ := List.mem_map.mp hv
      exact hmodel model
  exact hfile.mono (by omega)

/-- The readiness file is read as it was written. -/
theorem readGatewayReady_readyFile {serde : Serde} (hserde : serde.Lawful)
    (provider baseUrl token defaultModel : String) (models : List ModelInfo) :
    readGatewayReady serde (serde.toVec (readyFile provider baseUrl token defaultModel models)) =
      some ⟨READY_SCHEMA_VERSION, provider, baseUrl, token, defaultModel,
        models.map gatewayModel⟩ := by
  unfold readGatewayReady
  rw [hserde.fromSlice_toVec (readyFile_plain provider baseUrl token defaultModel models)]
  simp [readyFile, Value.obj, Map.ofEntries, mapM_readGatewayModel]

/-- The two checks of an id agree. -/
theorem validateGatewayModel_of_validateModelId {id : String} (h : validateModelId id = .ok ()) :
    validateGatewayModel id = .ok () := by
  unfold validateModelId MAX_MODEL_ID_BYTES at h
  split_ifs at h with hlength hchars
  simp only [Bool.or_eq_true, decide_eq_true_eq, not_or] at hlength
  simp only [Bool.or_eq_true, not_or, List.any_eq_true, not_exists, not_and] at hchars
  unfold validateGatewayModel
  rw [if_neg]
  simp only [Bool.or_eq_true, decide_eq_true_eq, not_or, List.any_eq_true, not_exists, not_and]
  exact ⟨hlength, fun c hc => ⟨hchars.2 c hc, hchars.1 c hc⟩⟩

/-- A known effort is well formed. -/
theorem isReasoningEffort_wellFormed {effort : String} (h : isReasoningEffort effort = true) :
    effort ≠ "" ∧ effort.utf8ByteSize ≤ 64 ∧
      ∀ c ∈ effort.toList, isControl c = false ∧ isWhitespace c = false := by
  have hall : ∀ effort ∈ reasoningEfforts, effort ≠ "" ∧ effort.utf8ByteSize ≤ 64 ∧
      (effort.toList.all fun c => !isControl c && !isWhitespace c) = true := by
    decide
  obtain ⟨hne, hlength, hchars⟩ := hall effort (of_decide_eq_true h)
  refine ⟨hne, hlength, fun c hc => ?_⟩
  simpa using List.all_eq_true.mp hchars c hc

/-- A valid row is within the bounds of the launcher. -/
theorem sound_of_valid {model : ModelInfo} (h : model.Valid) : (gatewayModel model).Sound where
  id := validateGatewayModel_of_validateModelId h.id
  displayName := h.displayName
  description text htext := by
    obtain ⟨hlength, hchars⟩ := h.description text htext
    refine ⟨hlength, fun hnul => ?_⟩
    exact absurd (hchars _ hnul (by decide)) (by decide)
  contextWindow limit hlimit := by
    obtain ⟨hpos, hlt⟩ := h.contextWindow limit hlimit
    exact ⟨hpos, Nat.le_pred_of_lt hlt⟩
  maxOutputTokens limit hlimit := by
    obtain ⟨hpos, hlt⟩ := h.maxOutputTokens limit hlimit
    exact ⟨hpos, Nat.le_pred_of_lt hlt⟩
  efforts := by
    -- There are only eight efforts, so a list without repetition has at most eight.
    have hsubset : model.supportedReasoningEfforts ⊆ reasoningEfforts :=
      fun effort heffort => of_decide_eq_true (h.effort effort heffort)
    have hlength := (List.subperm_of_subset h.efforts hsubset).length_le
    exact ⟨hlength.trans (by decide), h.efforts⟩
  effort effort heffort := isReasoningEffort_wellFormed (h.effort effort heffort)
  defaultEffort := h.defaultEffort

/-- A catalog is listed under its default. -/
theorem listed_of_catalog {models : List ModelInfo} (h : Catalog models) :
    ∃ defaultModel, defaultModelOf models = some defaultModel ∧
      Listed (models.map gatewayModel) defaultModel := by
  obtain ⟨before, model, after, hmodels, hvisible, hmarked, hbefore, hothers⟩ := h.default
  refine ⟨model.id, ?_, ⟨?_, ?_⟩, fun row hrow => ?_, ?_, ?_⟩
  · have hnone : before.find? (·.isDefault) = none := by
      rw [List.find?_eq_none]
      intro other hother
      rw [hothers other (List.mem_append_left _ hother)]
      exact Bool.false_ne_true
    rw [defaultModelOf, hmodels, List.find?_append, hnone, Option.none_or,
      List.find?_cons_of_pos hmarked]
    rfl
  · rw [List.length_map, hmodels, List.length_append, List.length_cons]
    omega
  · rw [List.length_map]
    exact h.count
  · obtain ⟨model', hmodel', rfl⟩ := List.mem_map.mp hrow
    exact sound_of_valid (h.valid model' hmodel')
  · rw [List.map_map]
    exact h.ids
  · refine ⟨before.map gatewayModel, gatewayModel model, after.map gatewayModel, ?_, rfl, hvisible,
      hmarked, fun row hrow => ?_, fun row hrow => ?_⟩
    · rw [hmodels, List.map_append, List.map_cons]
    · obtain ⟨other, hother, rfl⟩ := List.mem_map.mp hrow
      exact hbefore other hother
    · rw [← List.map_append] at hrow
      obtain ⟨other, hother, rfl⟩ := List.mem_map.mp hrow
      exact hothers other hother

/-- The launcher accepts every catalog that the gateway writes into its readiness file. -/
theorem normalizeModels_accepted {serde : Serde} (hserde : serde.Lawful)
    {fromSlice : Bytes → Except String UpstreamModelsResponse} {bundledModelCatalog bytes : Bytes}
    {models : List ModelInfo}
    (h : normalizeModels fromSlice bytes = .ok models ∨
      normalizeApiModelsWithBundledMetadata fromSlice bundledModelCatalog bytes = .ok models)
    (provider baseUrl token : String) :
    ∃ defaultModel, defaultModelOf models = some defaultModel ∧ ∃ ready,
      readGatewayReady serde (serde.toVec (readyFile provider baseUrl token defaultModel models)) =
        some ready ∧ ready.defaultModel = defaultModel ∧ Listed ready.models defaultModel ∧
      validateGatewayModel ready.defaultModel = .ok () ∧
      validateGatewayModels ready.models ready.defaultModel = .ok () := by
  have hcatalog : Catalog models := by
    rcases h with h | h
    · exact normalizeModels_catalog h
    · exact normalizeApiModels_catalog h
  obtain ⟨defaultModel, hdefault, hlisted⟩ := listed_of_catalog hcatalog
  obtain ⟨hid, hrows⟩ := hlisted.validate
  exact ⟨defaultModel, hdefault, _,
    readGatewayReady_readyFile hserde provider baseUrl token defaultModel models, rfl, hlisted, hid,
    hrows⟩

/-- A hidden model, and a listed one with an effort that the gateway does not know. -/
def listingAnswer : UpstreamModelsResponse where
  data := [
    { slug := "a"
      visibility := some "hide" },
    { slug := "b"
      displayName := some "B"
      contextWindow := some 1
      supportedReasoningLevels := ["low", "odd", "low"]
      defaultReasoningLevel := some "low" }]

/-- The answer that denotes them. -/
def listingBody : Bytes :=
  toUtf8 ("\x7b\"data\":[\x7b\"id\":\"a\",\"visibility\":\"hide\"\x7d,\x7b\"id\":\"b\"," ++
    "\"display_name\":\"B\",\"context_window\":1,\"supported_reasoning_levels\":[" ++
    "\x7b\"effort\":\"low\"\x7d,\x7b\"effort\":\"odd\"\x7d,\x7b\"effort\":\"low\"\x7d]," ++
    "\"default_reasoning_level\":\"low\"\x7d]\x7d")

/-- The launcher accepts the catalog. -/
theorem normalizeModels_accepted_listing :
    ∃ models, normalizeModels (fun _ => .ok listingAnswer) listingBody = .ok models ∧
      ∃ defaultModel, defaultModelOf models = some defaultModel ∧ ∃ ready,
        readGatewayReady Compact.serde (Compact.serde.toVec
          (readyFile "openai" "http://127.0.0.1:1" "t" defaultModel models)) = some ready ∧
        ready.defaultModel = defaultModel ∧ Listed ready.models defaultModel ∧
        validateGatewayModel ready.defaultModel = .ok () ∧
        validateGatewayModels ready.models ready.defaultModel = .ok () := by
  obtain ⟨models, hmodels⟩ : ∃ models,
      normalizeModels (fun _ => .ok listingAnswer) listingBody = .ok models :=
    exists_eq_ok (by decide)
  have hone : normalizeModels (fun _ => .ok listingAnswer) listingBody = .ok models ∨
      normalizeApiModelsWithBundledMetadata (fun _ => .ok listingAnswer) listingBody listingBody =
        .ok models :=
    .inl hmodels
  exact ⟨models, hmodels, normalizeModels_accepted Compact.lawful hone _ _ _⟩

end MuseCodex.Launcher
