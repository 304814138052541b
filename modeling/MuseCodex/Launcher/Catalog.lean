import MuseCodex.Launcher.Startup

/-!
# The catalog of stock Muse

The launcher writes the models of the gateway as the catalog of stock Muse
(`seed_stock_model_catalog` in `lib.rs`). The catalog says of every model what the launcher knows of
it, but for its default effort, and shows one model as the current one (`modelCatalog_faithful`).
-/

namespace MuseCodex.Launcher

open Json

/-! ## The rows -/

/-- The efforts of a model as variants of it. -/
def reasoningEffortVariants (model : GatewayModel) : Value :=
  if model.supportedReasoningEfforts = [] then .null
  else .array (model.supportedReasoningEfforts.map fun effort =>
    .obj [("tier", .string effort), ("description", .null)])

/-- A row of the catalog of stock Muse. -/
def catalogRow (model : GatewayModel) (index : ℕ) : Value :=
  .obj [("model_id", .string model.id),
    ("display_label", .string (model.displayName.getD model.id)),
    ("provider_id", .string "meta"),
    ("profile_id", .string "tbh"),
    ("visibility", .string (if model.isVisible then "visible" else "hidden")),
    ("release_date", .null),
    ("display_order", .ofNat index),
    ("is_current", .bool model.isDefault),
    ("is_default", .bool model.isDefault),
    ("roles", .array []),
    ("context_limit", optionalNumber model.contextWindow),
    ("output_limit", optionalNumber model.maxOutputTokens),
    ("description", optionalText model.description),
    ("cost", .null),
    ("reasoning_effort_variants", reasoningEffortVariants model)]

/-- The catalog of stock Muse. -/
def modelCatalog (models : List GatewayModel) : Value :=
  .obj [("schema_version", .ofNat 1),
    ("provider_id", .string "meta"),
    ("profile_id", .string "tbh"),
    ("source", .string "provider_catalog"),
    ("rows", .array (models.mapIdx fun index model => catalogRow model index))]

/-! ## What a row tells -/

/-- What the catalog of stock Muse says of a model: its default effort is left out, and a model
without a name has its id for one. -/
def GatewayModel.presented (model : GatewayModel) : GatewayModel :=
  { model with
    displayName := some (model.displayName.getD model.id)
    defaultReasoningEffort := none }

section Catalog

variable {model model' : GatewayModel} {index : ℕ}

/-- A text that may be missing is shown as it is. -/
theorem optionalText_injective : Function.Injective optionalText := by
  rintro (_ | s) (_ | t) h
  · rfl
  · cases h
  · cases h
  · cases h
    rfl

/-- A number that may be missing is shown as it is. -/
theorem optionalNumber_injective : Function.Injective optionalNumber := by
  rintro (_ | m) (_ | n) h
  · rfl
  · cases h
  · cases h
  · injection h with h
    injection h with h
    rw [UInt64.toNat_inj.mp h]

/-- The variants show the efforts. -/
theorem reasoningEffortVariants_injective
    (h : reasoningEffortVariants model = reasoningEffortVariants model') :
    model.supportedReasoningEfforts = model'.supportedReasoningEfforts := by
  have hinjective : Function.Injective fun effort : String =>
      Value.obj [("tier", .string effort), ("description", .null)] := by
    intro effort effort' heq
    have htier := congrArg (Value.get · "tier") heq
    simpa [Value.obj, Map.get_ofEntries] using htier
  unfold reasoningEffortVariants at h
  split_ifs at h with hnil hnil'
  · rw [hnil, hnil']
  · injection h with h
    exact List.map_injective_iff.mpr hinjective h

/-- A row tells what the catalog says of a model. -/
theorem catalogRow_injective (h : catalogRow model index = catalogRow model' index) :
    model.presented = model'.presented := by
  have hget (key : String) : (catalogRow model index).get key = (catalogRow model' index).get key :=
    congrArg (Value.get · key) h
  have hid : model.id = model'.id := by
    simpa [catalogRow, Value.obj, Map.get_ofEntries] using hget "model_id"
  have hlabel : model.displayName.getD model.id = model'.displayName.getD model'.id := by
    simpa [catalogRow, Value.obj, Map.get_ofEntries] using hget "display_label"
  have hvisibility : (if model.isVisible then "visible" else "hidden") =
      if model'.isVisible then "visible" else "hidden" := by
    simpa [catalogRow, Value.obj, Map.get_ofEntries] using hget "visibility"
  have hvisible : model.isVisible = model'.isVisible := by
    revert hvisibility
    cases model.isVisible <;> cases model'.isVisible <;> decide
  have hdefault : model.isDefault = model'.isDefault := by
    simpa [catalogRow, Value.obj, Map.get_ofEntries] using hget "is_default"
  have hcontext : model.contextWindow = model'.contextWindow := optionalNumber_injective <| by
    simpa [catalogRow, Value.obj, Map.get_ofEntries] using hget "context_limit"
  have houtput : model.maxOutputTokens = model'.maxOutputTokens := optionalNumber_injective <| by
    simpa [catalogRow, Value.obj, Map.get_ofEntries] using hget "output_limit"
  have hdescription : model.description = model'.description := optionalText_injective <| by
    simpa [catalogRow, Value.obj, Map.get_ofEntries] using hget "description"
  have hefforts : model.supportedReasoningEfforts = model'.supportedReasoningEfforts :=
    reasoningEffortVariants_injective <| by
      simpa [catalogRow, Value.obj, Map.get_ofEntries] using hget "reasoning_effort_variants"
  unfold GatewayModel.presented
  rw [hlabel, hid, hvisible, hdefault, hcontext, houtput, hdescription, hefforts]

/-- The rows of a catalog. -/
theorem get_modelCatalog_rows (models : List GatewayModel) :
    (modelCatalog models).get "rows" =
      some (.array (models.mapIdx fun index model => catalogRow model index)) := by
  simp [modelCatalog, Value.obj, Map.get_ofEntries]

/-- The rows are those of what is presented of the models. -/
theorem mapIdx_catalogRow (models : List GatewayModel) :
    (models.mapIdx fun index model => catalogRow model index) =
      (models.map (·.presented)).mapIdx fun index model => catalogRow model index := by
  refine List.ext_getElem? fun index => ?_
  rw [List.getElem?_mapIdx, List.getElem?_mapIdx, List.getElem?_map, Option.map_map]
  rfl

/-- Two catalogs are the same exactly when they say the same of the same models. -/
theorem modelCatalog_eq_iff {models models' : List GatewayModel} :
    modelCatalog models = modelCatalog models' ↔
      models.map (·.presented) = models'.map (·.presented) := by
  constructor
  · intro h
    have hrows := congrArg (Value.get · "rows") h
    rw [get_modelCatalog_rows, get_modelCatalog_rows] at hrows
    injection hrows with hrows
    injection hrows with hrows
    refine List.ext_getElem? fun index => ?_
    have hrow := congrArg (·[index]?) hrows
    rw [List.getElem?_mapIdx, List.getElem?_mapIdx] at hrow
    rw [List.getElem?_map, List.getElem?_map]
    cases hmodel : models[index]? with
    | none =>
      rw [hmodel] at hrow
      rw [Option.map_eq_none_iff.mp hrow.symm]
    | some model =>
      rw [hmodel] at hrow
      obtain ⟨model', hmodel', hsame⟩ := Option.map_eq_some_iff.mp hrow.symm
      rw [hmodel', Option.map_some, Option.map_some, catalogRow_injective hsame]
  · intro h
    unfold modelCatalog
    rw [mapIdx_catalogRow models, mapIdx_catalogRow models', h]

/-- What was counted of the rows that were checked. -/
structure Checked (defaultModel : String) (rows : List GatewayModel) (tally : Tally) : Prop where
  ids : tally.ids = (rows.map (·.id)).reverse
  nodup : (rows.map (·.id)).Nodup
  defaults : tally.matchingDefault = rows.countP (·.isDefault)
  default : ∀ row ∈ rows, row.isDefault = true → row.isVisible = true ∧ row.id = defaultModel

/-- A row that is accepted is checked like those before it. -/
theorem Checked.row {defaultModel : String} {rows : List GatewayModel} {tally tally' : Tally}
    (h : Checked defaultModel rows tally)
    (hrow : validateRow defaultModel tally model = .ok tally') :
    Checked defaultModel (rows ++ [model]) tally' := by
  unfold validateRow at hrow
  split at hrow
  · cases hrow
  split_ifs at hrow with hnew hlabel hdescription hlimit hcount heffort hinconsistent
  · split at hrow <;> cases hrow
  · split at hrow <;> cases hrow
  split at hrow
  · cases hrow
  cases hrow
  have hmember : model.id ∉ rows.map (·.id) := by
    rwa [h.ids, List.mem_reverse] at hnew
  constructor
  · simp [Tally.count, h.ids]
  · rw [List.map_append, List.map_singleton, List.nodup_append]
    refine ⟨h.nodup, List.nodup_singleton _, fun id hid id' hid' => ?_⟩
    rw [List.mem_singleton.mp hid']
    exact fun hsame => hmember (hsame ▸ hid)
  · rw [List.countP_append, List.countP_singleton, ← h.defaults]
    rfl
  · intro row hmem hmarked
    rcases List.mem_append.mp hmem with hmem | hmem
    · exact h.default row hmem hmarked
    · obtain rfl := List.mem_singleton.mp hmem
      simpa [hmarked] using hinconsistent

/-- A list of models that is accepted has one default model: it is visible, and no other model is
marked or has its id. -/
theorem exists_default {models : List GatewayModel} {defaultModel : String}
    (hmodels : validateGatewayModels models defaultModel = .ok ()) :
    ∃ before row after, models = before ++ row :: after ∧ row.id = defaultModel ∧
      row.isVisible = true ∧ row.isDefault = true ∧
      ∀ other ∈ before ++ after, other.isDefault = false ∧ other.id ≠ defaultModel := by
  unfold validateGatewayModels at hmodels
  split_ifs at hmodels
  split at hmodels
  · cases hmodels
  rename_i tally hrows
  split_ifs at hmodels with hcounts
  have hchecked : Checked defaultModel models tally := by
    have hstart : Checked defaultModel [] {} := ⟨rfl, List.nodup_nil, rfl, by simp⟩
    exact Fallible.foldlM_inv (fun h hrow => h.row hrow) hstart hrows
  have hone : 0 < models.countP (·.isDefault) := by
    rw [← hchecked.defaults]
    simp only [Bool.or_eq_true, decide_eq_true_eq, not_or] at hcounts
    omega
  obtain ⟨row, hmem, hmarked⟩ := List.countP_pos_iff.mp hone
  obtain ⟨hvisible, hid⟩ := hchecked.default row hmem hmarked
  obtain ⟨before, after, rfl⟩ := List.append_of_mem hmem
  have hnodup := hchecked.nodup
  rw [List.map_append, List.map_cons, List.nodup_middle, List.nodup_cons,
    ← List.map_append] at hnodup
  refine ⟨before, row, after, rfl, hid, hvisible, hmarked, fun other hother => ?_⟩
  have hne : other.id ≠ defaultModel := by
    rintro hsame
    exact hnodup.1 (List.mem_map.mpr ⟨other, hother, hsame.trans hid.symm⟩)
  have hlisted : other ∈ before ++ row :: after :=
    (List.perm_middle.mem_iff).mpr (List.mem_cons_of_mem row hother)
  refine ⟨Bool.eq_false_iff.mpr fun hmarked' => hne ?_, hne⟩
  exact (hchecked.default other hlisted hmarked').2

/-- What a row says of its model. -/
theorem get_catalogRow (model : GatewayModel) (index : ℕ) :
    (catalogRow model index).get "model_id" = some (.string model.id) ∧
      (catalogRow model index).get "visibility" =
        some (.string (if model.isVisible then "visible" else "hidden")) ∧
      (catalogRow model index).get "is_current" = some (.bool model.isDefault) ∧
      (catalogRow model index).get "is_default" = some (.bool model.isDefault) := by
  simp [catalogRow, Value.obj, Map.get_ofEntries]

/-- Of the models the catalog says what the launcher knows of them, but for their default efforts.
The rows of the catalog of a gateway that was accepted show one model as the current one and as the
default: it is the default model, it is visible, and no other row has its id. -/
theorem modelCatalog_faithful {models : List GatewayModel} {defaultModel : String}
    (hmodels : validateGatewayModels models defaultModel = .ok ()) :
    (∀ models', modelCatalog models' = modelCatalog models ↔
      models'.map (·.presented) = models.map (·.presented)) ∧
    ∃ rows current, (modelCatalog models).get "rows" = some (.array rows) ∧
      current < rows.length ∧ ∀ index row, rows[index]? = some row →
        row.get "is_current" = some (.bool (index = current)) ∧
        row.get "is_default" = some (.bool (index = current)) ∧
        (row.get "model_id" = some (.string defaultModel) ↔ index = current) ∧
        (index = current → row.get "visibility" = some (.string "visible")) := by
  refine ⟨fun models' => modelCatalog_eq_iff, ?_⟩
  obtain ⟨before, model, after, rfl, hid, hvisible, hmarked, hothers⟩ := exists_default hmodels
  refine ⟨_, before.length, get_modelCatalog_rows _, by simp, fun index row hrow => ?_⟩
  rw [List.getElem?_mapIdx] at hrow
  obtain ⟨shown, hshown, rfl⟩ := Option.map_eq_some_iff.mp hrow
  obtain ⟨hgetId, hgetVisibility, hgetCurrent, hgetDefault⟩ := get_catalogRow shown index
  rw [hgetId, hgetVisibility, hgetCurrent, hgetDefault]
  by_cases hsame : index = before.length
  · -- The row of the default model.
    subst hsame
    rw [List.getElem?_append_right le_rfl, Nat.sub_self, List.getElem?_cons_zero,
      Option.some_inj] at hshown
    subst hshown
    simp [hid, hvisible, hmarked]
  · have hother : shown ∈ before ++ after := by
      rcases lt_or_gt_of_ne hsame with hbefore | hafter
      · rw [List.getElem?_append_left hbefore] at hshown
        exact List.mem_append_left _ (List.mem_of_getElem? hshown)
      · have hrest : index - before.length = index - before.length - 1 + 1 := by omega
        rw [List.getElem?_append_right hafter.le, hrest, List.getElem?_cons_succ] at hshown
        exact List.mem_append_right _ (List.mem_of_getElem? hshown)
    obtain ⟨hunmarked, hne⟩ := hothers shown hother
    simp [hunmarked, hne, hsame]

end Catalog

/-- A gateway that was accepted has a catalog that was checked. -/
theorem GatewayReady.catalog {provider : PublicProvider} {ready : GatewayReady}
    (hready : ready.validate provider = .ok ready) :
    validateGatewayModels ready.models ready.defaultModel = .ok () := by
  unfold GatewayReady.validate at hready
  split_ifs at hready
  obtain ⟨_, -, hready⟩ := Fallible.bind_eq_ok.mp hready
  obtain ⟨_, -, hready⟩ := Fallible.bind_eq_ok.mp hready
  obtain ⟨_, -, hready⟩ := Fallible.bind_eq_ok.mp hready
  obtain ⟨_, hmodels, -⟩ := Fallible.bind_eq_ok.mp hready
  exact hmodels

/-- What the launcher reads of a gateway in front of Z.ai. -/
def stalledReady : GatewayReady :=
  ⟨READY_SCHEMA_VERSION, stalled.backend.provider, stalled.baseUrl, Base64.encode stalled.token,
    "glm-5.3", stalled.models.map gatewayModel⟩

/-- The document is accepted. -/
theorem stalledReady_valid : stalledReady.validate .zai = .ok stalledReady := by
  have hdefault : defaultModelOf stalled.models = some "glm-5.3" := by decide
  obtain ⟨-, hvalid⟩ | ⟨hother, -⟩ := stalled.validate .zai hdefault stalledReady rfl
  · exact hvalid
  · exact absurd rfl hother

/-- The catalog of the accepted document has one current row. -/
theorem modelCatalog_faithful_stalled :
    ∃ rows current, (modelCatalog stalledReady.models).get "rows" = some (.array rows) ∧
      current < rows.length ∧ ∀ index row, rows[index]? = some row →
        row.get "is_current" = some (.bool (index = current)) ∧
        row.get "is_default" = some (.bool (index = current)) ∧
        (row.get "model_id" = some (.string "glm-5.3") ↔ index = current) ∧
        (index = current → row.get "visibility" = some (.string "visible")) :=
  (modelCatalog_faithful (GatewayReady.catalog stalledReady_valid)).2

end MuseCodex.Launcher
