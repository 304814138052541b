import MuseCodex.Transport.Models

/-!
# The catalog of the public API

The answer of the public API says which models an account has, and the bundled catalog says what
they can do. The merge walks the bundled rows and takes, out of the rows of the account, the one
with the same id. As no id is there twice, what is taken out is never looked for again, so the walk
amounts to a filter of the bundled rows (`foldl_mergeModel_eq`), and the flags that were computed
for the two catalogs are replaced (`normalizeApiModels_intersection`).
-/

namespace MuseCodex.Transport

open Text Fallible

/-! ## The merge -/

/-- Whether some rows have a model. -/
def offers (available : List ModelInfo) (id : String) : Bool := available.any (·.id = id)

/-- Whether a model is visible among some rows. -/
def shows (available : List ModelInfo) (id : String) : Bool :=
  available.any fun row => row.id = id && row.isVisible

/-- Whether a bundled row is in the catalog of an account. -/
def isOffered (available : List ModelInfo) (metadata : ModelInfo) : Bool :=
  metadata.supportedInApi && offers available metadata.id

/-- A bundled row in the catalog of an account, before the default is marked. -/
def offeredRow (available : List ModelInfo) (metadata : ModelInfo) : ModelInfo :=
  { metadata with
    isVisible := metadata.isVisible && shows available metadata.id
    isDefault := false }

/-- The rows of the catalog of an account, before the default is marked. -/
def intersection (available bundled : List ModelInfo) : List ModelInfo :=
  (bundled.filter (isOffered available)).map (offeredRow available)

/-- A row that is taken out does not matter for models of other ids. -/
theorem offers_shows_erase {before after : List ModelInfo} {row : ModelInfo} {id : String}
    (hne : row.id ≠ id) :
    offers (before ++ after) id = offers (before ++ row :: after) id ∧
      shows (before ++ after) id = shows (before ++ row :: after) id := by
  unfold offers shows
  simp [hne]

/-- What the merge does with a bundled row. -/
theorem mergeModel_eq {acc : List ModelInfo × List ModelInfo} (hids : (acc.1.map (·.id)).Nodup)
    (metadata : ModelInfo) :
    (offers acc.1 metadata.id = false ∧ mergeModel acc metadata = acc) ∨
    ∃ before row after, acc.1 = before ++ row :: after ∧ row.id = metadata.id ∧
      offers acc.1 metadata.id = true ∧ mergeModel acc metadata = (before ++ after,
        acc.2 ++ if metadata.supportedInApi then [offeredRow acc.1 metadata] else []) := by
  unfold mergeModel
  cases hindex : acc.1.findIdx? (·.id = metadata.id) with
  | none =>
    rw [List.findIdx?_eq_none_iff] at hindex
    exact .inl ⟨List.any_eq_false.mpr (by simpa using hindex), rfl⟩
  | some index =>
    obtain ⟨before, row, after, hsplit, hid, hbefore, hget, herase, -⟩ := findIdx?_split hindex
    rw [decide_eq_true_eq] at hid
    have hoffers : offers acc.1 metadata.id = true := by
      rw [hsplit, offers, List.any_eq_true]
      exact ⟨row, by simp, by simpa using hid⟩
    -- The row is the only one with the id, so it decides whether the model is visible.
    have hshows : shows acc.1 metadata.id = row.isVisible := by
      have hafter : ∀ other ∈ after, other.id ≠ metadata.id := by
        intro other hother heq
        rw [hsplit, List.map_append, List.map_cons, List.nodup_append, List.nodup_cons] at hids
        refine hids.2.1.1 ?_
        rw [hid, ← heq]
        exact List.mem_map_of_mem hother
      have hnone (rows : List ModelInfo) (hrows : ∀ other ∈ rows, other.id ≠ metadata.id) :
          (rows.any fun row => row.id = metadata.id && row.isVisible) = false := by
        rw [List.any_eq_false]
        intro other hother
        simp [hrows other hother]
      rw [hsplit, shows, List.any_append, List.any_cons, hnone after hafter,
        hnone before (by simpa using hbefore), hid]
      simp
    refine .inr ⟨before, row, after, hsplit, hid, hoffers, ?_⟩
    dsimp only
    rw [herase, hget, offeredRow, hshows]
    cases metadata.supportedInApi with
    | true => rfl
    | false => simp

/-- The merge of rows whose ids are all different is a filter of the bundled ones. -/
theorem foldl_mergeModel_eq {bundled : List ModelInfo} (hbundled : (bundled.map (·.id)).Nodup)
    {acc : List ModelInfo × List ModelInfo} (hids : (acc.1.map (·.id)).Nodup) :
    (bundled.foldl mergeModel acc).2 = acc.2 ++ intersection acc.1 bundled := by
  induction bundled generalizing acc with
  | nil => exact (List.append_nil _).symm
  | cons metadata bundled ih =>
    obtain ⟨hfirst, hrest⟩ := List.nodup_cons.mp hbundled
    have hcons : intersection acc.1 (metadata :: bundled) =
        (if isOffered acc.1 metadata then [offeredRow acc.1 metadata] else []) ++
          intersection acc.1 bundled := by
      unfold intersection
      rw [List.filter_cons]
      split_ifs <;> rfl
    rw [List.foldl_cons, hcons, isOffered]
    rcases mergeModel_eq hids metadata with
      ⟨hoffers, hstep⟩ | ⟨before, row, after, hsplit, hid, hoffers, hstep⟩
    · rw [hstep, ih hrest hids, hoffers, Bool.and_false]
      rfl
    · -- No other bundled row has the id of the row that is taken out.
      have hothers : intersection (before ++ after) bundled = intersection acc.1 bundled := by
        have hsame : ∀ other ∈ bundled, offers (before ++ after) other.id = offers acc.1 other.id ∧
            shows (before ++ after) other.id = shows acc.1 other.id := by
          intro other hother
          rw [hsplit]
          apply offers_shows_erase
          rw [hid]
          intro heq
          exact hfirst (List.mem_map.mpr ⟨other, hother, heq.symm⟩)
        unfold intersection
        rw [List.filter_congr fun other hother => by
          rw [isOffered, (hsame other hother).1, ← isOffered]]
        refine List.map_congr_left fun other hother => ?_
        rw [offeredRow, (hsame other (List.mem_filter.mp hother).1).2, ← offeredRow]
      have hnodup : ((before ++ after).map (·.id)).Nodup := by
        rw [hsplit] at hids
        refine hids.sublist (List.Sublist.map _ ?_)
        exact (List.Sublist.refl before).append (List.sublist_cons_self row after)
      rw [hstep, ih hrest hnodup, hothers, hoffers, Bool.and_true, List.append_assoc]

/-! ## The catalog -/

/-- A row without the flags that depend on the other rows. -/
def unflagged (row : ModelInfo) : ModelInfo := { row with isVisible := false, isDefault := false }

/-- What a catalog of the public API is, given the rows of the account and the bundled rows. -/
structure Intersects (available bundled models : List ModelInfo) : Prop where
  /-- The rows are the bundled ones that the public API supports and the account has, in their order
  and with all that the bundled catalog says of them. -/
  rows : models.map unflagged = (bundled.filter fun row => row.supportedInApi &&
    available.any (·.id = row.id)).map unflagged
  once : (models.map (·.id)).Nodup
  /-- A row is visible when it is in both catalogs. -/
  visible : ∀ model ∈ models, model.isVisible = true ↔
    (∃ row ∈ bundled, row.id = model.id ∧ row.isVisible = true) ∧
      ∃ row ∈ available, row.id = model.id ∧ row.isVisible = true
  /-- The first visible row is the default, and no other is. -/
  default : ∃ before model after, models = before ++ model :: after ∧ model.isVisible = true ∧
    model.isDefault = true ∧ (∀ other ∈ before, other.isVisible = false) ∧
    ∀ other ∈ before ++ after, other.isDefault = false

/-- Marking the default succeeds when a row is visible, and marks the first one that is. -/
theorem markDefault_spec (rows : List ModelInfo) :
    ((∃ models, markDefault rows = .ok models) ↔ ∃ row ∈ rows, row.isVisible = true) ∧
      ∀ models, markDefault rows = .ok models → ∃ before row after, rows = before ++ row :: after ∧
        row.isVisible = true ∧ (∀ other ∈ before, other.isVisible = false) ∧
        models = before ++ { row with isDefault := true } :: after := by
  unfold markDefault
  cases hindex : rows.findIdx? (·.isVisible) with
  | none =>
    rw [List.findIdx?_eq_none_iff] at hindex
    refine ⟨iff_of_false nofun ?_, nofun⟩
    rintro ⟨row, hrow, hvisible⟩
    rw [hindex row hrow] at hvisible
    cases hvisible
  | some index =>
    obtain ⟨before, row, after, hsplit, hvisible, hbefore, -, -, hmodify⟩ := findIdx?_split hindex
    refine ⟨iff_of_true ⟨_, rfl⟩ ⟨row, by simp [hsplit], hvisible⟩, fun models h => ?_⟩
    refine ⟨before, row, after, hsplit, hvisible, hbefore, ?_⟩
    rw [← Except.ok.inj h, hmodify]

/-- The ids of a catalog are those of its rows, so a bundled row is the only one of its id. -/
theorem eq_of_id_eq {rows : List ModelInfo} (h : (rows.map (·.id)).Nodup) {row row' : ModelInfo}
    (hrow : row ∈ rows) (hrow' : row' ∈ rows) (hid : row.id = row'.id) : row = row' :=
  List.inj_on_of_nodup_map h hrow hrow' hid

/-- The catalog of the public API is the intersection of that of the account and the bundled one:
there is one exactly when a model is visible in both and the public API supports it. -/
theorem normalizeApiModels_intersection (fromSlice : Bytes → Except String UpstreamModelsResponse)
    (bundledModelCatalog bytes : Bytes) (available bundled : List ModelInfo)
    (havailable : normalizeModels fromSlice bytes = .ok available)
    (hbundled : normalizeModels fromSlice bundledModelCatalog = .ok bundled) :
    ((∃ models, normalizeApiModelsWithBundledMetadata fromSlice bundledModelCatalog bytes =
        .ok models) ↔
      ∃ metadata ∈ bundled, metadata.supportedInApi = true ∧ metadata.isVisible = true ∧
        ∃ row ∈ available, row.id = metadata.id ∧ row.isVisible = true) ∧
    ∀ models, normalizeApiModelsWithBundledMetadata fromSlice bundledModelCatalog bytes =
      .ok models → Intersects available bundled models := by
  have hids := (normalizeModels_catalog havailable).ids
  have hids' := (normalizeModels_catalog hbundled).ids
  have hshows (id : String) : shows available id = true ↔
      ∃ row ∈ available, row.id = id ∧ row.isVisible = true := by
    simp [shows]
  have heq : normalizeApiModelsWithBundledMetadata fromSlice bundledModelCatalog bytes =
      markDefault (intersection available bundled) := by
    unfold normalizeApiModelsWithBundledMetadata
    rw [havailable, hbundled]
    have hmerge := @foldl_mergeModel_eq bundled hids' (available, []) hids
    exact congrArg markDefault hmerge
  obtain ⟨hsucceeds, hmarks⟩ := markDefault_spec (intersection available bundled)
  rw [heq]
  constructor
  · rw [hsucceeds]
    constructor
    · rintro ⟨row, hrow, hvisible⟩
      obtain ⟨metadata, hmetadata, rfl⟩ := List.mem_map.mp hrow
      obtain ⟨hmem, hoffered⟩ := List.mem_filter.mp hmetadata
      rw [isOffered, Bool.and_eq_true] at hoffered
      rw [offeredRow, Bool.and_eq_true, hshows] at hvisible
      exact ⟨metadata, hmem, hoffered.1, hvisible.1, hvisible.2⟩
    · rintro ⟨metadata, hmem, hsupported, hvisible, row, hrow, hid, hrowVisible⟩
      refine ⟨offeredRow available metadata, List.mem_map_of_mem (List.mem_filter.mpr ⟨hmem, ?_⟩), ?_⟩
      · rw [isOffered, hsupported, Bool.true_and, offers, List.any_eq_true]
        exact ⟨row, hrow, by simpa using hid⟩
      · rw [offeredRow, hvisible, Bool.true_and, hshows]
        exact ⟨row, hrow, hid, hrowVisible⟩
  · intro models h
    obtain ⟨before, row, after, hsplit, hvisible, hbefore, rfl⟩ := hmarks models h
    -- The mark of the default is the only difference to the rows of the intersection.
    have hrows : (before ++ { row with isDefault := true } :: after).map unflagged =
        (intersection available bundled).map unflagged := by
      rw [hsplit, List.map_append, List.map_append]
      rfl
    have hflags : ∀ model ∈ before ++ { row with isDefault := true } :: after,
        ∃ metadata ∈ bundled, model.id = metadata.id ∧
          model.isVisible = (metadata.isVisible && shows available metadata.id) := by
      have hplain : ∀ plain ∈ intersection available bundled, ∃ metadata ∈ bundled,
          plain.id = metadata.id ∧
            plain.isVisible = (metadata.isVisible && shows available metadata.id) := by
        intro plain hplain
        obtain ⟨metadata, hmetadata, rfl⟩ := List.mem_map.mp hplain
        exact ⟨metadata, (List.mem_filter.mp hmetadata).1, rfl, rfl⟩
      rw [hsplit] at hplain
      intro model hmodel
      rcases List.mem_append.mp hmodel with hmodel | hmodel
      · exact hplain model (List.mem_append_left _ hmodel)
      · rcases List.mem_cons.mp hmodel with rfl | hmodel
        · exact hplain row (by simp)
        · exact hplain model (by simp [hmodel])
    have hunmarked : ∀ other ∈ intersection available bundled, other.isDefault = false := by
      intro other hother
      obtain ⟨metadata, -, rfl⟩ := List.mem_map.mp hother
      rfl
    refine ⟨?_, ?_, fun model hmodel => ?_, before, _, after, rfl, hvisible, rfl, hbefore, ?_⟩
    · rw [hrows, intersection, List.map_map]
      rfl
    · have hsame : (before ++ { row with isDefault := true } :: after).map (·.id) =
          (bundled.filter (isOffered available)).map (·.id) := by
        have hids := congrArg (List.map (·.id)) hrows
        rw [List.map_map, List.map_map, intersection, List.map_map] at hids
        exact hids
      rw [hsame]
      exact hids'.sublist (List.Sublist.map _ List.filter_sublist)
    · obtain ⟨metadata, hmem, hid, hflag⟩ := hflags model hmodel
      rw [hflag, Bool.and_eq_true, hshows, hid]
      constructor
      · rintro ⟨hmetadata, hrow⟩
        exact ⟨⟨metadata, hmem, rfl, hmetadata⟩, hrow⟩
      · rintro ⟨⟨metadata', hmem', hid', hmetadata'⟩, hrow⟩
        rw [eq_of_id_eq hids' hmem' hmem hid'] at hmetadata'
        exact ⟨hmetadata', hrow⟩
    · intro other hother
      refine hunmarked other ?_
      rw [hsplit]
      rcases List.mem_append.mp hother with hother | hother
      · exact List.mem_append_left _ hother
      · simp [hother]

/-- A catalog of four models, of which the public API does not support `c`. -/
def bundledText : String :=
  "\x7b\"data\":[\x7b\"slug\":\"a\"\x7d,\x7b\"slug\":\"b\"\x7d," ++
    "\x7b\"slug\":\"c\",\"supported_in_api\":false\x7d,\x7b\"slug\":\"d\"\x7d]\x7d"

/-- The models of an account, which has `b` hidden, and `x` that the other catalog does not know. -/
def accountText : String :=
  "\x7b\"data\":[\x7b\"slug\":\"d\"\x7d,\x7b\"slug\":\"c\"\x7d," ++
    "\x7b\"slug\":\"b\",\"visibility\":\"hide\"\x7d,\x7b\"slug\":\"x\"\x7d]\x7d"

/-- A decoder of these two answers. -/
def decodeCatalog (bytes : Bytes) : Except String UpstreamModelsResponse :=
  if bytes = toUtf8 bundledText then
    .ok { data := [{ slug := "a" }, { slug := "b" }, { slug := "c", supportedInApi := false },
      { slug := "d" }] }
  else if bytes = toUtf8 accountText then
    .ok { data := [{ slug := "d" }, { slug := "c" }, { slug := "b", visibility := some "hide" },
      { slug := "x" }] }
  else .error "expected value"

/-- The catalog has the hidden `b` and the default `d`. -/
theorem normalizeApiModels_intersection_hidden :
    ∃ available bundled models,
      normalizeModels decodeCatalog (toUtf8 accountText) = .ok available ∧
      normalizeModels decodeCatalog (toUtf8 bundledText) = .ok bundled ∧
      normalizeApiModelsWithBundledMetadata decodeCatalog (toUtf8 bundledText)
        (toUtf8 accountText) = .ok models ∧
      models.map (fun model => (model.id, model.isVisible, model.isDefault)) =
        [("b", false, false), ("d", true, true)] ∧
      Intersects available bundled models := by
  obtain ⟨available, havailable⟩ : ∃ available,
      normalizeModels decodeCatalog (toUtf8 accountText) = .ok available :=
    exists_eq_ok (by decide)
  obtain ⟨bundled, hbundled⟩ : ∃ bundled,
      normalizeModels decodeCatalog (toUtf8 bundledText) = .ok bundled :=
    exists_eq_ok (by decide)
  have hrows : (normalizeApiModelsWithBundledMetadata decodeCatalog (toUtf8 bundledText)
      (toUtf8 accountText)).toOption.map (fun models => models.map fun model =>
        (model.id, model.isVisible, model.isDefault)) =
      some [("b", false, false), ("d", true, true)] := by
    decide
  obtain ⟨models, hmodels, hflags⟩ := Option.map_eq_some_iff.mp hrows
  rw [toOption_eq_some] at hmodels
  exact ⟨available, bundled, models, havailable, hbundled, hmodels, hflags,
    (normalizeApiModels_intersection decodeCatalog _ _ available bundled havailable
      hbundled).2 models hmodels⟩

end MuseCodex.Transport
