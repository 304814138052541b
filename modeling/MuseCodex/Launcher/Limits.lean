import Mathlib.Algebra.Order.BigOperators.Group.List
import MuseCodex.Json.Size
import MuseCodex.Launcher.Ready

/-!
# The size of the readiness file

The gateway limits the answer of an upstream to `/models`, and the launcher limits the readiness
file that the gateway writes of it. A row of the file has names, nulls, and flags that the row of
the answer may leave out, so the file can be larger than the answer. The texts of a row stand in the
answer too, and what is added to them is bounded for a row (`sizeBy_modelValue`). With the limit on
the rows, the difference of the two limits is enough (`readyFile_withinLimit`).
-/

namespace MuseCodex.Transport

open Text Json Fallible

/-- The largest answer to `/models` that the gateway reads. -/
def MAX_MODELS_RESPONSE_BYTES : ℕ := 8 * 1024 * 1024

/-! ## The texts of a catalog -/

/-- The texts of a model in an answer that may reach its row. -/
def UpstreamModel.texts (model : UpstreamModel) : List String :=
  model.slug :: model.displayName.toList ++ model.description.toList

/-- The texts of an answer that may reach the rows. -/
def UpstreamModelsResponse.texts (upstream : UpstreamModelsResponse) : List String :=
  (upstream.models ++ upstream.data).flatMap UpstreamModel.texts

/-- The texts of a row. -/
def ModelInfo.texts (model : ModelInfo) : List String :=
  model.id :: model.displayName.toList ++ model.description.toList

/-- Lists that are made of sublists one by one. -/
theorem flatMap_sublist_of_forall₂ {α β γ : Type} {f : α → List γ} {g : β → List γ} {as : List α}
    {bs : List β} (h : List.Forall₂ (fun a b => (g b).Sublist (f a)) as bs) :
    (bs.flatMap g).Sublist (as.flatMap f) := by
  induction h with
  | nil => exact List.Sublist.refl _
  | cons hfirst _ ih =>
    rw [List.flatMap_cons, List.flatMap_cons]
    exact hfirst.append ih

/-- A text of the catalog is part of what it comes from. -/
theorem normalizeCatalogText_sublist {value text : Option String} {maxBytes : ℕ}
    {allowNewlines : Bool} (h : normalizeCatalogText value maxBytes allowNewlines = .ok text) :
    text.toList.Sublist value.toList := by
  unfold normalizeCatalogText at h
  split at h
  · cases h
    exact List.Sublist.refl _
  · split_ifs at h
    · cases h
      exact List.nil_sublist _
    · cases h
      exact List.Sublist.refl _

/-- The texts of a row are texts of its model. -/
theorem normalizeModel_texts {model : UpstreamModel} {row : ModelInfo}
    (h : normalizeModel model = .ok row) : row.texts.Sublist model.texts := by
  unfold normalizeModel at h
  obtain ⟨listed, -, h⟩ := bind_eq_ok.mp h
  obtain ⟨later, -, h⟩ := bind_eq_ok.mp h
  dsimp only at h
  obtain ⟨inputModalities, -, h⟩ := bind_eq_ok.mp h
  obtain ⟨displayName, hname, h⟩ := bind_eq_ok.mp h
  obtain ⟨description, hdescription, h⟩ := bind_eq_ok.mp h
  obtain ⟨contextWindow, -, h⟩ := bind_eq_ok.mp h
  obtain ⟨maxOutputTokens, -, h⟩ := bind_eq_ok.mp h
  cases h
  have hname' := normalizeCatalogText_sublist hname
  have hdescription' := normalizeCatalogText_sublist hdescription
  exact (hname'.append hdescription').cons_cons model.slug

/-- A run over models adds a row for each of them. -/
theorem foldlM_addModel_rows {upstream : List UpstreamModel}
    {acc acc' : List ModelInfo × List String} (h : upstream.foldlM addModel acc = .ok acc') :
    ∃ rows, acc'.1 = acc.1 ++ rows ∧
      List.Forall₂ (fun model row => normalizeModel model = .ok row) upstream rows := by
  induction upstream generalizing acc with
  | nil =>
    cases h
    exact ⟨[], by simp, .nil⟩
  | cons model upstream ih =>
    obtain ⟨acc₁, hfirst, hrest⟩ := foldlM_cons_eq_ok.mp h
    unfold addModel at hfirst
    split at hfirst
    · cases hfirst
    · split_ifs at hfirst
      obtain ⟨row, hrow, hfirst⟩ := bind_eq_ok.mp hfirst
      cases hfirst
      obtain ⟨rows, hrows, hforall⟩ := ih hrest
      refine ⟨row :: rows, ?_, .cons hrow hforall⟩
      rw [hrows, List.append_assoc, List.singleton_append]

/-- The default is marked without a change of the texts. -/
theorem markDefault_texts {rows models : List ModelInfo} (h : markDefault rows = .ok models) :
    models.flatMap ModelInfo.texts = rows.flatMap ModelInfo.texts := by
  unfold markDefault at h
  split at h
  · cases h
  · rename_i index hindex
    cases h
    obtain ⟨before, row, after, rfl, -, -, -, -, hmodify⟩ := findIdx?_split hindex
    rw [hmodify, List.flatMap_append, List.flatMap_append, List.flatMap_cons, List.flatMap_cons]
    rfl

/-- The texts of a catalog are texts of the answer. -/
theorem normalizeModels_texts {fromSlice : Bytes → Except String UpstreamModelsResponse}
    {bytes : Bytes} {models : List ModelInfo} (h : normalizeModels fromSlice bytes = .ok models) :
    ∃ upstream, fromSlice bytes = .ok upstream ∧
      (models.flatMap ModelInfo.texts).Subperm upstream.texts := by
  have hrows {upstreamModels : List UpstreamModel} {rows : List ModelInfo} {ids : List String}
      (hrun : upstreamModels.foldlM addModel ([], []) = .ok (rows, ids))
      (hmark : markDefault rows = .ok models) :
      (models.flatMap ModelInfo.texts).Sublist (upstreamModels.flatMap UpstreamModel.texts) := by
    obtain ⟨rows', hrows', hforall⟩ := foldlM_addModel_rows hrun
    rw [markDefault_texts hmark]
    dsimp only at hrows'
    rw [hrows', List.nil_append]
    exact flatMap_sublist_of_forall₂ (hforall.imp fun _ _ => normalizeModel_texts)
  unfold normalizeModels at h
  split at h
  · cases h
  · rename_i upstream hupstream
    refine ⟨upstream, hupstream, ?_⟩
    have htexts : upstream.texts = upstream.models.flatMap UpstreamModel.texts ++
      upstream.data.flatMap UpstreamModel.texts := List.flatMap_append
    rw [htexts]
    dsimp only at h
    split_ifs at h with hmixed hempty hcount hsubscription hsubscription
    · obtain ⟨⟨rows, ids⟩, hrun, hmark⟩ := bind_eq_ok.mp h
      -- The models of a subscription are sorted first.
      have hsorted := List.mergeSort_perm upstream.models
        fun model model' => decide (model.priority ≤ model'.priority)
      exact (hrows hrun hmark).subperm.trans ((hsorted.flatMap_right _).subperm.trans
        (List.sublist_append_left _ _).subperm)
    · obtain ⟨⟨rows, ids⟩, hrun, hmark⟩ := bind_eq_ok.mp h
      exact (hrows hrun hmark).subperm.trans (List.sublist_append_right _ _).subperm

end MuseCodex.Transport

namespace MuseCodex.Launcher

open Text Json Fallible Transport

/-! ## What is written and read -/

/-- The largest readiness file that the launcher reads. -/
def MAX_GATEWAY_READY_BYTES : ℕ := 10 * 1024 * 1024

/-- The upstreams of a gateway. -/
inductive Backend where
  | codex
  | zai

/-- The name of an upstream in the readiness file. -/
def Backend.provider : Backend → String
  | .codex => "codex"
  | .zai => "zai"

/-- The URL of a loopback address with a port, as the gateway writes the address it is bound to. -/
inductive IsLoopbackUrl : String → Prop where
  | v4 (a b c : UInt8) (port : UInt16) :
      IsLoopbackUrl ("http://127." ++ decimal a.toNat ++ "." ++ decimal b.toNat ++ "." ++
        decimal c.toNat ++ ":" ++ decimal port.toNat)
  | v6 (port : UInt16) : IsLoopbackUrl ("http://[::1]:" ++ decimal port.toNat)
  | v6Scoped (scope : UInt32) (port : UInt16) :
      IsLoopbackUrl ("http://[::1%" ++ decimal scope.toNat ++ "]:" ++ decimal port.toNat)

/-- The bytes of the readiness file, as far as the launcher reads them. An empty file is not ready
yet. -/
def readReadyBytes (file : Bytes) : Except String (Option Bytes) :=
  if MAX_GATEWAY_READY_BYTES < file.length then
    .error "gateway readiness file exceeds the size limit"
  else
    let bytes := file.take (MAX_GATEWAY_READY_BYTES + 1)
    if MAX_GATEWAY_READY_BYTES < bytes.length then
      .error "gateway readiness file exceeds the size limit"
    else if bytes.isEmpty then .ok none
    else .ok (some bytes)

/-- What the decoder of an answer guarantees of the texts in it: each of them stands in the answer
as a string of JSON, apart from the others. -/
def SpelledOut (serde : Serde) (fromSlice : Bytes → Except String UpstreamModelsResponse) : Prop :=
  ∀ bytes upstream, fromSlice bytes = .ok upstream → ∃ texts spellings : List String,
    texts.Perm upstream.texts ∧
    List.Forall₂ (fun spelling text => serde.fromStr spelling = .ok (.string text))
      spellings texts ∧
    (spellings.flatMap toUtf8).Sublist bytes

/-! ## What is added to the texts -/

variable {serde : Serde}

/-- The bytes of printed texts. -/
def textsSize (serde : Serde) (texts : List String) : ℕ := (texts.map serde.quotedSize).sum

/-- The texts of an answer are printed with no more bytes than the answer has. -/
theorem textsSize_le (hserde : serde.Measured)
    {fromSlice : Bytes → Except String UpstreamModelsResponse} (hdecoder : SpelledOut serde fromSlice)
    {bytes : Bytes} {upstream : UpstreamModelsResponse} (h : fromSlice bytes = .ok upstream) :
    textsSize serde upstream.texts ≤ bytes.length := by
  obtain ⟨texts, spellings, hperm, hspelled, hsublist⟩ := hdecoder bytes upstream h
  have hsum : textsSize serde texts ≤ (spellings.flatMap toUtf8).length := by
    clear hperm hsublist
    induction hspelled with
    | nil => exact Nat.le_refl _
    | @cons spelling text spellings texts hfirst _ ih =>
      have hshort := hserde.shortest spelling text hfirst
      rw [List.flatMap_cons, List.length_append, toUtf8_length]
      simp only [textsSize, List.map_cons, List.sum_cons] at ih ⊢
      omega
  calc textsSize serde upstream.texts
      = textsSize serde texts := (hperm.map _).sum_eq.symm
    _ ≤ (spellings.flatMap toUtf8).length := hsum
    _ ≤ bytes.length := hsublist.length_le

/-- The size of an array of short texts. -/
theorem itemsSizeBy_strings {size : String → ℕ} {n : ℕ} {texts : List String}
    (h : ∀ text ∈ texts, size text + 1 ≤ n) :
    itemsSizeBy size (texts.map Value.string) ≤ n * texts.length := by
  induction texts with
  | nil => exact Nat.zero_le _
  | cons text texts ih =>
    obtain ⟨htext, htexts⟩ := List.forall_mem_cons.mp h
    have hrest := ih htexts
    rw [List.map_cons, itemsSizeBy, Value.sizeBy, List.length_cons, Nat.mul_succ]
    omega

/-- The bytes of an optional text. -/
theorem sizeBy_optionalText (text : Option String) :
    (optionalText text).sizeBy serde.quotedSize ≤ 4 + textsSize serde text.toList := by
  rcases text with _ | text
  · exact Nat.le_refl _
  · simp [optionalText, Value.sizeBy, textsSize]

/-- The bytes of an optional number. -/
theorem sizeBy_optionalNumber (n : Option UInt64) :
    (optionalNumber n).sizeBy serde.quotedSize ≤ 20 := by
  rcases n with _ | n
  · simp [optionalNumber, Value.sizeBy]
  · exact textSize_ofNat n.toNat_lt

/-- An object has its names, its values, and the marks around them. -/
theorem sizeBy_obj_le (hserde : serde.Measured) (entries : List (String × Value)) :
    (Value.obj entries).sizeBy serde.quotedSize ≤
      (entries.map fun e => escapedSize e.1 + 2).sum +
        (entries.map fun e => e.2.sizeBy serde.quotedSize).sum + 2 := by
  have hentries : entriesSizeBy serde.quotedSize entries ≤
      (entries.map fun e => escapedSize e.1 + 2).sum +
        (entries.map fun e => e.2.sizeBy serde.quotedSize).sum := by
    induction entries with
    | nil => exact Nat.le_refl _
    | cons entry entries ih =>
      obtain ⟨k, v⟩ := entry
      have hk := hserde.escaped k
      rw [entriesSizeBy, List.map_cons, List.map_cons, List.sum_cons, List.sum_cons]
      dsimp only
      omega
  exact (sizeBy_obj serde.quotedSize entries).trans (Nat.add_le_add_right hentries 2)

/-- The efforts of a row: there are eight, and none has more than seven letters. -/
theorem sizeBy_efforts (hserde : serde.Measured) {model : ModelInfo} (hvalid : model.Valid) :
    (Value.array (model.supportedReasoningEfforts.map Value.string)).sizeBy serde.quotedSize ≤
      82 := by
  have hknown : ∀ effort ∈ reasoningEfforts, escapedSize effort ≤ 9 := by decide
  have hsubset : model.supportedReasoningEfforts ⊆ reasoningEfforts :=
    fun effort heffort => of_decide_eq_true (hvalid.effort effort heffort)
  have hcount := (List.subperm_of_subset hvalid.efforts hsubset).length_le
  have height : reasoningEfforts.length = 8 := rfl
  have hitems := @itemsSizeBy_strings serde.quotedSize 10 model.supportedReasoningEfforts
    fun effort heffort => Nat.succ_le_succ
      ((hserde.escaped effort).trans (hknown effort (hsubset heffort)))
  rw [Value.sizeBy]
  omega

/-- The default effort of a row is one of its efforts. -/
theorem sizeBy_defaultEffort (hserde : serde.Measured) {model : ModelInfo} (hvalid : model.Valid) :
    (optionalText model.defaultReasoningEffort).sizeBy serde.quotedSize ≤ 9 := by
  have hknown : ∀ effort ∈ reasoningEfforts, escapedSize effort ≤ 9 := by decide
  rcases hdefault : model.defaultReasoningEffort with _ | effort
  · simp [optionalText, Value.sizeBy]
  · have heffort := hvalid.effort effort (hvalid.defaultEffort effort hdefault)
    exact (hserde.escaped effort).trans (hknown effort (of_decide_eq_true heffort))

/-- A row of the readiness file has at most this much around its texts. -/
theorem sizeBy_modelValue (hserde : serde.Measured) {model : ModelInfo} (hvalid : model.Valid) :
    (modelValue model).sizeBy serde.quotedSize + 1 ≤ 330 + textsSize serde model.texts := by
  have hname := @sizeBy_optionalText serde model.displayName
  have hdescription := @sizeBy_optionalText serde model.description
  have hwindow := @sizeBy_optionalNumber serde model.contextWindow
  have htokens := @sizeBy_optionalNumber serde model.maxOutputTokens
  have hefforts := sizeBy_efforts hserde hvalid
  have hdefault := sizeBy_defaultEffort hserde hvalid
  have hkeys : (["id", "display_name", "description", "context_window", "max_output_tokens",
      "supported_reasoning_efforts", "default_reasoning_effort", "is_visible", "is_default"].map
        fun k => escapedSize k + 2).sum = 163 := by decide
  have hobject := sizeBy_obj_le hserde [("id", .string model.id),
    ("display_name", optionalText model.displayName),
    ("description", optionalText model.description),
    ("context_window", optionalNumber model.contextWindow),
    ("max_output_tokens", optionalNumber model.maxOutputTokens),
    ("supported_reasoning_efforts",
      .array (model.supportedReasoningEfforts.map Value.string)),
    ("default_reasoning_effort", optionalText model.defaultReasoningEffort),
    ("is_visible", .bool model.isVisible), ("is_default", .bool model.isDefault)]
  have htexts : textsSize serde model.texts = serde.quotedSize model.id +
      textsSize serde model.displayName.toList + textsSize serde model.description.toList := by
    simp [textsSize, ModelInfo.texts]
    omega
  simp only [List.map_cons, List.map_nil, List.sum_cons, List.sum_nil] at hobject hkeys
  rw [modelValue, htexts]
  simp only [Value.sizeBy] at hobject hefforts
  omega

/-- The rows of the readiness file. -/
theorem itemsSizeBy_modelValues (hserde : serde.Measured) {models : List ModelInfo}
    (hvalid : ∀ model ∈ models, model.Valid) :
    itemsSizeBy serde.quotedSize (models.map modelValue) ≤
      330 * models.length + textsSize serde (models.flatMap ModelInfo.texts) := by
  induction models with
  | nil => exact Nat.le_refl _
  | cons model models ih =>
    obtain ⟨hmodel, hmodels⟩ := List.forall_mem_cons.mp hvalid
    have hrow := sizeBy_modelValue hserde hmodel
    have hrest := ih hmodels
    have htexts : textsSize serde ((model :: models).flatMap ModelInfo.texts) =
        textsSize serde model.texts + textsSize serde (models.flatMap ModelInfo.texts) := by
      simp [textsSize]
    rw [List.map_cons, itemsSizeBy, List.length_cons, htexts, Nat.mul_succ]
    omega

/-! ## What is written around the rows -/

/-- A number of 32 bits has ten digits at most. -/
theorem utf8ByteSize_decimal {n : ℕ} (h : n < 2 ^ 32) : (decimal n).utf8ByteSize ≤ 10 := by
  have hdigits := Nat.toDigits_length 10 n 10 (by decide) (h.trans (by decide))
  have hsize : (decimal n).utf8ByteSize = (Nat.toDigits 10 n).length := by
    rw [decimal, String.utf8ByteSize_ofList]
    exact Compact.utf8Len_printNat n
  omega

/-- The URL of a loopback address is short. -/
theorem IsLoopbackUrl.utf8ByteSize_le {url : String} (h : IsLoopbackUrl url) :
    url.utf8ByteSize ≤ 64 := by
  have hbyte (n : UInt8) : (decimal n.toNat).utf8ByteSize ≤ 10 :=
    utf8ByteSize_decimal (n.toNat_lt.trans (by decide))
  have hport (n : UInt16) : (decimal n.toNat).utf8ByteSize ≤ 10 :=
    utf8ByteSize_decimal (n.toNat_lt.trans (by decide))
  have hscope (n : UInt32) : (decimal n.toNat).utf8ByteSize ≤ 10 := utf8ByteSize_decimal n.toNat_lt
  have hparts : "http://127.".utf8ByteSize = 11 ∧ ".".utf8ByteSize = 1 ∧ ":".utf8ByteSize = 1 ∧
      "http://[::1]:".utf8ByteSize = 13 ∧ "http://[::1%".utf8ByteSize = 12 ∧
      "]:".utf8ByteSize = 2 := by decide
  rcases h with ⟨a, b, c, port⟩ | port | ⟨scope, port⟩
  · have ha := hbyte a
    have hb := hbyte b
    have hc := hbyte c
    have hp := hport port
    simp only [String.utf8ByteSize_append]
    omega
  · have hp := hport port
    simp only [String.utf8ByteSize_append]
    omega
  · have hs := hscope scope
    have hp := hport port
    simp only [String.utf8ByteSize_append]
    omega

/-- A character of a text is escaped with at most six bytes. -/
theorem escapedSize_le_length (s : String) : escapedSize s ≤ 6 * s.toList.length + 2 := by
  have hchars (cs : List Char) : (cs.map escapeSize).sum ≤ 6 * cs.length := by
    induction cs with
    | nil => exact Nat.le_refl _
    | cons c cs ih =>
      have hc := Compact.escapeSize_le_six c
      rw [List.map_cons, List.sum_cons, List.length_cons]
      omega
  exact Nat.add_le_add_right (hchars s.toList) 2

/-- The readiness file, by its rows. -/
theorem sizeBy_readyFile (hserde : serde.Measured) (backend : Backend)
    {baseUrl token defaultModel : String} (hurl : IsLoopbackUrl baseUrl)
    (htoken : token.length = 43) (hdefault : defaultModel.utf8ByteSize ≤ 256)
    {models : List ModelInfo} :
    (readyFile backend.provider baseUrl token defaultModel models).sizeBy serde.quotedSize ≤
      4096 + itemsSizeBy serde.quotedSize (models.map modelValue) := by
  have hurl' : serde.quotedSize baseUrl ≤ 6 * 64 + 2 := by
    have hescaped := hserde.escaped baseUrl
    have hsize := Compact.escapedSize_le_stringSize baseUrl
    have hbytes := hurl.utf8ByteSize_le
    rw [stringSize] at hsize
    omega
  have htoken' : serde.quotedSize token ≤ 6 * 43 + 2 := by
    have hescaped := hserde.escaped token
    have hsize := escapedSize_le_length token
    rw [String.length_toList, htoken] at hsize
    omega
  have hdefault' : serde.quotedSize defaultModel ≤ 6 * 256 + 2 := by
    have hescaped := hserde.escaped defaultModel
    have hsize := Compact.escapedSize_le_stringSize defaultModel
    rw [stringSize] at hsize
    omega
  have hprovider : serde.quotedSize backend.provider ≤ 7 := by
    have hescaped := hserde.escaped backend.provider
    have hnames : escapedSize "codex" = 7 ∧ escapedSize "zai" = 5 := by decide
    rcases backend with _ | _
    · exact hescaped.trans (Nat.le_of_eq hnames.1)
    · exact hescaped.trans (by rw [Backend.provider, hnames.2]; omega)
  have hversion : (Value.ofNat READY_SCHEMA_VERSION).sizeBy serde.quotedSize ≤ 20 :=
    textSize_ofNat (by decide)
  have hkeys : (["schema_version", "provider", "base_url", "token", "default_model", "models"].map
      fun k => escapedSize k + 2).sum = 78 := by decide
  have hobject := sizeBy_obj_le hserde [("schema_version", .ofNat READY_SCHEMA_VERSION),
    ("provider", .string backend.provider), ("base_url", .string baseUrl),
    ("token", .string token), ("default_model", .string defaultModel),
    ("models", .array (models.map modelValue))]
  simp only [List.map_cons, List.map_nil, List.sum_cons, List.sum_nil, Value.sizeBy]
    at hobject hkeys
  rw [readyFile]
  omega

/-- The launcher does not refuse the readiness file of a catalog for its size. -/
theorem readyFile_withinLimit (hserde : serde.Measured)
    {fromSlice : Bytes → Except String UpstreamModelsResponse}
    (hdecoder : SpelledOut serde fromSlice) {bytes : Bytes}
    (hbytes : bytes.length ≤ MAX_MODELS_RESPONSE_BYTES) {models : List ModelInfo}
    (h : normalizeModels fromSlice bytes = .ok models) (backend : Backend)
    {baseUrl token defaultModel : String} (hurl : IsLoopbackUrl baseUrl)
    (htoken : token.length = 43) (hdefault : defaultModel.utf8ByteSize ≤ 256) :
    (serde.toVec (readyFile backend.provider baseUrl token defaultModel models)).length ≤
        MAX_GATEWAY_READY_BYTES ∧
      ∀ error, readReadyBytes
        (serde.toVec (readyFile backend.provider baseUrl token defaultModel models)) ≠
          .error error := by
  have hcatalog := normalizeModels_catalog h
  obtain ⟨upstream, hupstream, hsubperm⟩ := normalizeModels_texts h
  have hanswer := textsSize_le hserde hdecoder hupstream
  have htexts : textsSize serde (models.flatMap ModelInfo.texts) ≤
      textsSize serde upstream.texts := by
    obtain ⟨texts, hperm, hsublist⟩ := hsubperm
    have hsum : textsSize serde texts = textsSize serde (models.flatMap ModelInfo.texts) :=
      (hperm.map _).sum_eq
    rw [← hsum]
    exact (hsublist.map serde.quotedSize).sum_le_sum fun n _ => Nat.zero_le n
  have hrows := itemsSizeBy_modelValues hserde hcatalog.valid
  have hfile := @sizeBy_readyFile serde hserde backend baseUrl token defaultModel hurl htoken
    hdefault models
  have hprinted := hserde.sizeBy _
    (readyFile_plain backend.provider baseUrl token defaultModel models)
  have hcount := hcatalog.count
  -- 330 bytes for each of 4096 rows, and 4096 bytes around them, are less than the two megabytes
  -- between the limits.
  have hlimit : (serde.toVec (readyFile backend.provider baseUrl token defaultModel models)).length ≤
      MAX_GATEWAY_READY_BYTES := by
    rw [Serde.toVec, toUtf8_length]
    simp only [MAX_GATEWAY_READY_BYTES, MAX_MODELS_RESPONSE_BYTES, MAX_MODELS] at hbytes hcount ⊢
    omega
  refine ⟨hlimit, fun error => ?_⟩
  rw [readReadyBytes, if_neg (Nat.not_lt.mpr hlimit)]
  dsimp only
  rw [List.take_of_length_le (by omega), if_neg (Nat.not_lt.mpr hlimit)]
  split_ifs
  · exact fun h => by cases h
  · exact fun h => by cases h

/-- The decoder on the answer with a hidden model and a listed one. -/
def decodeListing (bytes : Bytes) : Except String UpstreamModelsResponse :=
  if bytes = listingBody then .ok listingAnswer else .error "expected value"

/-- The texts of that answer stand in it. -/
theorem decodeListing_spelledOut : SpelledOut Compact.serde decodeListing := by
  intro bytes upstream h
  unfold decodeListing at h
  split_ifs at h with hbytes
  cases h
  refine ⟨["a", "b", "B"], ["a", "b", "B"].map fun text => Compact.serde.toString (.string text),
    List.Perm.refl _, ?_, ?_⟩
  · have hread (text : String) :
        Compact.serde.fromStr (Compact.serde.toString (.string text)) = .ok (.string text) :=
      Compact.lawful.fromStr_toString _ (.string _ _)
    exact .cons (hread _) (.cons (hread _) (.cons (hread _) .nil))
  · rw [hbytes]
    decide +kernel

/-- The readiness file of that catalog is within the limit. -/
theorem readyFile_withinLimit_listing :
    ∃ models, normalizeModels decodeListing listingBody = .ok models ∧
      (Compact.serde.toVec (readyFile (Backend.provider .codex) ("http://[::1]:" ++ decimal 4096)
        "0123456789012345678901234567890123456789abc" "b" models)).length ≤
          MAX_GATEWAY_READY_BYTES ∧
      ∀ error, readReadyBytes (Compact.serde.toVec (readyFile (Backend.provider .codex)
        ("http://[::1]:" ++ decimal 4096) "0123456789012345678901234567890123456789abc" "b"
        models)) ≠ .error error := by
  obtain ⟨models, hmodels⟩ : ∃ models, normalizeModels decodeListing listingBody = .ok models :=
    exists_eq_ok (by decide +kernel)
  exact ⟨models, hmodels, readyFile_withinLimit Compact.measured decodeListing_spelledOut
    (by decide +kernel) hmodels .codex (.v6 4096) (by decide) (by decide)⟩

end MuseCodex.Launcher
