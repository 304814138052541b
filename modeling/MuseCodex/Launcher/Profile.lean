import MuseCodex.Launcher.Catalog
import MuseCodex.Launcher.Disk

/-!
# The profile of stock Muse

Before the launcher runs stock Muse, it writes two files into the profile of the selected provider
(`seed_stock_model_catalog` and `seed_stock_settings` in `lib.rs`): the catalog of the gateway, and
the settings, in which it pins the address of the gateway and leaves the preferences of the user.

It succeeds where the directories and the files that it finds are in order, and only there
(`profile_seeded`). Wherever it ends, on the way as well, it has only added directories that were
not there, and replaced what it may replace by what it means to write (`Change`): the settings keep
all that is not pinned.
-/

namespace MuseCodex.Launcher

open Effects Json

/-! ## The files -/

/-- The names of the directories of a provider, for its settings and for its data. -/
def homeNames : PublicProvider → String × String
  | .codex => ("stock-config", "stock-data")
  | .zai => ("stock-config-zai", "stock-data-zai")

/-- The directory of the settings of a provider. -/
def configHome (appHome : Path) (provider : PublicProvider) : Path :=
  appHome ++ [(homeNames provider).1]

/-- The directory of the data of a provider. -/
def dataHome (appHome : Path) (provider : PublicProvider) : Path :=
  appHome ++ [(homeNames provider).2]

/-- The name of the catalog that stock Muse reads. -/
def STOCK_MODEL_CATALOG_FILE : String := "6d657461__p746268.json"

/-- The file of the settings of a provider. -/
def settingsPath (configHome : Path) : Path := configHome ++ ["muse", "settings.json"]

/-- The file of the catalog of a provider. -/
def catalogPath (dataHome : Path) : Path :=
  dataHome ++ ["muse", "model-catalog", STOCK_MODEL_CATALOG_FILE]

/-! ## The settings -/

/-- The object at a key, or an empty one. -/
def objectAt (m : Map Value) (key : String) : Map Value :=
  ((m.get key).bind Value.asObject).getD []

/-- The settings with what a launch pins. -/
def pinSettings (baseUrl : String) (root : Map Value) : Map Value :=
  let root := root.insert "schema_version" (.ofNat 1)
  let root := root.insert "endpoint_transport"
    (.obj [("base_url", .string baseUrl), ("auth", .string "bearer")])
  let retry := objectAt root "provider_retry"
  let root := root.insert "provider_retry"
    (.object ((retry.erase "max_attempts").insert "max_retries" (.ofNat 0)))
  match root.get "telemetry" with
  | some (.object telemetry) =>
    root.insert "telemetry" (.object (Map.insert telemetry "enabled" (.bool false)))
  | _ => root.insert "telemetry" (.obj [("enabled", .bool false)])

/-- Whether there are no settings, or such as can be changed. -/
def Entry.isReadable (entry : Entry) : Bool :=
  !entry.exists || entry.document.any Value.isObject

/-- The members of the settings that are there. -/
def Entry.members (entry : Entry) : Map Value := (entry.document.bind Value.asObject).getD []

section

variable (fails : Call → Option String)

/-- The settings that are there, or empty ones. -/
def readSettings (path : Path) : OnDisk (Map Value) := do
  let disk ← get
  if (disk path).exists then do
    rejectSymlinkOrNonFile fails path
    attempt fails (.read path) fun _ => "failed to read isolated settings at " ++ path.display
    match (disk path).document with
    | none => throw ("isolated settings at " ++ path.display ++
        " are not valid JSON; refusing to overwrite them")
    | some value => match value.asObject with
      | none => throw ("isolated settings at " ++ path.display ++ " must contain a JSON object")
      | some root => pure root
  else pure []

/-- Writes the settings of a provider for a gateway. -/
def seedStockSettings (configHome : Path) (baseUrl : String) : OnDisk Path := do
  createPrivateDir fails configHome
  createPrivateDir fails (configHome ++ ["muse"])
  let root ← readSettings fails (settingsPath configHome)
  installDocument fails "settings" (settingsPath configHome) (.object (pinSettings baseUrl root))
  return settingsPath configHome

end

/-! ## A launch -/

section

variable (fails : Call → Option String)

/-- A catalog that is there may be replaced. -/
def rejectUnlessReplaceable (path : Path) : OnDisk PUnit := do
  if ((← get) path).exists then rejectSymlinkOrNonFile fails path else pure ⟨⟩

/-- Writes the catalog of a provider with the models of a gateway. -/
def seedStockModelCatalog (dataHome : Path) (models : List GatewayModel) (defaultModel : String) :
    OnDisk Path :=
  match validateGatewayModels models defaultModel with
  | .error error => throw error
  | .ok () => do
    ensureOwnedCatalogDirectory fails (dataHome ++ ["muse"])
    ensureOwnedCatalogDirectory fails (dataHome ++ ["muse", "model-catalog"])
    rejectUnlessReplaceable fails (catalogPath dataHome)
    installDocument fails "model catalog" (catalogPath dataHome) (modelCatalog models)
    return catalogPath dataHome

/-- What a launch writes into the profile of its provider before it runs stock Muse, on the disk that
it finds once the directories of its home have been made (`StockDirectories::create_private`). -/
def seedProfile (appHome : Path) (provider : PublicProvider) (ready : GatewayReady) :
    OnDisk Path := do
  let _ ← seedStockModelCatalog fails (dataHome appHome provider) ready.models ready.defaultModel
  seedStockSettings fails (configHome appHome provider) ready.baseUrl

end

/-! ## What a launch pins and keeps -/

/-- The keys of the settings that a launch pins, or some of whose members it pins. -/
def pinnedKeys : List String :=
  ["schema_version", "endpoint_transport", "provider_retry", "telemetry"]

/-- Settings as a launch leaves them. -/
structure Pinned (baseUrl : String) (root root' : Map Value) : Prop where
  schema : root'.get "schema_version" = some (.ofNat 1)
  transport : root'.get "endpoint_transport" =
    some (.obj [("base_url", .string baseUrl), ("auth", .string "bearer")])
  retry : ∃ retry : Map Value, root'.get "provider_retry" = some (.object retry) ∧
    retry.get "max_retries" = some (.ofNat 0) ∧ retry.get "max_attempts" = none ∧
    ∀ key ∉ ["max_retries", "max_attempts"],
      retry.get key = (objectAt root "provider_retry").get key
  telemetry : ∃ telemetry : Map Value, root'.get "telemetry" = some (.object telemetry) ∧
    telemetry.get "enabled" = some (.bool false) ∧
    ∀ key ≠ "enabled", telemetry.get key = (objectAt root "telemetry").get key
  others : ∀ key ∉ pinnedKeys, root'.get key = root.get key

section Settings

variable {m root : Map Value} {baseUrl : String}

/-- The retry policy that a launch pins. -/
def pinRetry (retry : Map Value) : Map Value :=
  (retry.erase "max_attempts").insert "max_retries" (.ofNat 0)

/-- The telemetry settings that a launch pins. -/
def pinTelemetry (telemetry : Map Value) : Map Value := telemetry.insert "enabled" (.bool false)

/-- A member that is set is read as the object that it is. -/
theorem objectAt_insert (m : Map Value) (key : String) (v : Value) (key' : String) :
    objectAt (m.insert key v) key' =
      if key' = key then v.asObject.getD [] else objectAt m key' := by
  unfold objectAt
  rw [Map.get_insert]
  split_ifs
  · rfl
  · rfl

/-- What a launch inserts. -/
theorem pinSettings_eq (baseUrl : String) (root : Map Value) :
    pinSettings baseUrl root =
      (((root.insert "schema_version" (.ofNat 1)).insert "endpoint_transport"
        (.obj [("base_url", .string baseUrl), ("auth", .string "bearer")])).insert "provider_retry"
        (.object (pinRetry (objectAt root "provider_retry")))).insert "telemetry"
        (.object (pinTelemetry (objectAt root "telemetry"))) := by
  -- What is pinned first does not hide the policy and the telemetry settings that were there.
  have hretry (v w : Value) : objectAt
      ((root.insert "schema_version" v).insert "endpoint_transport" w) "provider_retry" =
        objectAt root "provider_retry" := by
    rw [objectAt_insert, if_neg (by decide), objectAt_insert, if_neg (by decide)]
  have htelemetry (u v w : Value) : Map.get (((root.insert "schema_version" u).insert
      "endpoint_transport" v).insert "provider_retry" w) "telemetry" = root.get "telemetry" := by
    simp
  unfold pinSettings
  dsimp only
  rw [hretry, htelemetry]
  unfold objectAt
  cases hmember : root.get "telemetry" with
  | none => rfl
  | some member => cases member <;> rfl

/-- Reading a key of settings as a launch leaves them. -/
theorem get_pinSettings (baseUrl : String) (root : Map Value) (key : String) :
    (pinSettings baseUrl root).get key =
      if key = "telemetry" then some (.object (pinTelemetry (objectAt root "telemetry")))
      else if key = "provider_retry" then
        some (.object (pinRetry (objectAt root "provider_retry")))
      else if key = "endpoint_transport" then
        some (.obj [("base_url", .string baseUrl), ("auth", .string "bearer")])
      else if key = "schema_version" then some (.ofNat 1)
      else root.get key := by
  rw [pinSettings_eq, Map.get_insert, Map.get_insert, Map.get_insert, Map.get_insert]

/-- The retries are turned off, and no other member of the policy changes. -/
theorem get_pinRetry (retry : Map Value) (key : String) :
    (pinRetry retry).get key = if key = "max_retries" then some (.ofNat 0)
      else if key = "max_attempts" then none else retry.get key := by
  rw [pinRetry, Map.get_insert, Map.get_erase]

/-- The settings that are written are those of the address, over what there was. -/
theorem pinSettings_pinned (baseUrl : String) (root : Map Value) :
    Pinned baseUrl root (pinSettings baseUrl root) where
  schema := by simp [get_pinSettings]
  transport := by simp [get_pinSettings]
  retry := by
    refine ⟨pinRetry (objectAt root "provider_retry"), by simp [get_pinSettings],
      by simp [get_pinRetry], by simp [get_pinRetry], fun key hkey => ?_⟩
    simp only [List.mem_cons, List.not_mem_nil, or_false, not_or] at hkey
    rw [get_pinRetry, if_neg hkey.1, if_neg hkey.2]
  telemetry := by
    refine ⟨pinTelemetry (objectAt root "telemetry"), by simp [get_pinSettings],
      by simp [pinTelemetry], fun key hkey => ?_⟩
    rw [pinTelemetry, Map.get_insert, if_neg hkey]
  others key hkey := by
    simp only [pinnedKeys, List.mem_cons, List.not_mem_nil, or_false, not_or] at hkey
    obtain ⟨hschema, htransport, hretry, htelemetry⟩ := hkey
    rw [get_pinSettings, if_neg htelemetry, if_neg hretry, if_neg htransport, if_neg hschema]

/-- What two launches pin in turn, the second pins over the first. -/
theorem Pinned.trans {baseUrl' : String} {root' root'' : Map Value} (h : Pinned baseUrl root root')
    (h' : Pinned baseUrl' root' root'') : Pinned baseUrl' root root'' where
  schema := h'.schema
  transport := h'.transport
  retry := by
    obtain ⟨first, hfirst, -, -, hkept⟩ := h.retry
    obtain ⟨second, hsecond, hretries, hattempts, hkept'⟩ := h'.retry
    have hread : objectAt root' "provider_retry" = first := by
      rw [objectAt, hfirst]
      rfl
    refine ⟨second, hsecond, hretries, hattempts, fun key hkey => ?_⟩
    rw [hkept' key hkey, hread, hkept key hkey]
  telemetry := by
    obtain ⟨first, hfirst, -, hkept⟩ := h.telemetry
    obtain ⟨second, hsecond, henabled, hkept'⟩ := h'.telemetry
    have hread : objectAt root' "telemetry" = first := by
      rw [objectAt, hfirst]
      rfl
    refine ⟨second, hsecond, henabled, fun key hkey => ?_⟩
    rw [hkept' key hkey, hread, hkept key hkey]
  others key hkey := (h'.others key hkey).trans (h.others key hkey)

end Settings

/-! ## What a launch needs -/

section Launch

variable {fails : Call → Option String} {appHome : Path} {provider : PublicProvider}
  {ready : GatewayReady} {path : Path} {disk disk' : Disk}

/-- Reading the settings, where there are any that can be changed. -/
theorem readSettings_eq_ok {root : Map Value} :
    readSettings fails path disk = .ok root disk' ↔
      ((disk path).exists = true → fails (.inspect path) = none ∧ fails (.read path) = none) ∧
      (disk path).isReadable = true ∧ root = (disk path).members ∧ disk' = disk := by
  unfold readSettings Entry.isReadable Entry.members
  rw [get_bind_eq_ok]
  by_cases hexists : (disk path).exists = true
  · rw [if_pos hexists, rejectSymlinkOrNonFile_bind_eq_ok, attempt_bind_eq_ok, hexists]
    cases hentry : disk path with
    | file mode document =>
      cases document with
      | none =>
        refine iff_of_false (fun h => throw_ne_ok h.2.2.2) ?_
        rintro ⟨-, h, -⟩
        exact Bool.false_ne_true h
      | some value =>
        simp only [Entry.document, Entry.isFile, Option.any_some, Option.bind_some,
          Value.isObject, Bool.not_true, Bool.false_or, forall_const, true_and]
        cases value.asObject with
        | none =>
          refine iff_of_false (fun h => throw_ne_ok h.2.2) ?_
          rintro ⟨-, h, -⟩
          exact Bool.false_ne_true h
        | some root' =>
          dsimp only
          rw [pure_eq_ok]
          simp [and_assoc]
    | _ => simp [Entry.isFile, Entry.document]
  · rw [if_neg hexists, pure_eq_ok]
    rw [Bool.not_eq_true] at hexists
    -- A file always exists, so there is no document to lose.
    have hnone : (disk path).document = none := by
      cases hentry : disk path with
      | file mode document =>
        rw [hentry] at hexists
        cases hexists
      | _ => rfl
    rw [hexists, hnone]
    simp

/-- Reading the settings changes nothing. -/
theorem readSettings_keeps {R : Disk → Disk → Prop} (hrefl : ∀ disk, R disk disk)
    (htrans : ∀ {disk disk' disk''}, R disk disk' → R disk' disk'' → R disk disk'') :
    Keeps R (readSettings fails path) disk := by
  refine Keeps.get_bind ?_
  split_ifs
  · refine Keeps.bind htrans (rejectSymlinkOrNonFile_keeps hrefl htrans) fun _ _ _ => ?_
    refine Keeps.bind htrans (attempt_keeps hrefl _ _) fun _ _ _ => ?_
    split
    · exact Keeps.throw hrefl _
    · split
      · exact Keeps.throw hrefl _
      · exact Keeps.pure hrefl _
  · exact Keeps.pure hrefl _

/-- What is accepted can be replaced, and nothing changes. -/
theorem rejectUnlessReplaceable_eq_ok :
    rejectUnlessReplaceable fails path disk = .ok ⟨⟩ disk' ↔
      ((disk path).exists = true → fails (.inspect path) = none) ∧
      (disk path).isReplaceable = true ∧ disk' = disk := by
  unfold rejectUnlessReplaceable Entry.isReplaceable
  rw [get_bind_eq_ok]
  split_ifs with hexists
  · rw [rejectSymlinkOrNonFile_eq_ok, hexists]
    simp
  · rw [pure_eq_ok]
    simp_all

/-- The directories that a launch sees to. -/
def directories (appHome : Path) (provider : PublicProvider) : List Path :=
  [dataHome appHome provider ++ ["muse"], dataHome appHome provider ++ ["muse", "model-catalog"],
    configHome appHome provider, configHome appHome provider ++ ["muse"]]

/-- What may have become of an entry, wherever a launch ends. -/
inductive Change (appHome : Path) (provider : PublicProvider) (ready : GatewayReady) (path : Path) :
    Entry → Entry → Prop where
  | kept (entry : Entry) : Change appHome provider ready path entry entry
  | created (hpath : path ∈ directories appHome provider) :
    Change appHome provider ready path .missing newDirectory
  | catalog {entry : Entry} (hpath : path = catalogPath (dataHome appHome provider))
    (hentry : entry.isReplaceable = true) :
    Change appHome provider ready path entry (.file 0o600 (some (modelCatalog ready.models)))
  | settings {entry : Entry} {root : Map Value}
    (hpath : path = settingsPath (configHome appHome provider)) (hentry : entry.isReadable = true)
    (hroot : Pinned ready.baseUrl entry.members root) :
    Change appHome provider ready path entry (.file 0o600 (some (.object root)))

/-- Paths of the home differ where they do inside it. -/
theorem append_ne {inside inside' : Path} (h : inside ≠ inside') :
    appHome ++ inside ≠ appHome ++ inside' := fun hsame => h (List.append_cancel_left hsame)

/-- The settings are no catalog. -/
theorem settingsPath_ne_catalogPath (appHome : Path) (provider : PublicProvider) :
    settingsPath (configHome appHome provider) ≠ catalogPath (dataHome appHome provider) := by
  unfold settingsPath catalogPath configHome dataHome
  rw [List.append_assoc, List.append_assoc]
  cases provider with
  | codex => exact append_ne (by decide)
  | zai => exact append_ne (by decide)

/-- Two changes in turn are one. -/
theorem Change.trans {entry entry' entry'' : Entry}
    (h : Change appHome provider ready path entry entry')
    (h' : Change appHome provider ready path entry' entry'') :
    Change appHome provider ready path entry entry'' := by
  cases h' with
  | kept => exact h
  | created hpath =>
    cases h with
    | kept => exact .created hpath
  | catalog hpath hentry =>
    cases h with
    | kept => exact .catalog hpath hentry
    | created => cases hentry
    | catalog _ hentry' => exact .catalog hpath hentry'
    | settings hpath' => exact absurd (hpath'.symm.trans hpath) (settingsPath_ne_catalogPath _ _)
  | settings hpath hentry hroot =>
    cases h with
    | kept => exact .settings hpath hentry hroot
    | created => cases hentry
    | catalog hpath' => exact absurd (hpath.symm.trans hpath') (settingsPath_ne_catalogPath _ _)
    | settings _ hentry' hroot' => exact .settings hpath hentry' (hroot'.trans hroot)

/-- The disks before and after a launch, or a part of one. -/
def Changes (appHome : Path) (provider : PublicProvider) (ready : GatewayReady)
    (disk disk' : Disk) : Prop :=
  ∀ path, Change appHome provider ready path (disk path) (disk' path)

/-- Doing nothing is such a change. -/
theorem Changes.refl (disk : Disk) : Changes appHome provider ready disk disk :=
  fun path => .kept (disk path)

/-- Two such changes are one. -/
theorem Changes.trans {disk'' : Disk} (h : Changes appHome provider ready disk disk')
    (h' : Changes appHome provider ready disk' disk'') : Changes appHome provider ready disk disk'' :=
  fun path => (h path).trans (h' path)

/-- One entry is changed. -/
theorem Changes.update {entry : Entry} (h : Change appHome provider ready path (disk path) entry) :
    Changes appHome provider ready disk (Function.update disk path entry) := by
  intro path'
  by_cases hsame : path' = path
  · subst hsame
    rwa [Function.update_self]
  · rw [Function.update_of_ne hsame]
    exact .kept _

/-- A directory is created where there was nothing. -/
theorem Changes.created (hpath : path ∈ directories appHome provider)
    (hmissing : disk path = .missing) :
    Changes appHome provider ready disk (Function.update disk path newDirectory) := by
  refine Changes.update ?_
  rw [hmissing]
  exact .created hpath

/-- The catalog is seeded by such changes, wherever it ends. -/
theorem seedStockModelCatalog_changes (defaultModel : String) :
    Keeps (Changes appHome provider ready)
      (seedStockModelCatalog fails (dataHome appHome provider) ready.models defaultModel) disk := by
  unfold seedStockModelCatalog
  split
  · exact Keeps.throw Changes.refl _
  refine Keeps.bind Changes.trans (ensureOwnedCatalogDirectory_keeps Changes.refl Changes.trans
    (Changes.created (by simp [directories]))) fun _ disk₁ _ => ?_
  refine Keeps.bind Changes.trans (ensureOwnedCatalogDirectory_keeps Changes.refl Changes.trans
    (Changes.created (by simp [directories]))) fun _ disk₂ _ => ?_
  have hcheck : Keeps (Changes appHome provider ready)
      (rejectUnlessReplaceable fails (catalogPath (dataHome appHome provider))) disk₂ := by
    refine Keeps.get_bind ?_
    split_ifs
    · exact rejectSymlinkOrNonFile_keeps Changes.refl Changes.trans
    · exact Keeps.pure Changes.refl _
  refine Keeps.bind Changes.trans hcheck fun _ disk₃ hreplaceable => ?_
  obtain ⟨-, hentry, rfl⟩ := rejectUnlessReplaceable_eq_ok.mp hreplaceable
  exact Keeps.bind Changes.trans (installDocument_keeps Changes.refl Changes.trans
    (Changes.update (.catalog rfl hentry))) fun _ _ _ => Keeps.pure Changes.refl _

/-- The settings are seeded by such changes, wherever it ends. -/
theorem seedStockSettings_changes :
    Keeps (Changes appHome provider ready)
      (seedStockSettings fails (configHome appHome provider) ready.baseUrl) disk := by
  refine Keeps.bind Changes.trans (createPrivateDir_keeps Changes.refl Changes.trans
    (Changes.created (by simp [directories]))) fun _ disk₁ _ => ?_
  refine Keeps.bind Changes.trans (createPrivateDir_keeps Changes.refl Changes.trans
    (Changes.created (by simp [directories]))) fun _ disk₂ _ => ?_
  refine Keeps.bind Changes.trans (readSettings_keeps Changes.refl Changes.trans)
    fun root disk₃ hread => ?_
  obtain ⟨-, hentry, rfl, rfl⟩ := readSettings_eq_ok.mp hread
  exact Keeps.bind Changes.trans (installDocument_keeps Changes.refl Changes.trans
    (Changes.update (.settings rfl hentry (pinSettings_pinned _ _)))) fun _ _ _ =>
      Keeps.pure Changes.refl _

/-! ## What a launch does -/

/-- A private directory is a directory. -/
theorem isDir_of_isPrivate (entry : Entry) (h : entry.isPrivate = true) : entry.isDir = true := by
  cases entry with
  | directory => rfl
  | _ => cases h

/-- A directory of the user is a directory. -/
theorem isDir_of_isOwned (entry : Entry) (h : entry.isOwned = true) : entry.isDir = true := by
  cases entry with
  | directory => rfl
  | _ => cases h

/-- A directory inside another that was seen to needs no more than not to be in the way. -/
theorem ensurable_inside {accepted : Entry → Bool}
    (haccepted : ∀ entry, accepted entry = true → entry.isDir = true) {home inside : Path}
    (hinside : inside.dropLast = home) (hne : inside ≠ home) (hhome : Ensurable accepted home disk) :
    Ensurable accepted inside (ensured home disk) ↔
      accepted (disk inside) = true ∨ disk inside = .missing := by
  unfold Ensurable
  rw [ensured_of_ne hne, hinside, isDir_ensured haccepted hhome]
  simp

variable {home : Path}

/-- The disk with the catalog. -/
def withCatalog (home : Path) (models : List GatewayModel) (disk : Disk) : Disk :=
  Function.update (ensured (home ++ ["muse", "model-catalog"]) (ensured (home ++ ["muse"]) disk))
    (catalogPath home) (.file 0o600 (some (modelCatalog models)))

/-- The disk with the settings. -/
def withSettings (home : Path) (baseUrl : String) (disk : Disk) : Disk :=
  Function.update (ensured (home ++ ["muse"]) (ensured home disk)) (settingsPath home)
    (.file 0o600 (some (.object (pinSettings baseUrl (disk (settingsPath home)).members))))

/-- What the catalog needs. -/
structure CatalogFits (home : Path) (disk : Disk) : Prop where
  data : Ensurable Entry.isOwned (home ++ ["muse"]) disk
  directory : (disk (home ++ ["muse", "model-catalog"])).isOwned = true ∨
    disk (home ++ ["muse", "model-catalog"]) = .missing
  place : (disk (catalogPath home)).isReplaceable = true

/-- What the settings need. -/
structure SettingsFit (home : Path) (disk : Disk) : Prop where
  config : Ensurable Entry.isPrivate home disk
  directory : (disk (home ++ ["muse"])).isPrivate = true ∨ disk (home ++ ["muse"]) = .missing
  place : (disk (settingsPath home)).isReadable = true

/-- The directory of the catalog can be had below that of the data. -/
theorem catalogDirectory_iff (h : Ensurable Entry.isOwned (home ++ ["muse"]) disk) :
    Ensurable Entry.isOwned (home ++ ["muse", "model-catalog"]) (ensured (home ++ ["muse"]) disk) ↔
      (disk (home ++ ["muse", "model-catalog"])).isOwned = true ∨
        disk (home ++ ["muse", "model-catalog"]) = .missing := by
  have hparent : (home ++ ["muse", "model-catalog"]).dropLast = home ++ ["muse"] := by
    rw [List.append_cons, List.dropLast_concat]
  exact ensurable_inside isDir_of_isOwned hparent (append_ne (by decide)) h

/-- The directory of the settings can be had below that of the configuration. -/
theorem museConfig_iff (h : Ensurable Entry.isPrivate home disk) :
    Ensurable Entry.isPrivate (home ++ ["muse"]) (ensured home disk) ↔
      (disk (home ++ ["muse"])).isPrivate = true ∨ disk (home ++ ["muse"]) = .missing :=
  ensurable_inside isDir_of_isPrivate List.dropLast_concat (by simp) h

/-- Seeing to the directories of the catalog leaves its place alone. -/
theorem catalogPath_ensured : ensured (home ++ ["muse", "model-catalog"])
    (ensured (home ++ ["muse"]) disk) (catalogPath home) = disk (catalogPath home) := by
  unfold catalogPath
  rw [ensured_of_ne (append_ne (by decide)), ensured_of_ne (append_ne (by decide))]

/-- Seeing to the directories of the settings leaves their place alone. -/
theorem settingsPath_ensured : ensured (home ++ ["muse"]) (ensured home disk) (settingsPath home) =
    disk (settingsPath home) := by
  unfold settingsPath
  rw [ensured_of_ne (append_ne (by decide)), ensured_of_ne (by simp)]

/-- The catalog is written only where it fits. -/
theorem seedStockModelCatalog_of_ok {models : List GatewayModel} {defaultModel : String}
    (h : seedStockModelCatalog fails home models defaultModel disk = .ok path disk') :
    CatalogFits home disk ∧ disk' = withCatalog home models disk := by
  unfold seedStockModelCatalog at h
  cases hmodels : validateGatewayModels models defaultModel with
  | error error =>
    rw [hmodels] at h
    exact absurd h throw_ne_ok
  | ok _ =>
    rw [hmodels] at h
    obtain ⟨_, _, hfirst, h⟩ := bind_eq_ok.mp h
    obtain ⟨-, -, hdata, rfl⟩ := ensureOwnedCatalogDirectory_eq_ok.mp hfirst
    obtain ⟨_, _, hsecond, h⟩ := bind_eq_ok.mp h
    obtain ⟨-, -, hdirectory, rfl⟩ := ensureOwnedCatalogDirectory_eq_ok.mp hsecond
    obtain ⟨_, _, hchecked, h⟩ := bind_eq_ok.mp h
    obtain ⟨-, hplace, rfl⟩ := rejectUnlessReplaceable_eq_ok.mp hchecked
    obtain ⟨_, _, hinstalled, h⟩ := bind_eq_ok.mp h
    obtain ⟨-, rfl⟩ := installDocument_eq_ok.mp hinstalled
    rw [catalogPath_ensured] at hplace
    exact ⟨⟨hdata, (catalogDirectory_iff hdata).mp hdirectory, hplace⟩, (pure_eq_ok.mp h).2⟩

/-- The catalog is written where it fits, unless a call fails. -/
theorem seedStockModelCatalog_ok {models : List GatewayModel} {defaultModel : String}
    (hmodels : validateGatewayModels models defaultModel = .ok ())
    (hcalls : ∀ call, fails call = none) (h : CatalogFits home disk) :
    seedStockModelCatalog fails home models defaultModel disk =
      .ok (catalogPath home) (withCatalog home models disk) := by
  unfold seedStockModelCatalog
  rw [hmodels]
  refine bind_eq_ok.mpr ⟨⟨⟩, _, ensureOwnedCatalogDirectory_eq_ok.mpr
    ⟨hcalls _, fun _ => hcalls _, h.data, rfl⟩, ?_⟩
  refine bind_eq_ok.mpr ⟨⟨⟩, _, ensureOwnedCatalogDirectory_eq_ok.mpr
    ⟨hcalls _, fun _ => hcalls _, (catalogDirectory_iff h.data).mpr h.directory, rfl⟩, ?_⟩
  refine bind_eq_ok.mpr ⟨⟨⟩, _, rejectUnlessReplaceable_eq_ok.mpr
    ⟨fun _ => hcalls _, by rw [catalogPath_ensured]; exact h.place, rfl⟩, ?_⟩
  exact bind_eq_ok.mpr ⟨⟨⟩, _, installDocument_eq_ok.mpr ⟨fun call _ => hcalls call, rfl⟩, rfl⟩

/-- The settings are written only where they fit. -/
theorem seedStockSettings_of_ok {baseUrl : String}
    (h : seedStockSettings fails home baseUrl disk = .ok path disk') :
    SettingsFit home disk ∧ path = settingsPath home ∧ disk' = withSettings home baseUrl disk := by
  obtain ⟨_, _, hfirst, h⟩ := bind_eq_ok.mp h
  obtain ⟨-, -, hconfig, rfl⟩ := createPrivateDir_eq_ok.mp hfirst
  obtain ⟨_, _, hsecond, h⟩ := bind_eq_ok.mp h
  obtain ⟨-, -, hdirectory, rfl⟩ := createPrivateDir_eq_ok.mp hsecond
  obtain ⟨_, _, hread, h⟩ := bind_eq_ok.mp h
  obtain ⟨-, hplace, rfl, rfl⟩ := readSettings_eq_ok.mp hread
  obtain ⟨_, _, hinstalled, h⟩ := bind_eq_ok.mp h
  obtain ⟨-, rfl⟩ := installDocument_eq_ok.mp hinstalled
  rw [settingsPath_ensured] at hplace h
  exact ⟨⟨hconfig, (museConfig_iff hconfig).mp hdirectory, hplace⟩, pure_eq_ok.mp h⟩

/-- The settings are written where they fit, unless a call fails. -/
theorem seedStockSettings_ok {baseUrl : String} (hcalls : ∀ call, fails call = none)
    (h : SettingsFit home disk) :
    seedStockSettings fails home baseUrl disk =
      .ok (settingsPath home) (withSettings home baseUrl disk) := by
  refine bind_eq_ok.mpr ⟨⟨⟩, _, createPrivateDir_eq_ok.mpr
    ⟨hcalls _, fun _ => hcalls _, h.config, rfl⟩, ?_⟩
  refine bind_eq_ok.mpr ⟨⟨⟩, _, createPrivateDir_eq_ok.mpr
    ⟨hcalls _, fun _ => hcalls _, (museConfig_iff h.config).mpr h.directory, rfl⟩, ?_⟩
  -- The settings are read as they were before the directories were seen to.
  refine bind_eq_ok.mpr ⟨(disk (settingsPath home)).members, _, readSettings_eq_ok.mpr
    ⟨fun _ => ⟨hcalls _, hcalls _⟩, ?_, ?_, rfl⟩, ?_⟩
  · rw [settingsPath_ensured]
    exact h.place
  · rw [settingsPath_ensured]
  · exact bind_eq_ok.mpr ⟨⟨⟩, _, installDocument_eq_ok.mpr ⟨fun call _ => hcalls call, rfl⟩, rfl⟩

/-- What a launch needs of the disk that it finds. -/
structure Seedable (appHome : Path) (provider : PublicProvider) (disk : Disk) : Prop where
  catalog : CatalogFits (dataHome appHome provider) disk
  settings : SettingsFit (configHome appHome provider) disk

/-- Paths of the home differ where they enter different directories of it. -/
theorem enter_ne {inside rest : Path} {name : String} (h : inside.head? ≠ some name) :
    appHome ++ inside ≠ appHome ++ [name] ++ rest := by
  rw [List.append_assoc]
  refine append_ne ?_
  rintro rfl
  exact h rfl

/-- The catalog is written among the data. -/
theorem withCatalog_of_ne {models : List GatewayModel} {inside : Path}
    (h : inside.head? ≠ some (homeNames provider).2) :
    withCatalog (dataHome appHome provider) models disk (appHome ++ inside) =
      disk (appHome ++ inside) := by
  unfold withCatalog catalogPath dataHome
  rw [Function.update_of_ne (enter_ne h), ensured_of_ne (enter_ne h), ensured_of_ne (enter_ne h)]

/-- The settings are not written among the data. -/
theorem withSettings_of_ne {baseUrl : String} {inside : Path}
    (h : inside.head? ≠ some (homeNames provider).1) :
    withSettings (configHome appHome provider) baseUrl disk (appHome ++ inside) =
      disk (appHome ++ inside) := by
  have hhome : appHome ++ inside ≠ appHome ++ [(homeNames provider).1] := by
    have hne := @enter_ne appHome inside [] _ h
    rwa [List.append_nil] at hne
  unfold withSettings settingsPath configHome
  rw [Function.update_of_ne (enter_ne h), ensured_of_ne (enter_ne h), ensured_of_ne hhome]

/-- A provider keeps its settings and its data apart. -/
theorem homeNames_ne (provider : PublicProvider) :
    (homeNames provider).1 ≠ (homeNames provider).2 := by
  cases provider <;> decide

/-- The settings find what they would find without the catalog. -/
theorem settingsFit_withCatalog {models : List GatewayModel} :
    SettingsFit (configHome appHome provider) (withCatalog (dataHome appHome provider) models disk) ↔
      SettingsFit (configHome appHome provider) disk := by
  -- The catalog is in another directory of the home.
  have hsame (rest : Path) : withCatalog (dataHome appHome provider) models disk
      (configHome appHome provider ++ rest) = disk (configHome appHome provider ++ rest) := by
    unfold configHome
    rw [List.append_assoc]
    exact withCatalog_of_ne (by simpa using homeNames_ne provider)
  have hhome : withCatalog (dataHome appHome provider) models disk (configHome appHome provider) =
      disk (configHome appHome provider) := by simpa using hsame []
  -- The home itself is not written.
  have hparent : withCatalog (dataHome appHome provider) models disk
      (configHome appHome provider).dropLast = disk (configHome appHome provider).dropLast := by
    unfold configHome
    rw [List.dropLast_concat]
    have hroot := @withCatalog_of_ne appHome provider disk models [] (by simp)
    rwa [List.append_nil] at hroot
  constructor
  · rintro ⟨hconfig, hdirectory, hplace⟩
    rw [hsame] at hdirectory
    rw [settingsPath, hsame] at hplace
    unfold Ensurable at hconfig
    rw [hhome, hparent] at hconfig
    exact ⟨hconfig, hdirectory, hplace⟩
  · rintro ⟨hconfig, hdirectory, hplace⟩
    refine ⟨?_, by rwa [hsame], by rwa [settingsPath, hsame]⟩
    unfold Ensurable
    rwa [hhome, hparent]

/-- A launch with a gateway that was accepted writes the profile of the provider where the
directories and the files that it finds are in order, unless a call of the file system fails; and
where it has written it, they were. Then the catalog is that of the gateway, and the settings name
the address of the gateway, their retries and telemetry are off, and every other member of them, of
the retry policy, and of the telemetry settings is kept. Wherever a launch ends, nothing has become
of the disk but directories for the user alone where there was nothing, and the two files where they
may be replaced. -/
theorem profile_seeded (fails : Call → Option String) (appHome : Path)
    (hready : ready.validate provider = .ok ready) (disk : Disk) :
    ((∀ call, fails call = none) → Seedable appHome provider disk →
      ∃ disk', seedProfile fails appHome provider ready disk =
        .ok (settingsPath (configHome appHome provider)) disk') ∧
    (∀ path disk', seedProfile fails appHome provider ready disk = .ok path disk' →
      Seedable appHome provider disk ∧ path = settingsPath (configHome appHome provider) ∧
      disk' (catalogPath (dataHome appHome provider)) =
        .file 0o600 (some (modelCatalog ready.models)) ∧
      ∃ root, disk' path = .file 0o600 (some (.object root)) ∧
        Pinned ready.baseUrl (disk path).members root) ∧
    Changes appHome provider ready disk
      (after (seedProfile fails appHome provider ready) disk) := by
  refine ⟨fun hcalls h => ?_, fun path disk' h => ?_, ?_⟩
  · have hcatalog := seedStockModelCatalog_ok (GatewayReady.catalog hready) hcalls h.catalog
    exact ⟨_, bind_eq_ok.mpr ⟨_, _, hcatalog,
      seedStockSettings_ok hcalls (settingsFit_withCatalog.mpr h.settings)⟩⟩
  · obtain ⟨_, _, hcatalog, hsettings⟩ := bind_eq_ok.mp h
    obtain ⟨hcatalogFits, rfl⟩ := seedStockModelCatalog_of_ok hcatalog
    obtain ⟨hsettingsFit, rfl, rfl⟩ := seedStockSettings_of_ok hsettings
    refine ⟨⟨hcatalogFits, settingsFit_withCatalog.mp hsettingsFit⟩, rfl, ?_, ?_⟩
    · -- The settings are written after the catalog, and elsewhere.
      have hkept := @withSettings_of_ne appHome provider
        (withCatalog (dataHome appHome provider) ready.models disk) ready.baseUrl
        ((homeNames provider).2 :: ["muse", "model-catalog", STOCK_MODEL_CATALOG_FILE])
        (by simpa using (homeNames_ne provider).symm)
      rw [List.append_cons] at hkept
      exact hkept.trans (Function.update_self _ _ _)
    · -- The settings that are found are those of the disk before the catalog was written.
      have hfound := @withCatalog_of_ne appHome provider disk ready.models
        ((homeNames provider).1 :: ["muse", "settings.json"]) (by simpa using homeNames_ne provider)
      rw [List.append_cons] at hfound
      refine ⟨_, Function.update_self _ _ _, ?_⟩
      rw [settingsPath, configHome, hfound]
      exact pinSettings_pinned _ _
  · exact Keeps.bind (R := Changes appHome provider ready) Changes.trans
      (seedStockModelCatalog_changes _) fun _ _ _ => seedStockSettings_changes

end Launch

/-- A home with settings of the user and the torn catalog of an earlier launch. -/
def seededDisk (path : Path) : Entry :=
  if path = ["home", "muse-codex", "stock-config-zai", "muse", "settings.json"] then
    .file 0o644 (some (.obj [("theme", .string "dark"),
      ("telemetry", .obj [("detail", .string "keep"), ("enabled", .bool true)])]))
  else if path =
      ["home", "muse-codex", "stock-data-zai", "muse", "model-catalog", STOCK_MODEL_CATALOG_FILE] then
    .file 0o600 none
  else if path ∈ [["home", "muse-codex", "stock-data-zai"],
      ["home", "muse-codex", "stock-data-zai", "muse"],
      ["home", "muse-codex", "stock-data-zai", "muse", "model-catalog"],
      ["home", "muse-codex", "stock-config-zai"],
      ["home", "muse-codex", "stock-config-zai", "muse"]] then .directory 0o700 true
  else .missing

/-- The theme of the user is kept. -/
theorem profile_seeded_again :
    ∃ disk' : Disk, ∃ root : Map Value,
      seedProfile (fun _ => none) ["home", "muse-codex"] .zai stalledReady seededDisk =
        .ok ["home", "muse-codex", "stock-config-zai", "muse", "settings.json"] disk' ∧
      disk' ["home", "muse-codex", "stock-config-zai", "muse", "settings.json"] =
        .file 0o600 (some (.object root)) ∧
      root.get "theme" = some (.string "dark") := by
  have hseedable : Seedable ["home", "muse-codex"] .zai seededDisk :=
    ⟨⟨.inl (by decide), .inl (by decide), by decide⟩,
      ⟨.inl (by decide), .inl (by decide), by decide⟩⟩
  obtain ⟨hwrites, hwritten, -⟩ :=
    profile_seeded (fun _ => none) ["home", "muse-codex"] stalledReady_valid seededDisk
  obtain ⟨disk', hrun⟩ := hwrites (fun _ => rfl) hseedable
  obtain ⟨-, -, -, root, hroot, hpinned⟩ := hwritten _ _ hrun
  refine ⟨disk', root, hrun, hroot, ?_⟩
  rw [hpinned.others "theme" (by decide)]
  decide

end MuseCodex.Launcher
