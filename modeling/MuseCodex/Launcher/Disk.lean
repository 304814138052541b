import MuseCodex.Effects
import MuseCodex.Json.Value

/-!
# The disk under the launcher

What the launcher looks at before it writes into its home (`create_private_dir`,
`ensure_owned_catalog_directory` and `reject_symlink_or_non_file` in `lib.rs`), and how it writes: a
directory is created for the user alone, a document is staged beside its file and then put in its
place. Any call of the file system may fail (`fails`), and what was done before it stays done.

A file is given by the document that it holds, so printing it and reading it back are left out.
`Path::exists` and `Path::is_dir`, which report no errors, are taken to see what is there, the user's
mask to leave the owner's permissions alone, and nobody else to write at the same paths in the
meantime.
-/

namespace MuseCodex.Launcher

open Effects Json

/-! ## Entries -/

/-- A path, by its components. -/
abbrev Path := List String

/-- A path in a message. -/
def Path.display (path : Path) : String := String.join (path.map ("/" ++ ·))

/-- What lies at a path. -/
inductive Entry where
  | missing
  /-- A regular file with its permissions, and its document if it is valid JSON. -/
  | file (mode : ℕ) (document : Option Value)
  /-- A directory with its permissions, and whether it is the user's. -/
  | directory (mode : ℕ) (owned : Bool)
  /-- A symbolic link, and whether it leads to a directory if it leads to anything. -/
  | link (toDirectory : Option Bool)
  /-- A device, a socket or a pipe. -/
  | special

/-- Whether there is something at the end of all links (`Path::exists`). -/
def Entry.exists : Entry → Bool
  | .missing | .link none => false
  | _ => true

/-- Whether there is a directory at the end of all links (`Path::is_dir`). -/
def Entry.isDir : Entry → Bool
  | .directory _ _ | .link (some true) => true
  | _ => false

/-- Whether it is a regular file, and no link. -/
def Entry.isFile : Entry → Bool
  | .file _ _ => true
  | _ => false

/-- The document of a regular file. -/
def Entry.document : Entry → Option Value
  | .file _ document => document
  | _ => none

/-- What lies at each path. -/
abbrev Disk := Path → Entry

/-- The calls of the file system. -/
inductive Call where
  | inspect (path : Path)
  | create (path : Path)
  | read (path : Path)
  | stage (directory : Path)
  | write (directory : Path)
  | install (path : Path)
  | protect (path : Path)

/-- A program on the disk. -/
abbrev OnDisk := EStateM String Disk

/-! ## Programs -/

section

variable (fails : Call → Option String)

/-- A call of the file system, and what is reported where it fails. -/
def attempt (call : Call) (report : String → String := id) : OnDisk PUnit :=
  match fails call with
  | none => pure ⟨⟩
  | some error => throw (report error)

/-- The four octal digits of permissions. -/
def octal (mode : ℕ) : String :=
  let digits := Nat.toDigits 8 mode
  String.ofList (List.replicate (4 - digits.length) '0' ++ digits)

/-- Refuses what is not a private directory of the user. -/
def validatePrivateDirectory (path : Path) : Entry → OnDisk PUnit
  | .directory mode owned =>
    if mode &&& 0o777 ≠ 0o700 then
      throw ("private directory " ++ path.display ++ " must already have mode 0700 (found " ++
        octal (mode &&& 0o777) ++ ")")
    else if !owned then
      throw ("private directory " ++ path.display ++ " is not owned by the current user")
    else pure ⟨⟩
  | _ => throw ("private path " ++ path.display ++ " is not a regular directory")

/-- A new directory for the user alone (`DirBuilder` with mode 0700). -/
def createDirectory (path : Path) : OnDisk PUnit := do
  attempt fails (.create path)
  let disk ← get
  if (disk path.dropLast).isDir then set (Function.update disk path (.directory 0o700 true))
  else throw "No such file or directory (os error 2)"

/-- Makes a private directory, unless there is one. -/
def createPrivateDir (path : Path) : OnDisk PUnit := do
  attempt fails (.inspect path)
  let disk ← get
  match disk path with
  | .missing =>
    if (disk path.dropLast).isDir then do
      createDirectory fails path
      validatePrivateDirectory path ((← get) path)
    else throw ("parent directory " ++ Path.display path.dropLast ++ " must already exist")
  | entry => validatePrivateDirectory path entry

/-- Makes a directory of the catalog, unless the user has one. -/
def ensureOwnedCatalogDirectory (path : Path) : OnDisk PUnit := do
  attempt fails (.inspect path)
  match (← get) path with
  | .missing => createDirectory fails path
  | .directory mode owned =>
    if !owned || mode &&& 0o022 ≠ 0 then
      throw ("model catalog directory " ++ path.display ++ " is not privately owned")
    else pure ⟨⟩
  | _ => throw ("model catalog path " ++ path.display ++ " is not a directory")

/-- Refuses what is not a plain file. -/
def rejectSymlinkOrNonFile (path : Path) : OnDisk PUnit := do
  attempt fails (.inspect path) fun _ => "failed to inspect " ++ path.display
  if ((← get) path).isFile then pure ⟨⟩
  else throw ("refusing to use non-regular file " ++ path.display)

/-- A document is staged in the directory of its file and then put in its place, for the user
alone. -/
def installDocument (what : String) (path : Path) (document : Value) : OnDisk PUnit := do
  attempt fails (.stage path.dropLast) fun _ =>
    "failed to stage " ++ what ++ " in " ++ Path.display path.dropLast
  attempt fails (.write path.dropLast)
  attempt fails (.install path) fun error =>
    "failed to install isolated " ++ what ++ " at " ++ path.display ++ ": " ++ error
  let disk ← get
  set (Function.update disk path (.file 0o600 (some document)))
  attempt fails (.protect path)

end

/-! ## What is accepted -/

/-- A directory that the launcher takes for its own. -/
def Entry.isPrivate : Entry → Bool
  | .directory mode owned => mode &&& 0o777 = 0o700 && owned
  | _ => false

/-- A directory that the launcher takes for its own where it keeps the catalog. -/
def Entry.isOwned : Entry → Bool
  | .directory mode owned => owned && mode &&& 0o022 = 0
  | _ => false

/-- What a new file may take the place of: another file, or nothing that exists. -/
def Entry.isReplaceable (entry : Entry) : Bool := !entry.exists || entry.isFile

/-- The entry of a new directory. -/
def newDirectory : Entry := .directory 0o700 true

/-- A directory is there and accepted, or there is room for it. -/
def Ensurable (accepted : Entry → Bool) (path : Path) (disk : Disk) : Prop :=
  accepted (disk path) = true ∨ disk path = .missing ∧ (disk path.dropLast).isDir = true

/-- What is there once a directory was seen to. -/
def Entry.orNew : Entry → Entry
  | .missing => newDirectory
  | entry => entry

/-- The disk once a directory was seen to. -/
def ensured (path : Path) (disk : Disk) : Disk := Function.update disk path (disk path).orNew

section

variable {fails : Call → Option String} {path : Path} {disk disk' : Disk}

/-- A program goes on after a call that does not fail. -/
theorem attempt_bind_eq_ok {α : Type} {call : Call} {report : String → String}
    {f : PUnit → OnDisk α} {a : α} :
    (attempt fails call report >>= f) disk = .ok a disk' ↔
      fails call = none ∧ f ⟨⟩ disk = .ok a disk' := by
  unfold attempt
  rw [bind_eq_ok]
  cases fails call with
  | none =>
    constructor
    · rintro ⟨_, _, h, hf⟩
      cases h
      exact ⟨rfl, hf⟩
    · exact fun h => ⟨⟨⟩, disk, rfl, h.2⟩
  | some error =>
    -- Where the call fails, nothing follows.
    refine iff_of_false ?_ fun h => Option.some_ne_none _ h.1
    rintro ⟨_, _, h, -⟩
    exact throw_ne_ok h

/-- Seeing to a directory changes no other entry. -/
theorem ensured_of_ne {path' : Path} (h : path' ≠ path) : ensured path disk path' = disk path' :=
  Function.update_of_ne h _ _

/-- A directory that is missing is new. -/
theorem ensured_missing (h : disk path = .missing) :
    ensured path disk = Function.update disk path newDirectory := by
  rw [ensured, h]
  rfl

/-- What is there stays. -/
theorem ensured_present (h : disk path ≠ .missing) : ensured path disk = disk := by
  refine Function.update_eq_self_iff.mpr ?_
  unfold Entry.orNew
  split
  · contradiction
  · rfl

/-- A directory that was seen to is there. -/
theorem isDir_ensured {accepted : Entry → Bool}
    (haccepted : ∀ entry, accepted entry = true → entry.isDir = true)
    (h : Ensurable accepted path disk) : (ensured path disk path).isDir = true := by
  rcases h with h | ⟨hmissing, -⟩
  · -- What is accepted is a directory, so it is not missing.
    have hdir := haccepted _ h
    rw [ensured_present fun hmissing => by rw [hmissing] at hdir; cases hdir]
    exact hdir
  · rw [ensured_missing hmissing, Function.update_self]
    rfl

/-- A call that does not fail changes nothing by itself. -/
theorem attempt_eq_ok {call : Call} {report : String → String} :
    attempt fails call report disk = .ok ⟨⟩ disk' ↔ fails call = none ∧ disk' = disk := by
  unfold attempt
  cases fails call with
  | none => rw [pure_eq_ok, eq_self_iff_true, eq_self_iff_true]
  | some error => exact iff_of_false throw_ne_ok fun h => Option.some_ne_none _ h.1

/-- What is accepted is private, and nothing changes. -/
theorem validatePrivateDirectory_eq_ok {entry : Entry} :
    validatePrivateDirectory path entry disk = .ok ⟨⟩ disk' ↔
      entry.isPrivate = true ∧ disk' = disk := by
  unfold validatePrivateDirectory Entry.isPrivate
  cases entry with
  | directory mode owned =>
    dsimp only
    rw [Bool.and_eq_true, decide_eq_true_eq]
    split_ifs with hmode howned
    · exact iff_of_false throw_ne_ok fun h => hmode h.1.1
    · exact iff_of_false throw_ne_ok fun h => by simp [h.1.2] at howned
    · rw [pure_eq_ok, eq_self_iff_true, true_and]
      simp_all
  | _ => exact iff_of_false throw_ne_ok fun h => Bool.false_ne_true h.1

/-- A directory is made below one that is there. -/
theorem createDirectory_eq_ok :
    createDirectory fails path disk = .ok ⟨⟩ disk' ↔ fails (.create path) = none ∧
      (disk path.dropLast).isDir = true ∧ disk' = Function.update disk path newDirectory := by
  unfold createDirectory
  rw [attempt_bind_eq_ok, get_bind_eq_ok]
  refine and_congr_right fun _ => ?_
  split_ifs with hparent
  · rw [set_eq_ok]
    exact (and_iff_right hparent).symm
  · exact iff_of_false throw_ne_ok fun h => hparent h.1

/-- A directory for the user alone: it is private, or it is new. -/
theorem createPrivateDir_eq_ok :
    createPrivateDir fails path disk = .ok ⟨⟩ disk' ↔ fails (.inspect path) = none ∧
      (disk path = .missing → fails (.create path) = none) ∧
      Ensurable Entry.isPrivate path disk ∧ disk' = ensured path disk := by
  unfold createPrivateDir Ensurable
  rw [attempt_bind_eq_ok, get_bind_eq_ok]
  refine and_congr_right fun _ => ?_
  by_cases hmissing : disk path = .missing
  · rw [ensured_missing hmissing, hmissing]
    dsimp only
    split_ifs with hparent
    · rw [bind_eq_ok]
      constructor
      · rintro ⟨_, made, hcreated, h⟩
        -- The new directory is looked at once more, and it is private.
        obtain ⟨hcall, -, rfl⟩ := createDirectory_eq_ok.mp hcreated
        rw [get_bind_eq_ok, validatePrivateDirectory_eq_ok] at h
        exact ⟨fun _ => hcall, .inr ⟨rfl, hparent⟩, h.2⟩
      · rintro ⟨hcall, -, rfl⟩
        refine ⟨⟨⟩, _, createDirectory_eq_ok.mpr ⟨hcall rfl, hparent, rfl⟩, ?_⟩
        rw [get_bind_eq_ok, validatePrivateDirectory_eq_ok, Function.update_self]
        exact ⟨by decide, rfl⟩
    · refine iff_of_false throw_ne_ok ?_
      -- A directory is not made where its parent is none.
      rintro ⟨-, hprivate | ⟨-, hdir⟩, -⟩
      · exact Bool.false_ne_true hprivate
      · exact hparent hdir
  · rw [ensured_present hmissing]
    cases hentry : disk path with
    | missing => exact absurd hentry hmissing
    | _ =>
      dsimp only
      rw [validatePrivateDirectory_eq_ok]
      simp

/-- A directory for the catalog: it is the user's, or it is new. -/
theorem ensureOwnedCatalogDirectory_eq_ok :
    ensureOwnedCatalogDirectory fails path disk = .ok ⟨⟩ disk' ↔ fails (.inspect path) = none ∧
      (disk path = .missing → fails (.create path) = none) ∧
      Ensurable Entry.isOwned path disk ∧ disk' = ensured path disk := by
  unfold ensureOwnedCatalogDirectory Ensurable
  rw [attempt_bind_eq_ok, get_bind_eq_ok]
  refine and_congr_right fun _ => ?_
  by_cases hmissing : disk path = .missing
  · rw [ensured_missing hmissing, hmissing]
    dsimp only
    rw [createDirectory_eq_ok]
    simp [Entry.isOwned]
  · rw [ensured_present hmissing]
    cases hentry : disk path with
    | missing => exact absurd hentry hmissing
    | directory mode owned =>
      dsimp only [Entry.isOwned]
      split_ifs with hshared
      · refine iff_of_false throw_ne_ok fun h => ?_
        simp_all
      · rw [pure_eq_ok]
        simp_all
    | _ => exact iff_of_false throw_ne_ok fun h => by simp [Entry.isOwned] at h

/-- What is accepted is a file, and nothing changes. -/
theorem rejectSymlinkOrNonFile_eq_ok :
    rejectSymlinkOrNonFile fails path disk = .ok ⟨⟩ disk' ↔
      fails (.inspect path) = none ∧ (disk path).isFile = true ∧ disk' = disk := by
  unfold rejectSymlinkOrNonFile
  rw [attempt_bind_eq_ok, get_bind_eq_ok]
  refine and_congr_right fun _ => ?_
  split_ifs with hfile
  · rw [pure_eq_ok, eq_self_iff_true, true_and, and_iff_right hfile]
  · exact iff_of_false throw_ne_ok fun h => hfile h.1

/-- What follows an accepted file runs on the same disk. -/
theorem rejectSymlinkOrNonFile_bind_eq_ok {α : Type} {f : PUnit → OnDisk α} {a : α} :
    (rejectSymlinkOrNonFile fails path >>= f) disk = .ok a disk' ↔
      fails (.inspect path) = none ∧ (disk path).isFile = true ∧ f ⟨⟩ disk = .ok a disk' := by
  rw [bind_eq_ok]
  constructor
  · rintro ⟨_, _, h, hf⟩
    obtain ⟨hcall, hfile, rfl⟩ := rejectSymlinkOrNonFile_eq_ok.mp h
    exact ⟨hcall, hfile, hf⟩
  · rintro ⟨hcall, hfile, hf⟩
    exact ⟨⟨⟩, disk, rejectSymlinkOrNonFile_eq_ok.mpr ⟨hcall, hfile, rfl⟩, hf⟩

/-- A document is installed when none of the calls fails, and then it is the file. -/
theorem installDocument_eq_ok {what : String} {document : Value} :
    installDocument fails what path document disk = .ok ⟨⟩ disk' ↔
      (∀ call ∈ [Call.stage path.dropLast, .write path.dropLast, .install path, .protect path],
        fails call = none) ∧
      disk' = Function.update disk path (.file 0o600 (some document)) := by
  unfold installDocument
  rw [attempt_bind_eq_ok, attempt_bind_eq_ok, attempt_bind_eq_ok, get_bind_eq_ok, bind_eq_ok]
  simp only [List.forall_mem_cons, List.not_mem_nil, false_implies, implies_true, and_true,
    and_assoc]
  refine and_congr_right fun _ => and_congr_right fun _ => and_congr_right fun _ => ?_
  constructor
  · rintro ⟨_, _, hset, h⟩
    obtain rfl := set_eq_ok.mp hset
    exact attempt_eq_ok.mp h
  · rintro ⟨hcall, rfl⟩
    exact ⟨⟨⟩, _, set_eq_ok.mpr rfl, attempt_eq_ok.mpr ⟨hcall, rfl⟩⟩

/-! ## What is left alone -/

variable {R : Disk → Disk → Prop}

/-- A call that the model does not look into changes nothing. -/
theorem attempt_keeps (hrefl : ∀ disk, R disk disk) (call : Call) (report : String → String) :
    Keeps R (attempt fails call report) disk := by
  unfold attempt
  cases fails call with
  | none => exact Keeps.pure hrefl _
  | some error => exact Keeps.throw hrefl _

/-- The check of a directory changes nothing. -/
theorem validatePrivateDirectory_keeps (hrefl : ∀ disk, R disk disk) (entry : Entry) :
    Keeps R (validatePrivateDirectory path entry) disk := by
  unfold validatePrivateDirectory
  split
  · split_ifs
    · exact Keeps.throw hrefl _
    · exact Keeps.throw hrefl _
    · exact Keeps.pure hrefl _
  · exact Keeps.throw hrefl _

variable (hrefl : ∀ disk, R disk disk)
  (htrans : ∀ {disk disk' disk''}, R disk disk' → R disk' disk'' → R disk disk'')

include hrefl htrans

/-- What is kept when a directory is created is kept by each of the programs that see to one. -/
theorem createDirectory_keeps (hnew : R disk (Function.update disk path newDirectory)) :
    Keeps R (createDirectory fails path) disk := by
  refine Keeps.bind htrans (attempt_keeps hrefl _ _) fun _ disk' h => ?_
  obtain ⟨-, rfl⟩ := attempt_eq_ok.mp h
  refine Keeps.get_bind ?_
  split_ifs
  · exact hnew
  · exact Keeps.throw hrefl _

/-- A private directory is made where there was nothing, or not at all. -/
theorem createPrivateDir_keeps
    (hnew : disk path = .missing → R disk (Function.update disk path newDirectory)) :
    Keeps R (createPrivateDir fails path) disk := by
  refine Keeps.bind htrans (attempt_keeps hrefl _ _) fun _ disk' h => ?_
  obtain ⟨-, rfl⟩ := attempt_eq_ok.mp h
  refine Keeps.get_bind ?_
  split
  · rename_i hmissing
    split_ifs
    · exact Keeps.bind htrans (createDirectory_keeps hrefl htrans (hnew hmissing)) fun _ _ _ =>
        Keeps.get_bind (validatePrivateDirectory_keeps hrefl _)
    · exact Keeps.throw hrefl _
  · exact validatePrivateDirectory_keeps hrefl _

/-- A directory of the catalog is made where there was nothing, or not at all. -/
theorem ensureOwnedCatalogDirectory_keeps
    (hnew : disk path = .missing → R disk (Function.update disk path newDirectory)) :
    Keeps R (ensureOwnedCatalogDirectory fails path) disk := by
  refine Keeps.bind htrans (attempt_keeps hrefl _ _) fun _ disk' h => ?_
  obtain ⟨-, rfl⟩ := attempt_eq_ok.mp h
  refine Keeps.get_bind ?_
  split
  · rename_i hmissing
    exact createDirectory_keeps hrefl htrans (hnew hmissing)
  · split_ifs
    · exact Keeps.throw hrefl _
    · exact Keeps.pure hrefl _
  · exact Keeps.throw hrefl _

/-- The check of a file changes nothing. -/
theorem rejectSymlinkOrNonFile_keeps : Keeps R (rejectSymlinkOrNonFile fails path) disk := by
  refine Keeps.bind htrans (attempt_keeps hrefl _ _) fun _ disk' h => Keeps.get_bind ?_
  split_ifs
  · exact Keeps.pure hrefl _
  · exact Keeps.throw hrefl _

/-- A document is installed whole, or not at all. -/
theorem installDocument_keeps {what : String} {document : Value}
    (hnew : R disk (Function.update disk path (.file 0o600 (some document)))) :
    Keeps R (installDocument fails what path document) disk := by
  refine Keeps.bind htrans (attempt_keeps hrefl _ _) fun _ disk' h => ?_
  obtain ⟨-, rfl⟩ := attempt_eq_ok.mp h
  refine Keeps.bind htrans (attempt_keeps hrefl _ _) fun _ disk' h => ?_
  obtain ⟨-, rfl⟩ := attempt_eq_ok.mp h
  refine Keeps.bind htrans (attempt_keeps hrefl _ _) fun _ disk' h => Keeps.get_bind ?_
  obtain ⟨-, rfl⟩ := attempt_eq_ok.mp h
  -- Only the installation changes the disk; protecting the file comes after it.
  exact Keeps.bind htrans hnew fun _ _ _ => attempt_keeps hrefl _ _

end

end MuseCodex.Launcher
