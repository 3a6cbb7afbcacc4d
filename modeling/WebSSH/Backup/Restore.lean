import WebSSH.Backup.Archive
import WebSSH.Lib.Faults

/-!
# Creating and restoring backups

`create_backup` and `restore_backup` of `backup_manager.py` on directory trees. The root of a tree
is DATA_DIR, its paths are relative to it. File modes are left out, and so are the checks on the
place of the archive and of the staging directory, which read nothing of DATA_DIR.

The file operations of `_restore_staged_files` are the only ones that change DATA_DIR. Each has a
`Point`, where it may raise before or after it has taken effect.
-/

namespace WebSSH.Backup
open Lib Python Json

set_option autoImplicit false

abbrev DataDir := FileTree Bytes

/-! ## Backup -/

/-- `_copy_regular_file` of a file of the walk, with its entry of the manifest. -/
def stageFile (codec : Codec) (dataDir : DataDir) (source : Path) :
    Except BackupError (BackupFile × Bytes) := do
  let relative := asPosix source
  let _ ← safeRelativePath relative
  match dataDir.get? source with
  | some (.file content) => pure (⟨relative, codec.sha256 content, content.length⟩, content)
  | some (.link _) => throw (.integrity "backup source contains a symbolic link")
  | _ => throw (.integrity "backup source contains a non-regular file")

/-- The files of one directory of the walk. -/
def stageDirectory (codec : Codec) (dataDir : DataDir) (excluded : List String) (current : Path) :
    Except BackupError (List (BackupFile × Bytes)) := do
  raiseIf (((dataDir.children current).filter dataDir.isDir).any dataDir.isLink)
    (.integrity "backup source contains a symbolic link")
  let fileNames := (dataDir.children current).filter fun path =>
    !dataDir.isDir path && !(current = [] && path.any (· ∈ backupExcludedTopLevelDirectories)) &&
      !(asPosix path ∈ excluded)
  fileNames.mapM (stageFile codec dataDir)

/-- `_stage_source`; returns the manifest and the staged contents in its order. -/
def stageSource (codec : Codec) (now : String) (dataDir : DataDir) (excluded : List String) :
    Except BackupError (BackupManifest × List (BackupFile × Bytes)) := do
  let visited := dataDir.visited (· ∉ backupExcludedTopLevelDirectories)
  let files ← visited.mapM (stageDirectory codec dataDir excluded)
  let staged := files.flatten.insertionSort (Python.strLe ·.1.path ·.1.path)
  pure (⟨formatVersion, staged.map Prod.fst, currentDataSchemaVersion, some now, some producer⟩,
    staged)

/-- A regular member with these contents. -/
def zipInfo (codec : Codec) (filename : String) (content : Bytes) : ZipInfo :=
  ⟨filename, content.length, codec.deflatedSize content, 0o100600, false, some content⟩

def writeArchive (codec : Codec) (manifest : BackupManifest)
    (staged : List (BackupFile × Bytes)) : Archive :=
  zipInfo codec manifestName (manifestPayload codec manifest) ::
    staged.map fun (item, content) => zipInfo codec (dataPrefix ++ item.path) content

/-- Returns the manifest and the published archive. -/
def createBackup (codec : Codec) (limits : Limits) (now : String) (dataDir : DataDir) :
    Except BackupError (BackupManifest × Archive) := do
  raiseIf (dataDir.isLink [] || !dataDir.isDir [])
    (.integrity "backup source must be a real directory")
  let (manifest, staged) ← stageSource codec now dataDir []
  let archive := writeArchive codec manifest staged
  let verified ← verifyBackup codec limits (some archive)
  raiseIf (verified ≠ manifest) (.integrity "published backup verification failed")
  pure (manifest, archive)

/-! ## Checks before a restore -/

/-- An entry that a restore must not write through: present, and a link or not as wanted. -/
def unsafeEntry (dataDir : DataDir) (path : Path) (wanted : Path → Bool) : Bool :=
  dataDir.present path && (dataDir.isLink path || !wanted path)

def validateRestoreTargets (dataDir : DataDir) (manifest : BackupManifest) :
    Except BackupError Unit := do
  raiseIf (unsafeEntry dataDir [] dataDir.isDir)
    (.integrity "restore destination must be a real directory")
  manifest.files.forM fun item => do
    let parts := posixParts item.path
    raiseIf (parts.dropLast.inits.any fun path =>
        path ≠ [] ∧ unsafeEntry dataDir path dataDir.isDir)
      (.integrity "restore destination contains an unsafe path")
    raiseIf (unsafeEntry dataDir parts fun path => (dataDir.file? path).isSome)
      (.integrity "restore destination contains an unsafe path")

/-- The files of one directory of the walk. -/
def existingFiles (dataDir : DataDir) (current : Path) : Except BackupError (List Path) := do
  let directoryNames := (dataDir.children current).filter fun path =>
    dataDir.isDir path && !(current = [] && path.any (· ∈ restorePreservedTopLevelDirectories))
  raiseIf (directoryNames.any dataDir.isLink)
    (.integrity "restore destination contains an unsafe path")
  let fileNames := (dataDir.children current).filter fun path =>
    !dataDir.isDir path &&
      !(1 < path.length && path.head?.any (· ∈ restorePreservedTopLevelDirectories))
  raiseIf (fileNames.any fun path => (dataDir.file? path).isNone)
    (.integrity "restore destination contains an unsafe path")
  pure fileNames

def existingPersistentFiles (dataDir : DataDir) : Except BackupError (List Path) :=
  if dataDir.present [] then do
    let visited := dataDir.visited (· ∉ restorePreservedTopLevelDirectories)
    let files ← visited.mapM (existingFiles dataDir)
    pure files.flatten
  else .ok []

/-! ## Staging -/

def makeParent (stage : DataDir) (path : Path) : DataDir :=
  if stage.present path then stage else stage.mkdir path

/-- One member is extracted to the staging directory; returns the total size so far. -/
def extractFile (limits : Limits) (members : Archive) (s : DataDir × Nat) (item : BackupFile) :
    Except BackupError (DataDir × Nat) := do
  let relative := posixParts item.path
  -- `target.parent.mkdir(parents=True, exist_ok=True)` and `target.open('wb')`
  raiseIf (relative.dropLast.inits.any fun path => path ≠ [] ∧ (s.1.file? path).isSome) .osError
  raiseIf (s.1.isDir relative) .osError
  let info ← getMember members (dataPrefix ++ item.path)
  raiseIf (info.fileSize ≠ item.size)
    (.integrity ("backup checksum or size mismatch for " ++ item.path))
  let content ← readMember info
  raiseIf (content.length > item.size ∨ content.length > limits.maxFileSize ∨
      s.2 + content.length > limits.maxTotalSize)
    (.integrity "backup streamed size exceeds configured limits")
  raiseIf (content.length ≠ item.size)
    (.integrity ("backup checksum or size mismatch for " ++ item.path))
  let stage := relative.dropLast.inits.foldl makeParent s.1
  pure (stage.write relative content, s.2 + content.length)

def verifyStagedFiles (codec : Codec) (stage : DataDir) (manifest : BackupManifest) :
    Except BackupError Unit :=
  manifest.files.forM fun item =>
    match stage.file? (posixParts item.path) with
    | none => .error .osError
    | some content =>
      raiseIf (content.length ≠ item.size ∨ codec.sha256 content ≠ item.sha256)
        (.integrity ("backup checksum mismatch for " ++ item.path))

/-! ## Replacing the files -/

/-- The file operations of `_restore_staged_files`; `i` counts the entries of the manifest. -/
inductive Point
  | mkdirRoot
  | saveExtra (path : Path)
  | mkdirParent (i : Nat) (path : Path)
  /-- `_copy_for_rollback(target, rollback, relative)` -/
  | save (i : Nat)
  /-- `atomic_copy_file(stage / relative, target)` -/
  | copy (i : Nat)
  | unlinkExtra (path : Path)
  deriving DecidableEq, Repr

/-- DATA_DIR, the files in the rollback directory, and the local variables. -/
structure Progress where
  dataDir : DataDir
  rollback : Dict Path Bytes
  rollbackPaths : List Path
  newPaths : List Path
  createdDirectories : List Path

def Progress.init (dataDir : DataDir) : Progress := ⟨dataDir, ∅, [], [], []⟩

namespace Progress

/-- `atomic_copy_file` can replace the target. -/
def replaceable (s : Progress) (path : Path) : Bool :=
  s.dataDir.isDir path.dropLast && !s.dataDir.isDir path

def mkdir (s : Progress) (path : Path) : Progress :=
  { s with dataDir := s.dataDir.mkdir path }

def save (s : Progress) (path : Path) : Progress :=
  match s.dataDir.file? path with
  | some content => { s with rollback := s.rollback.set path content }
  | none => s

def copy (s : Progress) (path : Path) (content : Bytes) : Progress :=
  { s with dataDir := s.dataDir.write path content }

def unlink (s : Progress) (path : Path) : Progress :=
  { s with dataDir := s.dataDir.unlink path }

/-- `missing_parents` of a target; the path is reversed. -/
def missingParents (s : Progress) : List String → List Path
  | [] => []
  | name :: parent =>
    if s.dataDir.present (name :: parent).reverse then []
    else (name :: parent).reverse :: s.missingParents parent

end Progress

section
variable (faults : Faults Point)

def makeDirectory (pt : Point) (s : Progress) (path : Path) :
    Except (Raised Point Progress) Progress := do
  let s ← perform faults pt (s.dataDir.get? path).isNone (·.mkdir path) s
  pure { s with createdDirectories := s.createdDirectories ++ [path] }

def copyForRollback (pt : Point) (s : Progress) (path : Path) :
    Except (Raised Point Progress) Progress := do
  let s ← perform faults pt (s.dataDir.file? path).isSome (·.save path) s
  pure { s with rollbackPaths := s.rollbackPaths.insert path }

/-- The body of the loop over the manifest. -/
def restoreFile (stage : DataDir) (s : Progress) (entry : BackupFile × Nat) :
    Except (Raised Point Progress) Progress := do
  let (item, i) := entry
  let relative := posixParts item.path
  let missing := s.missingParents relative.reverse.tail
  let s ← missing.reverse.foldlM (fun s path => makeDirectory faults (.mkdirParent i path) s path) s
  let s ←
    if s.dataDir.present relative then copyForRollback faults (.save i) s relative
    else pure { s with newPaths := s.newPaths.insert relative }
  let content := stage.file? relative
  perform faults (.copy i) (content.isSome && s.replaceable relative)
    (·.copy relative (content.getD [])) s

/-- The `try` block of `_restore_staged_files`. -/
def replaceFiles (stage dataDir : DataDir) (manifest : BackupManifest) (extraPaths : List Path) :
    Except (Raised Point Progress) Progress := do
  let s := Progress.init dataDir
  let s ← if dataDir.present [] then pure s else makeDirectory faults .mkdirRoot s []
  let s ← extraPaths.foldlM (fun s path => copyForRollback faults (.saveExtra path) s path) s
  let s ← manifest.files.zipIdx.foldlM (restoreFile faults stage) s
  extraPaths.foldlM (fun s path =>
    perform faults (.unlinkExtra path) (s.dataDir.file? path).isSome (·.unlink path) s) s

end

/-- `atomic_copy_file(rollback / relative, data_dir / relative)` -/
def putBack (rollback : Dict Path Bytes) (dataDir : DataDir) (path : Path) : DataDir :=
  match rollback.get? path with
  | some content => dataDir.write path content
  | none => dataDir

/-- The `except` block, when its own operations succeed. -/
def rollBack (s : Progress) : DataDir :=
  let dataDir := s.rollbackPaths.reverse.foldl (putBack s.rollback) s.dataDir
  let dataDir := s.newPaths.foldl FileTree.unlink dataDir
  s.createdDirectories.reverse.foldl FileTree.rmdir dataDir

/-- Why a restore raises. -/
inductive RestoreError
  /-- Before any file of DATA_DIR is touched. -/
  | rejected (error : BackupError)
  /-- In `_restore_staged_files`, which leaves the tree `dataDir`. -/
  | failed (point : Point) (tookEffect : Bool) (dataDir : DataDir)

def restoreStagedFiles (faults : Faults Point) (stage dataDir : DataDir)
    (manifest : BackupManifest) (extraPaths : List Path) : Except RestoreError DataDir :=
  match replaceFiles faults stage dataDir manifest extraPaths with
  | .ok s => .ok s.dataDir
  | .error r => .error (.failed r.point r.tookEffect (rollBack r.state))

/-- The manifest without the entries below a discarded directory. -/
def restored (manifest : BackupManifest) : BackupManifest :=
  { manifest with
    files := manifest.files.filter fun item =>
      !(posixParts item.path).head?.any (· ∈ restoreDiscardedTopLevelDirectories) }

/-- `restorable_manifest`; an entry that names DATA_DIR itself has no first part. -/
def restorable (manifest : BackupManifest) : Except BackupError BackupManifest :=
  if manifest.files.any fun item => posixParts item.path = [] then .error .indexError
  else .ok (restored manifest)

/-- All of `restore_backup` up to `_restore_staged_files`: the staged files, what is restored from
them, and the files to be removed. -/
def prepareRestore (codec : Codec) (limits : Limits) (archive : Option Archive)
    (dataDir : DataDir) : Except BackupError (DataDir × BackupManifest × List Path) := do
  raiseIf (dataDir.isLink []) (.integrity "restore destination must be a real directory")
  let manifest ← verifyBackup codec limits archive
  requireRestoreCompatible manifest
  validateRestoreTargets dataDir manifest
  let restorableManifest ← restorable manifest
  let existingPaths ← existingPersistentFiles dataDir
  let manifestPaths := restorableManifest.files.map (posixParts ·.path)
  let extraPaths := existingPaths.filter (· ∉ manifestPaths)
  let members ← validatedMembers limits (archive.getD [])
  let reread ← readManifest codec limits members
  raiseIf (reread ≠ manifest) (.integrity "backup changed after initial verification")
  let (stage, _) ← restorableManifest.files.foldlM (extractFile limits members) (∅, 0)
  verifyStagedFiles codec stage restorableManifest
  pure (stage, restorableManifest, extraPaths)

def restoreBackup (codec : Codec) (limits : Limits) (faults : Faults Point)
    (archive : Option Archive) (dataDir : DataDir) : Except RestoreError DataDir :=
  match prepareRestore codec limits archive dataDir with
  | .error e => .error (.rejected e)
  | .ok (stage, manifest, extraPaths) =>
    restoreStagedFiles faults stage dataDir manifest extraPaths

end WebSSH.Backup
