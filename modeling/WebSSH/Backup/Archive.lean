import WebSSH.Lib.Except
import WebSSH.Lib.FileTree
import WebSSH.Lib.Python
import Mathlib.Data.List.Sort

/-!
# Backup archives

The part of `backup_manager.py` that reads and writes archives. An archive is what
`ZipFile.infolist` shows of it, with what reading each member returns. What `json`, `hashlib`,
`datetime`, `zlib` and `sqlite3` compute is given by a `Codec`.
-/

namespace WebSSH.Backup
open Lib Python Json

set_option autoImplicit false

/-- The libraries that the archive format rests on. -/
structure Codec where
  /-- `json.loads(payload.decode('utf-8'))` -/
  loads : Bytes → Option Json
  /-- `json.dumps(document, sort_keys=True, separators=(',', ':')).encode('utf-8')` -/
  dumps : Json → Bytes
  /-- `hashlib.sha256(content).hexdigest()` -/
  sha256 : Bytes → String
  /-- `datetime.fromisoformat(text)` returns a time in UTC. -/
  isUtc : String → Bool
  /-- `_validate_webssh_database` accepts the file. -/
  isWebsshDatabase : Bytes → Bool
  /-- The size of the deflated content. -/
  deflatedSize : Bytes → Nat

structure Limits where
  maxMembers : Nat
  maxManifestSize : Nat
  maxFileSize : Nat
  maxTotalSize : Nat
  maxCompressionRatio : Nat

inductive BackupError
  /-- `BackupIntegrityError` -/
  | integrity (message : String)
  | value (message : String)
  | indexError
  | osError
  deriving DecidableEq, Repr

structure BackupFile where
  path : String
  sha256 : String
  size : Int
  deriving DecidableEq, Repr

structure BackupManifest where
  formatVersion : Int
  files : List BackupFile
  dataSchemaVersion : Int := 0
  createdAt : Option String := none
  producer : Option String := none
  deriving DecidableEq, Repr

structure BackupCompatibility where
  compatible : Bool
  legacy : Bool
  dataSchemaVersion : Int
  currentDataSchemaVersion : Int
  reason : String
  deriving DecidableEq, Repr

def formatVersion : Int := 2
def legacyFormatVersion : Int := 1
def currentDataSchemaVersion : Int := 2
/-- `_DATA_SCHEMA_MIGRATIONS` -/
def dataSchemaMigrations : Int → Option Int
  | 0 => some 1
  | 1 => some 2
  | _ => none
def producer : String := "webssh"
def manifestName : String := "manifest.json"
def dataPrefix : String := "data/"
def databasePath : String := "app.db"
def restorePreservedTopLevelDirectories : List String := ["logs", "tmp"]
def restoreDiscardedTopLevelDirectories : List String := [".ldap-revocation-fences"]
def backupExcludedTopLevelDirectories : List String :=
  restorePreservedTopLevelDirectories ++ restoreDiscardedTopLevelDirectories

/-! ## Paths -/

/-- `PurePosixPath(value).parts` of a relative path. -/
def posixParts (value : String) : Path :=
  ((value.toList.splitOn '/').filter fun part => part ≠ [] ∧ part ≠ ['.']).map String.ofList

/-- `path.as_posix()` -/
def asPosix (path : Path) : String :=
  String.ofList (['/'].intercalate (path.map String.toList))

def safeRelativePath (value : String) : Except BackupError Path :=
  if value = "" ∨ '\\' ∈ value.toList then .error (.integrity "backup contains an unsafe path")
  else
    let parts := posixParts value
    if value.toList.head? = some '/' ∨ parts.any (· ∈ ["", ".", ".."]) ∨
        parts.any (':' ∈ ·.toList) then
      .error (.integrity "backup contains an unsafe path")
    else .ok parts

/-! ## The manifest -/

def manifestPayload (codec : Codec) (manifest : BackupManifest) : Bytes :=
  let files := manifest.files.map fun item =>
    Json.dict [("path", .str item.path), ("sha256", .str item.sha256), ("size", .int item.size)]
  let text : Option String → Json := fun
    | none => .null
    | some s => .str s
  codec.dumps <| .dict <|
    [("files", Json.list files), ("format_version", Json.int manifest.formatVersion)] ++
      if manifest.formatVersion = formatVersion then
        [("created_at", text manifest.createdAt),
          ("data_schema_version", .int manifest.dataSchemaVersion),
          ("producer", text manifest.producer)]
      else []

def validUtcTimestamp (codec : Codec) : Option Json → Bool
  | some (.str value) =>
    value.toList.getLast? = some 'Z' && codec.isUtc (String.ofList value.toList.dropLast ++ "+00:00")
  | _ => false

def parseFile : Json → Except BackupError BackupFile
  | .dict item =>
    match get item "path", get item "sha256", get item "size" with
    | some (.str path), some (.str sha256), some (.int size) =>
      if hasKeys item ["path", "sha256", "size"] ∧ sha256.toList.length = 64 ∧
          sha256.toList.all (· ∈ "0123456789abcdef".toList) ∧ 0 ≤ size then do
        let _ ← safeRelativePath path
        .ok ⟨path, sha256, size⟩
      else .error (.integrity "backup manifest is invalid")
    | _, _, _ => .error (.integrity "backup manifest is invalid")
  | _ => .error (.integrity "backup manifest is invalid")

/-- The fields of a manifest besides its files, with the keys that its version has. -/
def parseVersion (codec : Codec) (document : List (String × Json)) :
    Except BackupError (BackupManifest × List String) :=
  match get document "format_version" with
  | some (.int version) =>
    if version = legacyFormatVersion then
      .ok ({ formatVersion := version, files := [] }, ["files", "format_version"])
    else if version = formatVersion then
      match get document "data_schema_version", get document "created_at",
        get document "producer" with
      | some (.int dataSchemaVersion), some (.str createdAt), some (.str by_) =>
        if 0 ≤ dataSchemaVersion ∧ by_ = producer ∧ validUtcTimestamp codec (some (.str createdAt))
        then
          .ok (⟨version, [], dataSchemaVersion, some createdAt, some by_⟩,
            ["created_at", "data_schema_version", "files", "format_version", "producer"])
        else .error (.integrity "backup manifest is incompatible")
      | _, _, _ => .error (.integrity "backup manifest is incompatible")
    else .error (.integrity "backup manifest is incompatible")
  | _ => .error (.integrity "backup manifest is incompatible")

/-- `document['files']` -/
def filesOf (document : List (String × Json)) : Except BackupError (List Json) :=
  match get document "files" with
  | some (.list items) => .ok items
  | _ => .error (.integrity "backup manifest is incompatible")

def parseManifest (codec : Codec) (payload : Bytes) : Except BackupError BackupManifest :=
  match codec.loads payload with
  | none => .error (.integrity "backup manifest is invalid")
  | some (.dict document) => do
    let (manifest, expectedKeys) ← parseVersion codec document
    raiseIf (hasKeys document expectedKeys = false)
      (.integrity "backup manifest is incompatible")
    let items ← filesOf document
    let files ← items.mapM parseFile
    let paths := files.map BackupFile.path
    raiseIf (paths ≠ paths.insertionSort (Python.strLe · ·) ∨ ¬ paths.Nodup)
      (.integrity "backup manifest paths must be unique and sorted")
    pure { manifest with files := files }
  | some _ => .error (.integrity "backup manifest is incompatible")

/-- The loop of `evaluate_backup_compatibility`; each migration raises the version. -/
def migrate : Nat → Int → Int
  | 0, cursor => cursor
  | n + 1, cursor =>
    if cursor < currentDataSchemaVersion then
      match dataSchemaMigrations cursor with
      | some next =>
        if next ≤ cursor ∨ currentDataSchemaVersion < next then cursor else migrate n next
      | none => cursor
    else cursor

def evaluateBackupCompatibility (manifest : BackupManifest) : BackupCompatibility :=
  let version := manifest.dataSchemaVersion
  let legacy : Bool := manifest.formatVersion = legacyFormatVersion
  let result (compatible : Bool) (reason : String) : BackupCompatibility :=
    ⟨compatible, legacy, version, currentDataSchemaVersion, reason⟩
  if version > currentDataSchemaVersion then
    result false "backup data schema is newer than this WebSSH version"
  else if migrate (currentDataSchemaVersion - version).toNat version ≠ currentDataSchemaVersion then
    result false "no complete migration path for backup data schema"
  else if legacy then result true "legacy archive can be migrated"
  else if version < currentDataSchemaVersion then
    result true "backup data schema can be migrated"
  else result true "backup data schema is current"

def requireRestoreCompatible (manifest : BackupManifest) : Except BackupError Unit :=
  let compatibility := evaluateBackupCompatibility manifest
  if compatibility.compatible then .ok ()
  else .error (.integrity ("backup is not restore compatible: " ++ compatibility.reason))

/-! ## Archives -/

/-- An entry of `infolist`, and what reading it to its end returns. -/
structure ZipInfo where
  filename : String
  fileSize : Nat
  compressSize : Nat
  /-- `external_attr >> 16` -/
  mode : Nat
  encrypted : Bool
  content : Option Bytes
  deriving DecidableEq, Repr

abbrev Archive := List ZipInfo

def ZipInfo.isDir (info : ZipInfo) : Bool := info.filename.toList.getLast? = some '/'

/-- `stat.S_ISLNK` -/
def isLinkMode (mode : Nat) : Bool := mode &&& 0o170000 = 0o120000

/-- The member of this name. -/
def member? (members : Archive) (name : String) : Option ZipInfo :=
  members.find? fun info => info.filename = name

/-- `members[name]`; a `KeyError` ends as a `BackupIntegrityError`. -/
def getMember (members : Archive) (name : String) : Except BackupError ZipInfo :=
  match member? members name with
  | none => .error (.integrity "backup archive is unreadable or invalid")
  | some info => .ok info

/-- The checks of `_validated_members` on one entry. -/
def validateInfo (info : ZipInfo) : Except BackupError Unit := do
  let normalized :=
    if info.isDir then String.ofList info.filename.toList.dropLast else info.filename
  let _ ← if normalized = "" then .ok [] else safeRelativePath normalized
  raiseIf (isLinkMode info.mode) (.integrity "backup contains a symbolic link")
  raiseIf info.encrypted (.integrity "encrypted backup members are unsupported")

/-- The size limits on one member; returns the total so far. -/
def validateSize (limits : Limits) (total : Nat) (info : ZipInfo) : Except BackupError Nat :=
  if info.filename = manifestName then .ok total
  else if info.fileSize > limits.maxFileSize then
    .error (.integrity "backup member exceeds file size limit")
  else if total + info.fileSize > limits.maxTotalSize then
    .error (.integrity "backup exceeds total size limit")
  else if info.fileSize > limits.maxCompressionRatio * max info.compressSize 1 then
    .error (.integrity "backup member exceeds compression ratio limit")
  else .ok (total + info.fileSize)

def validatedMembers (limits : Limits) (infos : Archive) : Except BackupError Archive := do
  raiseIf (infos.length > limits.maxMembers) (.integrity "backup contains too many members")
  let names := infos.map ZipInfo.filename
  raiseIf (¬ names.Nodup) (.integrity "backup contains duplicate members")
  infos.forM validateInfo
  raiseIf (names.count manifestName ≠ 1) (.integrity "backup must contain exactly one manifest")
  let members := infos.filter fun info => !info.isDir
  let manifestInfo ← getMember members manifestName
  raiseIf (manifestInfo.fileSize > limits.maxManifestSize)
    (.integrity "backup manifest is too large")
  let _ ← members.foldlM (validateSize limits) 0
  pure members

/-- Reading a member; what `zipfile` raises ends as a `BackupIntegrityError`. -/
def readMember (info : ZipInfo) : Except BackupError Bytes :=
  match info.content with
  | none => .error (.integrity "backup archive is unreadable or invalid")
  | some content => .ok content

def readManifest (codec : Codec) (limits : Limits) (members : Archive) :
    Except BackupError BackupManifest := do
  let info ← getMember members manifestName
  let payload ← readMember info
  raiseIf (payload.length > limits.maxManifestSize) (.integrity "backup manifest is too large")
  parseManifest codec payload

/-- The checks of `verify_backup` on one file; returns the total size so far. -/
def verifyFile (codec : Codec) (limits : Limits) (members : Archive) (total : Nat)
    (item : BackupFile) : Except BackupError Nat := do
  let info ← getMember members (dataPrefix ++ item.path)
  raiseIf (info.fileSize ≠ item.size)
    (.integrity ("backup checksum or size mismatch for " ++ item.path))
  let content ← readMember info
  raiseIf (content.length > item.size ∨ content.length > limits.maxFileSize ∨
      total + content.length > limits.maxTotalSize)
    (.integrity "backup streamed size exceeds configured limits")
  raiseIf (content.length ≠ item.size ∨ codec.sha256 content ≠ item.sha256)
    (.integrity ("backup checksum mismatch for " ++ item.path))
  pure (total + content.length)

/-- `none` stands for a file that `ZipFile` cannot open. -/
def verifyBackup (codec : Codec) (limits : Limits) :
    Option Archive → Except BackupError BackupManifest
  | none => .error (.integrity "backup archive is unreadable or invalid")
  | some infos => do
    let members ← validatedMembers limits infos
    let manifest ← readManifest codec limits members
    let names := members.map ZipInfo.filename
    let expectedNames := manifestName :: manifest.files.map (dataPrefix ++ ·.path)
    raiseIf (¬ (names ⊆ expectedNames ∧ expectedNames ⊆ names))
      (.integrity "backup members do not match the manifest")
    raiseIf (databasePath ∉ manifest.files.map BackupFile.path)
      (.integrity "backup database is missing")
    let _ ← manifest.files.foldlM (verifyFile codec limits members) 0
    let info ← getMember members (dataPrefix ++ databasePath)
    let content ← readMember info
    raiseIf (codec.isWebsshDatabase content = false) (.integrity "backup database is invalid")
    pure manifest

end WebSSH.Backup
