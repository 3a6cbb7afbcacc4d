import Mathlib
import WebSSH.Lib.FileTree
import WebSSH.Lib.Program
import WebSSH.Lib.Python

/-!
# Rotating the secret

`_rotate_secret_locked` of `secret_rotation.py`: the key files, the rows of the database and the file
`secret_key` under DATA_DIR, the root of the tree. What `cryptography`, `json` and `re` compute is given
by a `Cipher` and a `Storage`. Every access to a file or to the database is a call that may raise, before
or after it has taken effect; `readTree` stands for all the accesses of a scan but the listings of
directories, of which `skips` names those that raise.
-/

namespace WebSSH.Rotation
open Lib Lib.Python Program

inductive Error
  /-- `SecretRotationError` -/
  | rotation (message : String)
  | runtime (message : String)
  | other
  deriving DecidableEq, Repr

/-- Fernet, with the keys derived from a secret. A ciphertext depends on a nonce. -/
structure Cipher where
  /-- `is_encrypted` -/
  isEncrypted : Bytes → Bool
  decryptKey (secret userId : String) (ciphertext : Bytes) : Option Bytes
  encryptKey (secret userId : String) (nonce : Nat) (plaintext : Bytes) : Bytes
  decryptTotpSecret (userId : Int) (secret : String) (ciphertext : Bytes) : Option String
  encryptTotpSecret (userId : Int) (secret : String) (nonce : Nat) (plaintext : String) : Bytes
  decryptClientSecret (secret : String) (ciphertext : Bytes) : Option String
  encryptClientSecret (secret : String) (nonce : Nat) (plaintext : String) : Bytes

/-- What the scan of the key files makes of texts. -/
structure Storage where
  /-- `str.isdigit` -/
  isdigit : String → Bool
  /-- `_MIGRATION_BACKUP_PATTERN.fullmatch` -/
  isMigrationBackup : String → Bool
  /-- The items of the metadata once they are migrated: the `filename` of each, if it is a text. -/
  keyItems : Bytes → Except Error (List (Option String))

/-- The tables that hold ciphertexts. -/
inductive Table
  | totpAuthenticators
  | totpEnrollments
  | githubAuthConfiguration
  deriving DecidableEq, Repr

structure Row where
  id : Int
  userId : Int
  ciphertext : Option Bytes
  deriving DecidableEq, Repr

/-- A table that does not exist is `none`. -/
abbrev Database := Table → Option (List Row)

structure State where
  tree : FileTree Bytes
  database : Database
  /-- The rows as the open transaction sees them. -/
  transaction : Option Database
  /-- The files of the temporary directory, by their numbers. -/
  staging : Dict Nat Bytes
  /-- What the backup holds. -/
  backup : Option (FileTree Bytes × Database)
  /-- The commit has taken effect. -/
  durable : Bool
  committed : Bool
  /-- The rollback has begun. -/
  rollingBack : Bool
  /-- The rollback has ended without an error. -/
  rolledBack : Bool

def State.init (tree : FileTree Bytes) (database : Database) : State where
  tree := tree
  database := database
  transaction := none
  staging := ∅
  backup := none
  durable := false
  committed := false
  rollingBack := false
  rolledBack := false

abbrev Rotating := Program State Error

def ofExcept {α : Type} : Except Error α → Rotating α
  | .ok a => return a
  | .error e => raise e

/-- `if condition: raise error` -/
def refuseIf (condition : Prop) [Decidable condition] (error : Error) : Rotating PUnit :=
  if condition then raise error else return ⟨⟩

def secretPath : Path := ["secret_key"]

/-! ## Files -/

/-- Something is read off the files. -/
def readTree {α : Type} (f : FileTree Bytes → Except Error α) : Rotating α :=
  call fun _ s => (f s.tree).map (·, s)

/-- `path.read_bytes()` -/
def readBytes (path : Path) : Rotating Bytes := readTree fun t => (t.file? path).elim (.error .other) .ok

/-- `atomic_write_bytes` -/
def atomicWriteBytes (path : Path) (payload : Bytes) : Rotating PUnit :=
  call fun _ s => .ok (⟨⟩, { s with tree := s.tree.write path payload })

def writeStagedKey (index : Nat) (payload : Bytes) : Rotating PUnit :=
  call fun _ s => .ok (⟨⟩, { s with staging := s.staging.set index payload })

def readStagedKey (index : Nat) : Rotating Bytes :=
  call fun _ s => (s.staging.get? index).elim (.error .other) fun payload => .ok (payload, s)

/-! ## The secret -/

def validateSecret (value label : String) : Except Error Unit :=
  if value = "" ∨ '\n' ∈ value.toList ∨ '\r' ∈ value.toList then
    .error (.rotation (label ++ " secret is invalid"))
  else .ok ()

/-- `hmac.compare_digest` of two texts. -/
def compareDigest (a b : String) : Except Error Bool :=
  if isAscii a ∧ isAscii b then .ok (a = b) else .error .other

/-- `if persisted.endswith(last): persisted = persisted[:-1]` -/
def chopLast (last : Char) (text : List Char) : List Char :=
  if text.getLast? = some last then text.dropLast else text

def chopEnd (text : List Char) : List Char :=
  if text.getLast? = some '\n' then chopLast '\r' text.dropLast else text

def readPersistedSecret (t : FileTree Bytes) : Except Error String :=
  match t.get? secretPath with
  | none => .error (.rotation "persisted secret_key is required for rotation")
  | some (.file content) =>
    match readText content with
    | none => .error (.rotation "persisted secret_key could not be read")
    | some text =>
      let persisted := chopEnd text.toList
      if persisted = [] ∨ '\n' ∈ persisted ∨ '\r' ∈ persisted then
        .error (.rotation "persisted secret_key is invalid")
      else .ok (String.ofList persisted)
  | some _ => .error (.rotation "persisted secret_key must be a regular non-symlink file")

/-! ## The key files -/

def usersPath : Path := ["users"]

/-- The directories that `os.walk` lists. It has no `onerror`: a directory that cannot be listed, or
whose listing raises, is skipped with all that is below it. -/
def walked (skips : Path → Bool) (t : FileTree Bytes) : List Path :=
  t.keys.filter fun p => p.head? = some "users" &&
    (p.drop 1).inits.all fun q => t.listable ("users" :: q) && !skips ("users" :: q)

def directoryNames (t : FileTree Bytes) (p : Path) : List Path := (t.children p).filter (t.isDir ·)

def fileNames (t : FileTree Bytes) (p : Path) : List String :=
  ((t.children p).filter (!t.isDir ·)).map fun q => q.getLastD ""

/-- `Path(filename).name == filename`, of a nonempty name. -/
def isName (filename : String) : Bool := filename ≠ "." && '/' ∉ filename.toList

/-- The names of the items, which may not repeat. -/
def referencedNames (referenced : List String) : List (Option String) → Except Error (List String)
  | [] => .ok referenced
  | none :: _ => .error (.rotation "SSH key metadata is invalid")
  | some filename :: items =>
    if filename = "" ∨ isName filename = false ∨ filename ∈ referenced then
      .error (.rotation "SSH key metadata is invalid")
    else referencedNames (referenced ++ [filename]) items

/-- What `keys.json` references. -/
def metadata (storage : Storage) (t : FileTree Bytes) (current : Path) : Except Error (List String) :=
  if "keys.json" ∈ fileNames t current then
    match t.file? (current ++ ["keys.json"]) with
    | none => .error (.rotation "SSH key metadata is not a regular file")
    | some content => storage.keyItems content >>= referencedNames []
  else .ok []

/-- The key files of one directory `keys`. -/
def keysOfDirectory (storage : Storage) (t : FileTree Bytes) (current : Path) :
    Except Error (List (String × Path)) :=
  let userDirectory := current.dropLast.getLastD ""
  let userId := removePrefix userDirectory "user_"
  let backups := (fileNames t current).filter storage.isMigrationBackup
  let stored := (fileNames t current).filter fun name => name ≠ "keys.json" ∧ name ∉ backups
  if directoryNames t current ≠ [] then
    .error (.rotation "SSH key storage contains an unexpected directory")
  else if startsWith userDirectory "user_" = false ∨ storage.isdigit userId = false then
    .error (.rotation "SSH key user directory is invalid")
  else
    match metadata storage t current with
    | .error e => .error e
    | .ok referenced =>
      if stored.any (· ∉ referenced) then
        .error (.rotation "SSH key storage contains an unreferenced file")
      else if referenced.any (· ∉ stored) then
        .error (.rotation "SSH key metadata references a missing file")
      else if (backups ++ referenced).any fun name => (t.file? (current ++ [name])).isNone then
        .error (.rotation "SSH key storage contains an unsafe file")
      else
        let names := (referenced.mergeSort strLe).filter (· ∉ backups)
        .ok (names.map fun name => (userId, current ++ [name]))

/-- What the walk does in a directory. -/
def keysAt (storage : Storage) (t : FileTree Bytes) (current : Path) :
    Except Error (List (String × Path)) :=
  if (directoryNames t current).any (t.isLink ·) then
    .error (.rotation "SSH key storage contains a symbolic link")
  else if current.getLast? = some "keys" then keysOfDirectory storage t current
  else .ok []

def keysOfDirectories (storage : Storage) (t : FileTree Bytes) :
    List Path → Except Error (List (String × Path))
  | [] => .ok []
  | current :: rest => do
    let files ← keysAt storage t current
    let others ← keysOfDirectories storage t rest
    return files ++ others

def pathText (path : Path) : String := "/".intercalate path

def storedKeyFiles (storage : Storage) (skips : Path → Bool) (t : FileTree Bytes) :
    Except Error (List (String × Path)) :=
  if t.present usersPath = false then .ok []
  else if t.isLink usersPath ∨ t.isDir usersPath = false then
    .error (.rotation "users storage path is unsafe")
  else do
    let files ← keysOfDirectories storage t (walked skips t)
    return files.mergeSort fun a b => strLe (pathText a.2) (pathText b.2)

/-- A key file with its content before the rotation. -/
structure KeyFile where
  userId : String
  path : Path
  original : Bytes

/-- `originals`, beside the files. -/
def readOriginals : List (String × Path) → Rotating (List KeyFile)
  | [] => return []
  | (userId, path) :: rest => do
    let original ← readBytes path
    let originals ← readOriginals rest
    return ⟨userId, path, original⟩ :: originals

/-- `create_backup` -/
def createBackup : Rotating PUnit := call fun _ s => .ok (⟨⟩, { s with backup := some (s.tree, s.database) })

section
variable (cipher : Cipher) (oldSecret newSecret : String)

def reencryptKey (userId : String) (ciphertext : Bytes) : Rotating Bytes := do
  refuseIf (cipher.isEncrypted ciphertext = false) (.rotation
    "stored SSH key is not encrypted; read it once to migrate it before rotation")
  match cipher.decryptKey oldSecret userId ciphertext with
  | none => raise (.rotation "stored SSH key could not be decrypted with the persisted secret")
  | some plaintext =>
    let staged ← call fun nonce s => .ok (cipher.encryptKey newSecret userId nonce plaintext, s)
    refuseIf (cipher.decryptKey newSecret userId staged ≠ some plaintext)
      (.rotation "staged SSH key verification failed")
    return staged

/-- The loop over the key files, which stages them in the temporary directory. -/
def stageKeys : Nat → List KeyFile → Rotating (List (Path × Nat))
  | _, [] => return []
  | index, file :: files => do
    let payload ← reencryptKey cipher oldSecret newSecret file.userId file.original
    writeStagedKey index payload
    let staged ← readStagedKey index
    let stagedPlaintext := cipher.decryptKey newSecret file.userId staged
    let originalPlaintext := cipher.decryptKey oldSecret file.userId file.original
    refuseIf (stagedPlaintext = none ∨ originalPlaintext = none ∨ stagedPlaintext ≠ originalPlaintext)
      (.rotation "staged SSH key verification failed")
    let rest ← stageKeys (index + 1) files
    return (file.path, index) :: rest

/-! ## The rows -/

/-- `BEGIN IMMEDIATE` -/
def beginImmediate : Rotating PUnit :=
  call fun _ s => .ok (⟨⟩, { s with transaction := some s.database })

/-- The rows that the connection sees. -/
def State.rows (s : State) : Database := s.transaction.getD s.database

def selectRows (table : Table) : Rotating (List Row) :=
  call fun _ s => .ok ((s.rows table).getD [], s)

/-- How the ciphertexts of a table are read and written, and what is raised when that fails. -/
structure Field where
  decrypt (row : Row) (secret : String) (ciphertext : Bytes) : Option String
  encrypt (row : Row) (secret : String) (nonce : Nat) (plaintext : String) : Bytes
  undecryptable : String
  unverified : String

def totpField : Field where
  decrypt row := cipher.decryptTotpSecret row.userId
  encrypt row := cipher.encryptTotpSecret row.userId
  undecryptable := "TOTP secret could not be decrypted and verified"
  unverified := "staged TOTP secret verification failed"

def githubField : Field where
  decrypt _ := cipher.decryptClientSecret
  encrypt _ := cipher.encryptClientSecret
  undecryptable := "GitHub client secret could not be decrypted and verified"
  unverified := "staged GitHub client secret verification failed"

/-- An update that is staged. -/
structure Staged where
  table : Table
  id : Int
  ciphertext : Bytes

def stageRow (field : Field) (table : Table) (row : Row) : Rotating Staged :=
  match row.ciphertext.bind (field.decrypt row oldSecret) with
  | none => raise (.rotation field.undecryptable)
  | some plaintext => do
    let replacement ← call fun nonce s => .ok (field.encrypt row newSecret nonce plaintext, s)
    match field.decrypt row newSecret replacement with
    | none => raise (.rotation field.undecryptable)
    | some verified =>
      let same ← ofExcept (compareDigest plaintext verified)
      refuseIf (same = false) (.rotation field.unverified)
      return ⟨table, row.id, replacement⟩

def stageRows (field : Field) (table : Table) : List Row → Rotating (List Staged)
  | [] => return []
  | row :: rows => do
    let staged ← stageRow oldSecret newSecret field table row
    let rest ← stageRows field table rows
    return staged :: rest

def stageTotpRotation : Rotating (List Staged) := do
  beginImmediate
  let authenticators ← selectRows .totpAuthenticators
  let stagedAuthenticators ←
    stageRows oldSecret newSecret (totpField cipher) .totpAuthenticators authenticators
  let enrollments ← selectRows .totpEnrollments
  let stagedEnrollments ← stageRows oldSecret newSecret (totpField cipher) .totpEnrollments enrollments
  return stagedAuthenticators ++ stagedEnrollments

def stageGithubRotation : Rotating (List Staged) := do
  let rows ← selectRows .githubAuthConfiguration
  stageRows oldSecret newSecret (githubField cipher) .githubAuthConfiguration
    (rows.filter (·.ciphertext.isSome))

end

/-- `UPDATE … SET … = ? WHERE id = ?` -/
def updateRows (id : Int) (ciphertext : Bytes) (rows : List Row) : List Row :=
  rows.map fun row => if row.id = id then { row with ciphertext := some ciphertext } else row

/-- The update of a transaction, with its `rowcount`. -/
def executeUpdate (staged : Staged) : Rotating Nat := call fun _ s =>
  let rows := (s.rows staged.table).getD []
  .ok (rows.countP (·.id = staged.id), { s with
    transaction := some (Function.update s.rows staged.table
      ((s.rows staged.table).map (updateRows staged.id staged.ciphertext))) })

/-- `_apply_staged_totp_rotation` and `_apply_staged_github_rotation` -/
def applyStaged (changed : String) : List Staged → Rotating PUnit
  | [] => return ⟨⟩
  | staged :: rest => do
    let rowcount ← executeUpdate staged
    refuseIf (rowcount ≠ 1) (.rotation changed)
    applyStaged changed rest

def applyStagedTotpRotation : List Staged → Rotating PUnit :=
  applyStaged "TOTP storage changed during rotation"

def applyStagedGithubRotation : List Staged → Rotating PUnit :=
  applyStaged "GitHub authentication storage changed during rotation"

/-! ## The rotation -/

def installKeys : List (Path × Nat) → Rotating PUnit
  | [] => return ⟨⟩
  | (path, index) :: rest => do
    let payload ← readStagedKey index
    atomicWriteBytes path payload
    installKeys rest

/-- `connection.commit()` -/
def commit : Rotating PUnit := call fun _ s =>
  .ok (⟨⟩, { s with database := s.rows, transaction := none, durable := true })

/-- `connection.rollback()` -/
def rollback : Rotating PUnit := call fun _ s => .ok (⟨⟩, { s with transaction := none })

/-- `_rollback_key_files`; the result says whether all the files were written. -/
def rollbackKeyFiles : List KeyFile → Rotating Bool
  | [] => return true
  | file :: files => do
    let written ← attempt (atomicWriteBytes file.path file.original)
    let rest ← rollbackKeyFiles files
    return written.isOk && rest

def secretFile (secret : String) : Bytes := encode (secret ++ "\n")

/-- The `finally` of a rotation that is not committed. -/
def undo (oldSecret : String) (originals : List KeyFile) : Rotating PUnit := do
  modify fun s => { s with rollingBack := true }
  let first ← attempt rollback
  let second ← rollbackKeyFiles originals
  let third ← attempt (atomicWriteBytes secretPath (secretFile oldSecret))
  refuseIf (first.isOk = false ∨ second = false ∨ third.isOk = false)
    (.runtime "secret rotation rollback failed")
  modify fun s => { s with rolledBack := true }

def undoUnlessCommitted (oldSecret : String) (originals : List KeyFile) : Rotating PUnit := do
  let s ← Program.get
  if s.committed then return ⟨⟩ else undo oldSecret originals

/-- The block that changes the files and the rows. -/
def apply (newSecret : String) (stagedTotp stagedGithub : List Staged)
    (stagedFiles : List (Path × Nat)) : Rotating PUnit := do
  applyStagedTotpRotation stagedTotp
  applyStagedGithubRotation stagedGithub
  installKeys stagedFiles
  atomicWriteBytes secretPath (secretFile newSecret)
  let persisted ← readTree readPersistedSecret
  refuseIf (persisted ≠ newSecret) (.rotation "new persisted secret verification failed")
  commit
  modify fun s => { s with committed := true }

/-- The block with the temporary directory. -/
def stageAndApply (cipher : Cipher) (oldSecret newSecret : String) (files : List KeyFile)
    (stagedTotp stagedGithub : List Staged) : Rotating PUnit := do
  let stagedFiles ← stageKeys cipher oldSecret newSecret 0 files
  finallyDo (apply newSecret stagedTotp stagedGithub stagedFiles) (undoUnlessCommitted oldSecret files)

def makeStage : Rotating PUnit := call fun _ s => .ok (⟨⟩, { s with staging := ∅ })

/-- The end of the block with the temporary directory. -/
def removeStage : Rotating PUnit := call fun _ s => .ok (⟨⟩, { s with staging := ∅ })

/-- `connection.close()` -/
def closeConnection : Rotating PUnit := call fun _ s => .ok (⟨⟩, { s with transaction := none })

/-- `sqlite3.connect` -/
def connect : Rotating PUnit := call fun _ s => .ok (⟨⟩, s)

structure RotationReport where
  rotatedKeys : Nat
  rotatedTotpSecrets : Nat
  rotatedGithubSecrets : Nat
  deriving DecidableEq, Repr

/-- The block with the connection; the lengths of what is staged. -/
def rotateStores (cipher : Cipher) (oldSecret newSecret : String) (files : List KeyFile) :
    Rotating (Nat × Nat) := do
  let stagedTotp ← stageTotpRotation cipher oldSecret newSecret
  let stagedGithub ← stageGithubRotation cipher oldSecret newSecret
  makeStage
  finallyDo (stageAndApply cipher oldSecret newSecret files stagedTotp stagedGithub) removeStage
  return (stagedTotp.length, stagedGithub.length)

def rotateSecretLocked (cipher : Cipher) (storage : Storage) (skips : Path → Bool)
    (oldSecret newSecret : String) : Rotating RotationReport := do
  ofExcept (validateSecret oldSecret "old")
  ofExcept (validateSecret newSecret "new")
  let same ← ofExcept (compareDigest oldSecret newSecret)
  refuseIf (same = true) (.rotation "new secret must differ from old secret")
  let persistedSecret ← readTree readPersistedSecret
  let matching ← ofExcept (compareDigest persistedSecret oldSecret)
  refuseIf (matching = false)
    (.rotation "persisted secret_key does not match the active old secret")
  let keyFiles ← readTree (storedKeyFiles storage skips)
  let files ← readOriginals keyFiles
  createBackup
  connect
  let (totp, github) ← finallyDo (rotateStores cipher oldSecret newSecret files) closeConnection
  return ⟨files.length, totp, github⟩

end WebSSH.Rotation
