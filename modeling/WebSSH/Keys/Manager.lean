import WebSSH.Keys.Store

/-!
# Saving, replacing, renaming, reading and deleting keys

The functions of `key_manager.py` under the lock of the user's keys. The metadata document is the
authority: a delete moves the key's file to a staging entry before the document is written, and
every load first takes back, or removes, the staging entries an earlier delete has left.
-/

namespace WebSSH.Keys
open Lib Program Python

variable (env : Env)

/-- `CURRENT_STORAGE_VERSIONS['keys']` -/
def currentStorageVersion : Nat := 2

def deleteStagingPrefix : String := ".delete-"
def deleteTokenLength : Nat := 32
def sshKeyContentMaxBytes : Nat := 64 * 1024
def sshKeyStorageLimitError : String :=
  "SSH key storage limit reached; delete a key or replace one with a smaller key"

/-! ## File names -/

/-- `_is_safe_key_filename`; a name without a slash is a relative path of one part. -/
def isSafeKeyFilename (filename : String) : Bool :=
  filename ≠ "" && !([".", "..", "keys.json"].contains filename) &&
    !(filename.toList.contains '/') && !(filename.toList.contains '\\') &&
    !(filename.toList.contains '\x00')

/-- The name of a staging entry. -/
def pendingName (token : Uuid) (filename : String) : String :=
  deleteStagingPrefix ++ token.hex ++ "-" ++ filename

/-- `_pending_delete_filename` -/
def pendingDeleteFilename (name : String) : Option String :=
  if startsWith name deleteStagingPrefix then
    let remainder := (removePrefix name deleteStagingPrefix).toList
    let token := remainder.takeWhile (· ≠ '-')
    match remainder.dropWhile (· ≠ '-') with
    | [] => none
    | _ :: filename =>
      if token.length ≠ deleteTokenLength ||
          token.any (fun c => !("0123456789abcdef".toList.contains c)) ||
          !isSafeKeyFilename (String.ofList filename) then none
      else some (String.ofList filename)
  else none

/-- `_valid_key_document` -/
def validKeyDocument (document : Document) : Bool :=
  document.schemaVersion = currentStorageVersion &&
    document.keys.all (isSafeKeyFilename ·.filename) &&
    (document.keys.map Key.id).Nodup && (document.keys.map Key.filename).Nodup

/-! ## Loading -/

def ofExcept {α : Type} : Except Error α → Session α
  | .ok a => pure a
  | .error e => raise e

/-- `except OSError as exc: raise StorageCorruptionError(...) from exc` -/
def orCorrupt {α : Type} (reason : String) (x : Session α) : Session α :=
  x.handle fun
    | .os _ => raise (.storageCorruption reason)
    | e => raise e

/-- `_safe_key_path` -/
def safeKeyPath (filename : String) : Session PUnit :=
  if isSafeKeyFilename filename then
    touch.handle fun
      | .os _ | .runtime _ | .value _ => raise (.storageCorruption "key path validation failed")
      | e => raise e
  else raise (.storageCorruption "invalid key filename")

/-- `_path_entry_exists` -/
def pathEntryExists (name : String) : Session Bool := do return (← lstat name).isSome

/-- `_replace_key_entry` -/
def replaceKeyEntry (source destination : String) : Session PUnit := do
  osReplace source destination
  fsyncParentDirectory

/-- `_remove_pending_key_entry` -/
def removePendingKeyEntry (name : String) : Session Bool :=
  Program.handle (do
    unlink name
    fsyncParentDirectory
    return true) fun _ => return false

/-- `sorted(path for path in keys_dir.iterdir() if ...)` -/
def pendingEntries (s : Store) : List String :=
  (s.entries.keys.filter fun name => (pendingDeleteFilename name).isSome).insertionSort
    fun a b => strLe a b = true

/-- `filename not in referenced_filenames or _path_entry_exists(key_path)` -/
def isStale (referenced : List String) (filename : String) : Session Bool :=
  if filename ∈ referenced then pathEntryExists filename else return true

/-- The body of the loop of `_reconcile_pending_key_deletions`. -/
def reconcileEntry (referenced : List String) (pending : String) : Session PUnit :=
  if pending ∈ referenced then return ⟨⟩
  else do
    match ← orCorrupt "pending key deletion inspection failed" (lstat pending) with
    | none => return ⟨⟩
    | some (.directory _) => raise (.storageCorruption "invalid pending key deletion entry")
    | some (.file _) =>
      match pendingDeleteFilename pending with
      | none => return ⟨⟩
      | some filename =>
        if ← isStale referenced filename then
          let _ ← removePendingKeyEntry pending
          return ⟨⟩
        else orCorrupt "pending key deletion recovery failed" (replaceKeyEntry pending filename)

def reconcileEntries (referenced : List String) : List String → Session PUnit
  | [] => return ⟨⟩
  | pending :: rest => do
    reconcileEntry referenced pending
    reconcileEntries referenced rest

/-- `_reconcile_pending_key_deletions` -/
def reconcilePendingKeyDeletions (keys : List Key) : Session PUnit := do
  let pending ← orCorrupt "pending key deletion scan failed" (query fun s => .ok (pendingEntries s))
  reconcileEntries (keys.map Key.filename) pending

/-- `migrate_document` of the store `keys`. -/
def migrateDocument (document : Document) : Except Error (Document × Bool) :=
  if currentStorageVersion < document.schemaVersion then
    .error (.storageCorruption "unsupported schema")
  else
    .ok ({ document with schemaVersion := currentStorageVersion },
      document.schemaVersion < currentStorageVersion)

/-- `load_json_migrated` of `keys.json` -/
def loadKeyDocument : Session Document := do
  match ← orCorrupt "read failed" (query fun s => .ok s.metadata) with
  | none => return ⟨currentStorageVersion, []⟩
  | some document =>
    let (migrated, changed) ← ofExcept (migrateDocument document)
    if !validKeyDocument migrated then raise (.storageCorruption "validation failed")
    else if !changed then return migrated
    else do
      -- `backup_before_migration`
      touch
      call (putMetadata migrated)
      return migrated

/-- `_load_keys_with_lock_held` -/
def loadKeysWithLockHeld : Session (List Key) := do
  if ← getUserKeysDir then
    let document ← loadKeyDocument
    reconcilePendingKeyDeletions document.keys
    return document.keys
  else return []

/-- `load_keys` -/
def loadKeys : Session (List Key) := loadKeysWithLockHeld

/-- `save_keys`; `metadata` is what the write of the document meets. -/
def saveKeys (metadata : Answer Error) (keys : List Key) : Session Bool :=
  Program.handle (do
    let keysFile ← getUserKeysDir
    let document : Document := ⟨currentStorageVersion, keys⟩
    if !keysFile || !validKeyDocument document then return false
    else do
      touch
      meet metadata (putMetadata document)
      return true) fun
    | .os _ => return false
    | e => raise e

/-! ## Saving and renaming -/

/-- `_stored_key_bytes` -/
def storedKeyBytes : List Key → Session Nat
  | [] => return 0
  | key :: rest => do
    safeKeyPath key.filename
    let size := ((← lstat key.filename).map Entry.size).getD 0
    return size + (← storedKeyBytes rest)

/-- `write_prepared_key_content` -/
def writePreparedKeyContent (filename : String) (encrypted : Bytes) : Session Bool :=
  Program.handle (do
    touch
    atomicWriteBytes filename encrypted
    return true) fun _ => return false

/-- `_remove_key_after_metadata_failure` -/
def removeKeyAfterMetadataFailure (filename : String) : Session PUnit :=
  (unlink filename).handle fun _ => return ⟨⟩

/-- The exceptions of `identify_private_key` that are told to the caller. -/
def keyFormatError : Error → Option String
  | .passwordRequired _ => some "Passphrase-encrypted private keys are not supported"
  | .unsupportedPrivateKey text => some text
  | .ssh _ => some "Invalid key format"
  | _ => none

abbrev Outcome (α : Type) := Option α × Option String

/-- The part of `save_key` that holds the lock. -/
def saveKeyWithLockHeld (metadata : Answer Error) (keyMeta : Key) (encrypted : Bytes) :
    Session (Outcome Key) := do
  let keys ← loadKeysWithLockHeld
  if env.sshKeyMaxRecords ≤ keys.length then return (none, some sshKeyStorageLimitError)
  else do
    let currentBytes ← storedKeyBytes keys
    if env.sshKeyStoreMaxBytes < currentBytes + encrypted.length then
      return (none, some sshKeyStorageLimitError)
    else if !(← writePreparedKeyContent keyMeta.filename encrypted) then
      return (none, some "Failed to encrypt and save key")
    else do
      match ← (saveKeys metadata (keys ++ [keyMeta])).attempt with
      | .error (.storageCorruption reason) =>
        removeKeyAfterMetadataFailure keyMeta.filename
        raise (.storageCorruption reason)
      | .error _ =>
        removeKeyAfterMetadataFailure keyMeta.filename
        return (none, some "Failed to save key metadata")
      | .ok true => return (some keyMeta, none)
      | .ok false =>
        removeKeyAfterMetadataFailure keyMeta.filename
        return (none, some "Failed to save key metadata")

/-- `except StorageCorruptionError: raise`, `except Exception: return a` -/
def orElse {α : Type} (x : Session α) (a : Error → α) : Session α :=
  x.handle fun
    | .storageCorruption reason => raise (.storageCorruption reason)
    | e => return a e

/-- `save_key`; `keyId` is the `uuid4` it draws. -/
def saveKey (keyId : Uuid) (nonce : Nat) (metadata : Answer Error) (name keyContent : String) :
    Session (Outcome Key) :=
  orElse (do
    if name = "" then return (none, some "Invalid key name")
    else if 128 < name.length then return (none, some "Key name too long (max 128 characters)")
    else if keyContent = "" then return (none, some "Invalid key content")
    else if sshKeyContentMaxBytes < (encode keyContent).length then
      return (none, some "Key content too large (max 64KB)")
    else if !(← getUserKeysDir) then return (none, some "User not found")
    else
      match identifyPrivateKey env keyContent with
      | .error e =>
        match keyFormatError e with
        | some text => return (none, some text)
        | none => raise e
      | .ok keyType =>
        saveKeyWithLockHeld env metadata ⟨keyId.str, name, keyId.str ++ ".pem", keyType⟩
          (encryptKeyContent env nonce keyContent))
    fun e => (none, some e.text)

/-- `rename_key` -/
def renameKey (metadata : Answer Error) (keyId newName : String) : Session (Outcome (Key × Key)) :=
  let name := strip newName
  if name = "" then return (none, some "Invalid key name")
  else if 128 < name.length then return (none, some "Key name too long (max 128 characters)")
  else if keyId = "" then return (none, some "Key not found")
  else do
    let keys ← loadKeysWithLockHeld
    match keys.find? (·.id = keyId) with
    | none => return (none, some "Key not found")
    | some key =>
      let updated := { key with name }
      let replacement := keys.map fun k => if k.id = keyId then updated else k
      if ← saveKeys metadata replacement then return (some (key, updated), none)
      else return (none, some "Failed to rename key")

/-! ## Reading and replacing -/

/-- `path.read_bytes()` that lets the `FileNotFoundError` through. -/
def readStored (filename : String) : Session Bytes := do
  match ← readBytes filename with
  | some data => return data
  | none => raise (.os "No such file or directory")

/-- The write and the check that `_migrate_key_to_encrypted_locked` and
`_replace_prepared_key_content` make. -/
def writeVerified (filename : String) (encrypted : Bytes) (keyContent : Bytes) (reason : String) :
    Session PUnit := do
  atomicWriteBytes filename encrypted
  let stored ← readStored filename
  let verified ← ofExcept (decryptKeyContent env stored)
  if encode verified = keyContent then return ⟨⟩ else raise (.value reason)

/-- `_migrate_key_to_encrypted_locked` -/
def migrateKeyToEncrypted (nonce : Nat) (filename : String) (plaintext : Bytes) : Session PUnit := do
  let text ← ofExcept (decodeValidatedLegacyKey env plaintext)
  (writeVerified env filename (encryptKeyContent env nonce text) plaintext
    "Legacy key migration verification failed").handle fun e => do
      (atomicWriteBytes filename plaintext).handle fun _ =>
        raise (.runtime "Legacy key migration rollback failed")
      raise e

/-- `key_encryption.read_key_content`; `none` is a `FileNotFoundError`. -/
def readKeyFile (nonce : Nat) (filename : String) (migrateLegacy : Bool) :
    Session (Option String) := do
  match ← readBytes filename with
  | none => return none
  | some content =>
    if isEncrypted env content then
      let plaintext ← ofExcept (decryptKeyContent env content)
      -- `_ensure_private_permissions`
      touch
      return some plaintext
    else
      let plaintext ← ofExcept (decodeValidatedLegacyKey env content)
      if !migrateLegacy then return some plaintext
      else do
        migrateKeyToEncrypted env nonce filename content
        return some plaintext

/-- `read_key_content` -/
def readKeyContent (nonce : Nat) (keyId : String) : Session (Outcome String) :=
  orElse (do
    let keys ← loadKeysWithLockHeld
    if ← getUserKeysDir then
      match keys.find? (·.id = keyId) with
      | none => return (none, some "Key not found")
      | some key =>
        safeKeyPath key.filename
        if ← getUserKeysDir then
          match ← readKeyFile env nonce key.filename true with
          | some content => return (some content, none)
          | none => return (none, some "Key file not found")
        else return (none, some "Key not found")
    else return (none, some "Key not found"))
    fun _ => (none, some "Failed to read key")

/-- `replace_prepared_key_content` -/
def replacePreparedKeyContent (filename keyContent : String) (encrypted : Bytes) : Session Bool :=
  Program.handle (do
    let original ← readStored filename
    Program.handle (do
      writeVerified env filename encrypted (encode keyContent)
        "SSH key replacement verification failed"
      return true) fun _ => do
        (atomicWriteBytes filename original).handle fun _ =>
          raise (.runtime "SSH key replacement rollback failed")
        return false) fun
    | .runtime text => raise (.runtime text)
    | _ => return false

/-- The part of `replace_key` that holds the lock. -/
def replaceKeyWithLockHeld (nonce : Nat) (keyId keyContent replacementType : String) :
    Session (Outcome Key) := do
  let encrypted := encryptKeyContent env nonce keyContent
  let keys ← loadKeysWithLockHeld
  match keys.find? (·.id = keyId) with
  | none => return (none, some "Key not found")
  | some key =>
    if !(← getUserKeysDir) then return (none, some "Key not found")
    else do
      safeKeyPath key.filename
      if !(← pathEntryExists key.filename) then return (none, some "Key file not found")
      else do
        match ← readKeyFile env nonce key.filename false with
        | none => raise (.os "No such file or directory")
        | some storedContent =>
          let storedType ← ofExcept (identifyPrivateKey env storedContent)
          if storedType ≠ key.keyType then
            return (none, some "Stored key metadata does not match key content")
          else if replacementType ≠ storedType then
            return (none, some ("Replacement key must use the same key type (" ++ storedType ++ ")"))
          else do
            let currentBytes ← storedKeyBytes keys
            let storedBytes := (← readStored key.filename).length
            let prospectiveBytes := currentBytes - storedBytes + encrypted.length
            if env.sshKeyStoreMaxBytes < prospectiveBytes ∧ currentBytes < prospectiveBytes then
              return (none, some sshKeyStorageLimitError)
            else if !(← replacePreparedKeyContent env key.filename keyContent encrypted) then
              return (none, some "Failed to replace key")
            else return (some key, none)

/-- `replace_key` -/
def replaceKey (nonce : Nat) (keyId keyContent : String) : Session (Outcome Key) :=
  if keyId = "" then return (none, some "Key not found")
  else if keyContent = "" then return (none, some "Invalid key content")
  else if sshKeyContentMaxBytes < (encode keyContent).length then
    return (none, some "Key content too large (max 64KB)")
  else
    orElse (
      match identifyPrivateKey env keyContent with
      | .error e =>
        match keyFormatError e with
        | some text => return (none, some text)
        | none => raise e
      | .ok replacementType =>
        replaceKeyWithLockHeld env nonce keyId keyContent replacementType)
      fun _ => (none, some "Failed to replace key")

/-! ## Deleting -/

/-- `_path_entry_exists(pending_path) and not _path_entry_exists(key_path)` -/
def hasMoved (pending filename : String) : Session Bool := do
  if ← pathEntryExists pending then return !(← pathEntryExists filename) else return false

/-- `_stage_key_deletion`; `token` is the `uuid4` it draws. -/
def stageKeyDeletion (token : Uuid) (filename : String) : Session (Option String) := do
  match ← lstat filename with
  | none => return none
  | some (.directory _) => raise (.storageCorruption "key path is not a file")
  | some (.file _) =>
    let pending := pendingName token filename
    Program.handle (do
      replaceKeyEntry filename pending
      return some pending) fun e => do
        if ← hasMoved pending filename then
          Program.handle (do
            osReplace pending filename
            fsyncParentDirectory) fun _ => return ⟨⟩
        raise e

/-- `_rollback_key_deletion` -/
def rollbackKeyDeletion (pending : Option String) (filename : String) : Session Bool :=
  match pending with
  | none => return true
  | some pending => do
    if !(← pathEntryExists pending) then return true
    else
      Program.handle (do
        if ← pathEntryExists filename then removePendingKeyEntry pending
        else do
          replaceKeyEntry pending filename
          return true) fun _ => return false

/-- `delete_key` before it writes the document. -/
def stageListedKey (keysDir : Bool) (token : Uuid) (filename : String) : Session (Option String) :=
  if keysDir then do
    safeKeyPath filename
    stageKeyDeletion token filename
  else return none

/-- `delete_key` -/
def deleteKey (token : Uuid) (metadata : Answer Error) (keyId : String) : Session Bool :=
  orElse (do
    let keys ← loadKeysWithLockHeld
    match keys.find? (·.id = keyId) with
    | none => return false
    | some key =>
      let keysDir ← getUserKeysDir
      let pending ← stageListedKey keysDir token key.filename
      match ← (saveKeys metadata (keys.filter (·.id ≠ keyId))).attempt with
      | .error e =>
        if keysDir then
          let _ ← rollbackKeyDeletion pending key.filename
        raise e
      | .ok false =>
        if keysDir then
          let _ ← rollbackKeyDeletion pending key.filename
        return false
      | .ok true =>
        match pending with
        | some pending =>
          let _ ← removePendingKeyEntry pending
          return true
        | none => return true)
    fun _ => false

end WebSSH.Keys
