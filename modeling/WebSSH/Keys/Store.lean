import Mathlib.Data.List.Sort
import Mathlib.Data.List.Infix
import WebSSH.Lib.Dict
import WebSSH.Lib.Program
import WebSSH.Lib.Python

/-!
# The SSH keys of one user

`key_manager.py` with the parts of `key_encryption.py`, `storage_utils.py`, `storage_migrations.py`
and `ssh_key_loader.py` it uses. A user's keys directory holds the metadata document `keys.json` and
one file for each key; a deleted key's file is first moved to a `.delete-` entry beside it. Every
file operation may fail, before or after it has taken effect, and the process may end at it.
-/

namespace WebSSH.Keys
open Lib Program Python

structure Key where
  id : String
  name : String
  filename : String
  keyType : String
  deriving DecidableEq

/-- `keys.json` -/
structure Document where
  schemaVersion : Nat
  keys : List Key
  deriving DecidableEq

inductive Entry
  | file (data : Bytes)
  | directory (size : Nat)
  deriving DecidableEq

def Entry.size : Entry → Nat
  | .file data => data.length
  | .directory size => size

/-- What is stored of the user. -/
structure Store where
  /-- The user has a row. -/
  user : Bool
  metadata : Option Document
  /-- The other entries of the keys directory, by name. -/
  entries : Dict String Entry

/-- The exceptions the code tells apart. -/
inductive Error
  | os (text : String)
  | storageCorruption (reason : String)
  | passwordRequired (text : String)
  | unsupportedPrivateKey (text : String)
  | ssh (text : String)
  | runtime (text : String)
  | value (text : String)
  | other (text : String)
  deriving DecidableEq

/-- `str(exc)` -/
def Error.text : Error → String
  | .os text | .storageCorruption text | .passwordRequired text | .unsupportedPrivateKey text
  | .ssh text | .runtime text | .value text | .other text => text

abbrev Session := Program Store Error

/-- What `uuid.uuid4()` returns. -/
structure Uuid where
  hex : String
  length : hex.toList.length = 32
  digits : ∀ c ∈ hex.toList, c ∈ "0123456789abcdef".toList

/-- `str(uuid)` -/
def Uuid.str (u : Uuid) : String :=
  let digits := u.hex.toList
  String.ofList (digits.take 8 ++ '-' :: (digits.drop 8).take 4 ++ '-' :: (digits.drop 12).take 4 ++
    '-' :: (digits.drop 16).take 4 ++ '-' :: digits.drop 20)

/-- The libraries that read and encrypt keys, and the limits of the configuration. -/
structure Env where
  /-- `Fernet(key).encrypt`, with its timestamp and its initialization vector. -/
  encrypt : Nat → Bytes → Bytes
  /-- `Fernet(key).decrypt`; `none` is an `InvalidToken`. -/
  decrypt : Bytes → Option Bytes
  urlsafeB64decode : Bytes → Option Bytes
  /-- `key_class.from_private_key`, for the class of that name. -/
  fromPrivateKey : String → String → Except Error Unit
  sshKeyMaxRecords : Nat
  sshKeyStoreMaxBytes : Nat

variable (env : Env)

/-! ## Reading keys -/

def supportedKeyClasses : List String := ["RSA", "Ed25519", "ECDSA"]

/-- The loop of `_parse_private_key`. -/
def parseWith (keyContent : String) : List String → Bool → Except Error String
  | [], passwordRequired =>
    if passwordRequired then
      .error (.passwordRequired "Passphrase-encrypted private keys are not supported")
    else .error (.unsupportedPrivateKey "Unsupported or invalid private key format")
  | keyType :: rest, passwordRequired =>
    match env.fromPrivateKey keyType keyContent with
    | .ok _ => .ok keyType
    | .error (.passwordRequired _) => parseWith keyContent rest true
    | .error (.ssh _) | .error (.unsupportedPrivateKey _) => parseWith keyContent rest passwordRequired
    | .error e => .error e

/-- `identify_private_key` -/
def identifyPrivateKey (keyContent : String) : Except Error String :=
  if strip keyContent = "" then
    .error (.unsupportedPrivateKey "Unsupported or invalid private key format")
  else if "BEGIN DSA PRIVATE KEY".toList <:+: keyContent.toList then
    .error (.unsupportedPrivateKey "DSA private keys are not supported; use Ed25519, ECDSA, or RSA")
  else parseWith env keyContent supportedKeyClasses false

/-- `bytes.isspace()` of one byte. -/
def isSpaceByte (b : UInt8) : Bool := (9 ≤ b && b ≤ 13) || b = 32

/-- `is_encrypted` -/
def isEncrypted (data : Bytes) : Bool :=
  if (encode "-----BEGIN").isPrefixOf (data.dropWhile isSpaceByte) then false
  else if data.length < 50 then false
  else
    match env.urlsafeB64decode data with
    | some (first :: rest) => decide (73 ≤ rest.length + 1) && first = 0x80
    | _ => false

/-- `encrypt_key_content` -/
def encryptKeyContent (nonce : Nat) (keyContent : String) : Bytes :=
  env.encrypt nonce (encode keyContent)

/-- `decrypt_key_content` -/
def decryptKeyContent (encrypted : Bytes) : Except Error String :=
  match env.decrypt encrypted with
  | none => .error (.other "")
  | some plaintext =>
    match decode plaintext with
    | none => .error (.value "invalid start byte")
    | some text => .ok text

/-- `_decode_validated_legacy_key` -/
def decodeValidatedLegacyKey (plaintext : Bytes) : Except Error String :=
  match decode plaintext with
  | none => .error (.value "invalid start byte")
  | some text => do
    let _ ← identifyPrivateKey env text
    .ok text

/-- The content a stored file is read as. -/
def contentOf (data : Bytes) : Except Error String :=
  if isEncrypted env data then decryptKeyContent env data else decodeValidatedLegacyKey env data

/-! ## File operations -/

/-- A call that reads. -/
def query {α : Type} (f : Store → Except Error α) : Session α := call fun _ s => (f s).map (·, s)

/-- `get_user_keys_dir`, which also makes the directory. -/
def getUserKeysDir : Session Bool := query fun s => .ok s.user

/-- `path.lstat()`; `none` is a `FileNotFoundError`. -/
def lstat (name : String) : Session (Option Entry) := query fun s => .ok (s.entries.get? name)

/-- `path.read_bytes()`; `none` is a `FileNotFoundError`. -/
def readBytes (name : String) : Session (Option Bytes) := query fun s =>
  match s.entries.get? name with
  | none => .ok none
  | some (.file data) => .ok (some data)
  | some (.directory _) => .error (.os "Is a directory")

/-- A call that reads nothing of the store and changes nothing of it. -/
def touch : Session PUnit := query fun _ => .ok ⟨⟩

def fsyncParentDirectory : Session PUnit := touch

def osReplace (source destination : String) : Session PUnit := call fun _ s =>
  match s.entries.get? source, s.entries.get? destination with
  | none, _ => .error (.os "No such file or directory")
  | some (.file _), some (.directory _) => .error (.os "Is a directory")
  | some (.directory _), some _ => .error (.os "Not a directory")
  | some entry, _ => .ok (⟨⟩, { s with entries := (s.entries.erase source).set destination entry })

/-- `path.unlink(missing_ok=True)` -/
def unlink (name : String) : Session PUnit := call fun _ s =>
  match s.entries.get? name with
  | some (.directory _) => .error (.os "Is a directory")
  | _ => .ok (⟨⟩, { s with entries := s.entries.erase name })

/-- `atomic_write_bytes` -/
def atomicWriteBytes (name : String) (payload : Bytes) : Session PUnit := call fun _ s =>
  match s.entries.get? name with
  | some (.directory _) => .error (.os "Is a directory")
  | _ => .ok (⟨⟩, { s with entries := s.entries.set name (.file payload) })

/-- The effect of `atomic_write_json` on `keys.json`. -/
def putMetadata (document : Document) (_ : Nat) (s : Store) : Except Error (PUnit × Store) :=
  .ok (⟨⟩, { s with metadata := some document })

end WebSSH.Keys
