import Mathlib
import WebSSH.Lib.Except
import WebSSH.Lib.Fields
import WebSSH.Lib.Latin1

/-!
# Files of known hosts

`_load_strict`, `add_file_entry` and what they call of `host_key_store.py`. What `paramiko`, `base64`
and `str.casefold` compute is given by a `Library`.
-/

namespace WebSSH.HostKeys
open Lib Python Text

structure Library (Key : Type) where
  /-- `PKey.from_type_string(key_type, decodebytes(key))`, which is none for an unknown type. -/
  fromTypeString : List Char → List Char → Except String (Option Key)
  /-- `key.get_name()` -/
  name : Key → List Char
  casefold : List Char → List Char
  /-- `len(base64.b64decode(text, validate=True))` -/
  decodedLength : List Char → Option Nat

/-- `HostKeyEntry` -/
structure HostKeyEntry (Key : Type) where
  hostnames : List (List Char)
  key : Key
  deriving DecidableEq

/-- `_ParsedHostKeyFile` -/
structure ParsedHostKeyFile (Key : Type) where
  trusted : List (HostKeyEntry Key)
  revoked : List (HostKeyEntry Key)
  deriving DecidableEq

variable {Key : Type} (lib : Library Key)

/-! ## Entries -/

/-- The separators of `re.split(r'[ \t]+', line)`; the line has been stripped. -/
def isSeparator (c : Char) : Bool := c = ' ' || c = '\t'

def fields (line : List Char) : List (List Char) := fieldsBy isSeparator line

/-- A first field that begins with `@` is taken from the others. -/
def takeMarker : List (List Char) → Option (List Char) × List (List Char)
  | field :: rest => if field.head? = some '@' then (some field, rest) else (none, field :: rest)
  | [] => (none, [])

def revokedMarker : List Char := "@revoked".toList
def certAuthorityMarker : List Char := "@cert-authority".toList

/-- `HostKeyEntry.from_line(' '.join(fields[:3]))` -/
def fromLine : List (List Char) → Except String (Option (HostKeyEntry Key))
  | hosts :: keyType :: data :: _ =>
    (lib.fromTypeString keyType data).map (Option.map (HostKeyEntry.mk (hosts.splitOn ',')))
  | _ => .ok none

/-- `_host_pattern_is_valid` -/
def hostPatternIsValid (hostPattern : List Char) : Bool :=
  let pattern := if hostPattern.head? = some '!' then hostPattern.tail else hostPattern
  if pattern = [] then false
  else if pattern.head? ≠ some '|' then true
  else
    match pattern.splitOn '|' with
    | [[], ['1'], salt, digest] => lib.decodedLength salt = some 20 && lib.decodedLength digest = some 20
    | _ => false

/-- The patterns are checked after the line has been read. -/
def validEntry (fields : List (List Char)) : Except String (HostKeyEntry Key) :=
  match fromLine lib fields with
  | .ok (some entry) =>
    if entry.hostnames ≠ [] ∧ entry.hostnames.all (hostPatternIsValid lib) then .ok entry
    else .error "Invalid known_hosts entry"
  | _ => .error "Invalid known_hosts entry"

/-! ## Loading -/

/-- What a line of the file holds. -/
inductive Line (Key : Type)
  | skipped
  | certAuthority
  | revoked (entry : HostKeyEntry Key)
  | trusted (entry : HostKeyEntry Key)

/-- A stripped line that is passed over. -/
def isSkipped (line : List Char) : Bool := line = [] || line.head? = some '#'

def marked (marker : Option (List Char)) (entry : HostKeyEntry Key) : Line Key :=
  if marker = some certAuthorityMarker then .certAuthority
  else if marker = some revokedMarker then .revoked entry
  else .trusted entry

/-- A line, or the error without its number. -/
def readLine (rawLine : List Char) : Except String (Line Key) :=
  let line := trim rawLine
  if isSkipped line then .ok .skipped
  else do
    let (marker, fields) := takeMarker (fields line)
    raiseIf (∃ m ∈ marker, m ≠ revokedMarker ∧ m ≠ certAuthorityMarker)
      "Unsupported known_hosts marker"
    raiseIf (fields.length < 3) "Invalid known_hosts entry"
    let entry ← validEntry lib fields
    return marked marker entry

/-- The entries of a line before those of the lines after it. -/
def Line.before : Line Key → ParsedHostKeyFile Key → ParsedHostKeyFile Key
  | skipped, parsed | certAuthority, parsed => parsed
  | revoked entry, parsed => { parsed with revoked := entry :: parsed.revoked }
  | trusted entry, parsed => { parsed with trusted := entry :: parsed.trusted }

/-- The loop over the lines, from this number on. -/
def loadLines (lineNumber : Nat) : List (List Char) → Except String (ParsedHostKeyFile Key)
  | [] => .ok ⟨[], []⟩
  | rawLine :: rest => do
    let line ← (readLine lib rawLine).mapError fun message => s!"{message} on line {lineNumber}"
    let parsed ← loadLines (lineNumber + 1) rest
    return line.before parsed

def loadStrict (raw : Bytes) : Except String (ParsedHostKeyFile Key) :=
  match decode raw with
  | none => .error "Invalid Unicode in known_hosts"
  | some text => loadLines lib 1 (splitlines text.toList)

/-- `_load_or_empty`; none stands for a missing file. -/
def loadOrEmpty : Option Bytes → Except String (ParsedHostKeyFile Key)
  | none => .ok ⟨[], []⟩
  | some raw => loadStrict lib raw

theorem loadOrEmpty_encode (text : String) :
    loadOrEmpty lib (some (encode text)) = loadLines lib 1 (splitlines text.toList) := by
  rw [loadOrEmpty, loadStrict, decode_encode]

/-! ## Adding an entry -/

/-- `_host_identity_token` -/
def hostIdentityToken (hostPattern : List Char) : List Char :=
  let negated := hostPattern.head? = some '!'
  let pattern := if negated then hostPattern.tail else hostPattern
  let pattern := if "|1|".toList.isPrefixOf pattern then pattern else lib.casefold pattern
  if negated then '!' :: pattern else pattern

/-- The lines of `bytes.splitlines()`. -/
def byteLinesFrom (line : Bytes) : Bytes → List Bytes
  | [] => if line = [] then [] else [line]
  | 13 :: 10 :: rest => line :: byteLinesFrom [] rest
  | b :: rest => if b = 10 ∨ b = 13 then line :: byteLinesFrom [] rest else byteLinesFrom (line ++ [b]) rest

/-- Named, so that no definition of this module carries a proof of it. -/
local instance tokenLawful : LawfulBEq (List Char) := inferInstance

/-- What the new entry is refused for because of a line of the file. -/
def conflict [DecidableEq Key] (marker : Option (List Char)) (entry : HostKeyEntry Key) (rawLine : Bytes) :
    Except String (Option String) :=
  match decode rawLine with
  | none => .error "Invalid Unicode in known_hosts"
  | some text =>
    let line := trim text.toList
    if isSkipped line then .ok none
    else
      let (existingMarker, existingFields) := takeMarker (fields line)
      match fromLine lib existingFields with
      | .error e => .error e
      | .ok none => .error "'NoneType' object has no attribute 'hostnames'"
      | .ok (some existing) =>
        let tokens := entry.hostnames.map (hostIdentityToken lib)
        let overlappingHosts := existing.hostnames.any fun host => hostIdentityToken lib host ∈ tokens
        if overlappingHosts ∧ existingMarker = marker ∧ lib.name existing.key = lib.name entry.key then
          if existing.key = entry.key then .ok (some "Host key entry already exists")
          else .ok (some ("A different key already exists for this host and algorithm; " ++
            "verify and remove it first"))
        else .ok none

/-- The first line that the new entry is refused for. -/
def findConflict [DecidableEq Key] (marker : Option (List Char)) (entry : HostKeyEntry Key) :
    List Bytes → Except String (Option String)
  | [] => .ok none
  | rawLine :: rest => do
    match ← conflict lib marker entry rawLine with
    | some message => return some message
    | none => findConflict marker entry rest

/-- What `_management_entry` tells of a line; none for a line that is passed over. -/
def managementEntry (rawLine : List Char) :
    Except String (Option (Option (List Char) × HostKeyEntry Key)) :=
  let line := trim rawLine
  if isSkipped line then .ok none
  else do
    let (marker, fields) := takeMarker (fields line)
    raiseIf (fields.length < 3) "Invalid known_hosts entry"
    match fromLine lib fields with
    | .ok (some entry) =>
      raiseIf (entry.hostnames = []) "Invalid known_hosts entry"
      return some (marker, entry)
    | _ => throw "Invalid known_hosts entry"

/-- `' '.join(([marker] if marker else []) + fields[:3])` -/
def canonicalLine (marker : Option (List Char)) (fields : List (List Char)) : List Char :=
  [' '].intercalate (marker.toList ++ fields.take 3)

/-- What `add_file_entry` returns. -/
inductive Added (Key : Type)
  /-- `None` and the text of an error. -/
  | refused (message : String)
  /-- The management entry, no error, and the file as it has been written. -/
  | added (candidate : Option (Option (List Char) × HostKeyEntry Key)) (file : Bytes)
  deriving DecidableEq

/-- The new entry, with its marker and its fields. -/
def parseValue (value : String) :
    Except String (Option (List Char) × List (List Char) × HostKeyEntry Key) :=
  if value = "" ∨ 16384 < (encode value).length ∨ '\n' ∈ value.toList ∨ '\r' ∈ value.toList then
    .error "Enter exactly one known_hosts entry"
  else
    let (marker, fields) := takeMarker (fields (trim value.toList))
    if (marker ≠ none ∧ marker ≠ some revokedMarker) ∨ fields.length < 3 then
      .error "Invalid or unsupported known_hosts entry"
    else (validEntry lib fields).map fun entry => (marker, fields, entry)

/-- The file with a line after its last one. -/
def appendLine (raw : Bytes) (line : List Char) : Bytes :=
  let start := if raw ≠ [] ∧ raw.getLast? ≠ some 10 then raw ++ [10] else raw
  start ++ Utf8.encodeChars line ++ [10]

/-- An error is one that is raised. -/
def addFileEntry [DecidableEq Key] (file : Option Bytes) (value : String) :
    Except String (Added Key) :=
  match parseValue lib value with
  | .error message => .ok (.refused message)
  | .ok (marker, fields, entry) => do
    let canonical := canonicalLine marker fields
    let candidate ← managementEntry lib canonical
    let raw := file.getD []
    let _ ← loadOrEmpty lib file
    match ← findConflict lib marker entry (byteLinesFrom [] raw) with
    | some message => return .refused message
    | none => return .added candidate (appendLine raw canonical)

end WebSSH.HostKeys
