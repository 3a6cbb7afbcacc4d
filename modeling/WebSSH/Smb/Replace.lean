import WebSSH.Lib.Program

/-!
# Replacing a file on an SMB share

`_recoverable_replace_guarded` of `smb_backend.py`, with its reconciled renames and its rollback.
The server holds the file that is replaced and the temporary file, each known by the handle it was
opened with; a file whose delete disposition is set goes when its handle is closed. Every call may
fail, before or after it has taken effect; only the closing of the handles does not.
-/

namespace WebSSH.Smb
open Lib Program

abbrev Data := List UInt8

/-- The exceptions `_public_error` tells apart. -/
inductive Failure
  | operationCancelled
  | backend (message : String)
  | sourceChanged
  | fileNotFound
  | permission
  | timeout
  | protocol (publicCode : String)
  | other

def protocolErrors : List (String × String) :=
  [("SOURCE_UNAVAILABLE", "Source unavailable"),
    ("PERMISSION_DENIED", "Permission denied"),
    ("NOT_FOUND", "File or directory not found"),
    ("SHARE_UNAVAILABLE", "Share unavailable"),
    ("CONFLICT", "File conflict"),
    ("TIMEOUT", "SMB operation timed out"),
    ("REPARSE_POINT_REJECTED", "Reparse points are not supported"),
    ("IDENTITY_UNAVAILABLE", "SMB object identity is unavailable"),
    ("MUTATION_GUARD_REQUIRED", "SMB mutation safety check failed")]

/-- `_public_error` -/
def publicError : Failure → String
  | .operationCancelled => "Operation cancelled"
  | .backend message => message
  | .sourceChanged => "File conflict"
  | .fileNotFound => "File or directory not found"
  | .permission => "Permission denied"
  | .timeout => "SMB operation timed out"
  | .protocol code => (protocolErrors.lookup code).getD "SMB operation failed"
  | .other => "SMB operation failed"

/-- The three paths of a replacement. -/
inductive Place
  | destination
  | temporary
  | recovery
  deriving DecidableEq

structure File where
  place : Option Place
  /-- The delete disposition. -/
  pending : Bool
  data : Data
  deriving DecidableEq

/-- The handles: that of the file to be replaced, and that of the temporary file. -/
inductive Handle
  | destination
  | temporary
  deriving DecidableEq

structure State where
  original : File
  temporary : Option File
  /-- `destination_handle is not None` -/
  destinationHandle : Bool
  temporaryHandle : Bool
  replacementInstalled : Bool
  deriving DecidableEq

namespace State

/-- The destination holds `data`. -/
def init (data : Data) : State := ⟨⟨some .destination, false, data⟩, none, false, false, false⟩

def file (s : State) : Handle → Option File
  | .destination => some s.original
  | .temporary => s.temporary

def update (s : State) (f : File → File) : Handle → State
  | .destination => { s with original := f s.original }
  | .temporary => { s with temporary := s.temporary.map f }

def At (s : State) (handle : Handle) (place : Place) : Prop :=
  ∃ file ∈ s.file handle, file.place = some place

instance (s : State) (handle : Handle) (place : Place) : Decidable (s.At handle place) :=
  inferInstanceAs (Decidable (∃ _ ∈ _, _))

def Occupied (s : State) (place : Place) : Prop :=
  s.At .destination place ∨ s.At .temporary place

instance (s : State) (place : Place) : Decidable (s.Occupied place) :=
  inferInstanceAs (Decidable (_ ∨ _))

def move (s : State) (handle : Handle) (place : Place) : State :=
  s.update (fun file => { file with place := some place }) handle

def dispose (s : State) (handle : Handle) : State :=
  s.update (fun file => { file with pending := true }) handle

def File.close (file : File) : File := if file.pending then { file with place := none } else file

/-- The handles are closed. -/
def close (s : State) : State :=
  { s with original := File.close s.original, temporary := s.temporary.map File.close }

end State

abbrev Session := Program State Failure

/-! ## Calls -/

/-- `open_file_move_verified` -/
def openFileMove : Session PUnit := call fun _ s =>
  if s.At .destination .destination then .ok (⟨⟩, s) else .error .fileNotFound

/-- The reading of `_editor_revision_from_handle`. -/
def readHandle : Session Data := call fun _ s => .ok (s.original.data, s)

/-- `_validate_path_components` -/
def validatePathComponents : Session PUnit := call fun _ s => .ok (⟨⟩, s)

/-- `create_file_move_verified` -/
def createFileMove : Session PUnit := call fun _ s =>
  if s.Occupied .temporary then .error (.protocol "CONFLICT")
  else .ok (⟨⟩, { s with temporary := some ⟨some .temporary, false, []⟩ })

/-- `remote_file.write` takes some of the data. -/
def write (data : Data) : Session Nat := call fun count s =>
  .ok (min count data.length,
    s.update (fun file => { file with data := file.data ++ data.take count }) .temporary)

/-- `rename_open_handle_verified`, with `replace=False`. -/
def renameOpenHandle (handle : Handle) (target : Place) : Session PUnit := call fun _ s =>
  if s.Occupied target then .error (.protocol "CONFLICT") else .ok (⟨⟩, s.move handle target)

/-- `open_handle_matches_path_verified` -/
def openHandleMatches (handle : Handle) (place : Place) : Session Bool := call fun _ s =>
  .ok (decide (s.At handle place), s)

/-- `delete_open_handle_verified` -/
def deleteOpenHandle (handle : Handle) : Session PUnit := call fun _ s => .ok (⟨⟩, s.dispose handle)

/-! ## The replacement -/

/-- What the destination, the generated names and the limits are. -/
structure Env where
  name : String
  token : String
  maxEditorFileSize : Nat
  /-- `hashlib.sha256(…).hexdigest()` -/
  sha256 : Data → String

namespace Env

def generatedLeaf (env : Env) (purpose : String) : String :=
  "." ++ env.name ++ ".webssh-" ++ purpose ++ "-" ++ env.token

def temporaryName (env : Env) : String := env.generatedLeaf "write" ++ ".tmp"

def recoveryName (env : Env) : String := env.generatedLeaf "recovery" ++ ".bak"

end Env

structure FileWriteOutcome where
  success : Bool
  error : Option String := none
  code : Option String := none
  warningCode : Option String := none
  recoveryLeaves : List String := []
  revision : Option String := none
  deriving DecidableEq

def editorRevisionFromHandle (env : Env) : Session String := do
  let data ← readHandle
  if env.maxEditorFileSize < data.length then raise (.backend "File too large to edit")
  else return env.sha256 data

/-- `_write_all` -/
def writeAll (data : Data) : Session PUnit :=
  if data = [] then return ⟨⟩
  else do
    let count ← write data
    if _h : count = 0 then raise (.backend "Incomplete file write")
    else writeAll (data.drop count)
termination_by data.length
decreasing_by
  rename_i hdata
  have := List.length_pos_iff.mpr hdata
  rw [List.length_drop]
  omega

/-- `_open_handle_location` -/
def openHandleLocation (handle : Handle) : List Place → Session (Option Place)
  | [] => return none
  | place :: places => do
    match ← attempt (openHandleMatches handle place) with
    | .error _ => return none
    | .ok true => return some place
    | .ok false => openHandleLocation handle places

/-- `_rename_open_handle_reconciled`; `none` is a location that is not known. -/
def renameReconciled (handle : Handle) (source target : Place) :
    Session (Option Bool × Option Failure) := do
  match ← attempt (renameOpenHandle handle target) with
  | .ok _ => return (some true, none)
  | .error error =>
    let location ← openHandleLocation handle [target, source]
    if location = some target then return (some true, none)
    else if location = some source then return (some false, some error)
    else return (none, some error)

/-- `_delete_generated_handle` -/
def deleteGeneratedHandle (handle : Handle) : Session Bool := do
  match ← attempt (deleteOpenHandle handle) with
  | .ok _ => return true
  | .error _ => return false

/-- The location of a handle that was obtained. -/
def locate (obtained : Bool) (handle : Handle) (places : List Place) : Session (Option Place) :=
  if obtained then openHandleLocation handle places else pure none

/-- The temporary file leaves the destination. -/
def moveBack (temporaryLocation : Option Place) : Session (Option Place) := do
  if temporaryLocation = some .destination then
    let (movedBack, _) ← renameReconciled .temporary .destination .temporary
    return if movedBack = some true then some .temporary else none
  else return temporaryLocation

/-- The `try` of `_rollback_interrupted_recoverable_replace`. -/
def rollbackInterrupted : Session PUnit := do
  let s ← Program.get
  let originalLocation ← locate s.destinationHandle .destination [.destination, .recovery]
  let temporaryLocation ← locate s.temporaryHandle .temporary [.destination, .temporary]
  match originalLocation with
  | some .destination =>
    if temporaryLocation = some .temporary then
      let _ ← deleteGeneratedHandle .temporary
      return ⟨⟩
    else return ⟨⟩
  | some .recovery =>
    let temporaryLocation ← moveBack temporaryLocation
    if temporaryLocation ≠ some .temporary then return ⟨⟩
    else
      let (restored, _) ← renameReconciled .destination .recovery .destination
      if restored = some true then
        let _ ← deleteGeneratedHandle .temporary
        return ⟨⟩
      else return ⟨⟩
  | _ => return ⟨⟩

/-- `_rollback_interrupted_recoverable_replace` -/
def rollback : Session PUnit := rollbackInterrupted.catchAll ⟨⟩

def editConflict : FileWriteOutcome where
  success := false
  error := "The file changed on the server. Reopen it before saving."
  code := "EDIT_CONFLICT"

def failed (error : Failure) : FileWriteOutcome where
  success := false
  error := publicError error

/-- An outcome that leaves the files `leaves`. -/
def recoveryRequired (error : String) (leaves : List String) : FileWriteOutcome where
  success := false
  error := error
  code := "SMB_RECOVERY_REQUIRED"
  recoveryLeaves := leaves

/-- The creation and the writing of the temporary file. -/
def writeTemporary (data : Data) : Session PUnit := do
  validatePathComponents
  validatePathComponents
  createFileMove
  modify fun s => { s with temporaryHandle := true }
  writeAll data

/-- What follows the installation. -/
def deleteBackup (env : Env) (data : Data) : Session FileWriteOutcome := do
  modify fun s => { s with replacementInstalled := true }
  if ← deleteGeneratedHandle .destination then
    return { success := true, revision := env.sha256 data }
  else
    return {
      success := true
      warningCode := "SMB_RECOVERY_BACKUP_RETAINED"
      recoveryLeaves := [env.recoveryName]
      revision := env.sha256 data }

/-- The temporary file takes the place of the original, which is at the recovery name. -/
def install (env : Env) (data : Data) : Session FileWriteOutcome := do
  let (installed, _) ← renameReconciled .temporary .temporary .destination
  match installed with
  | some true => deleteBackup env data
  | none =>
    return recoveryRequired "The replacement outcome is uncertain. Manual recovery is required."
      [env.temporaryName, env.recoveryName]
  | some false =>
    let (rolledBack, _) ← renameReconciled .destination .recovery .destination
    if rolledBack ≠ some true then
      return recoveryRequired
        "The replacement and automatic rollback failed. Manual recovery is required."
        [env.temporaryName, env.recoveryName]
    else if ← deleteGeneratedHandle .temporary then
      return {
        success := false
        error := "The replacement failed. The original file was restored."
        code := "SMB_RECOVERABLE_REPLACE_FAILED" }
    else
      return recoveryRequired
        "The original file was restored, but a temporary recovery file remains."
        [env.temporaryName]

/-- The original moves to the recovery name, and then the temporary file to the destination. -/
def exchange (env : Env) (data : Data) : Session FileWriteOutcome := do
  let (committed, renameError) ← renameReconciled .destination .destination .recovery
  match committed with
  | some true => install env data
  | none =>
    return recoveryRequired "The save outcome is uncertain. Manual recovery may be required."
      [env.temporaryName, env.recoveryName]
  | some false =>
    if ← deleteGeneratedHandle .temporary then return failed (renameError.getD .other)
    else
      return recoveryRequired "The save failed and a temporary recovery file remains."
        [env.temporaryName]

/-- The body of the outer `try`. -/
def replaceBody (env : Env) (data : Data) (expectedRevision : Option String) :
    Session FileWriteOutcome := do
  let opened ← attempt do
    openFileMove
    modify fun s => { s with destinationHandle := true }
    editorRevisionFromHandle env
  match opened with
  | .error error => return failed error
  | .ok currentRevision =>
    if expectedRevision = some currentRevision ∧ currentRevision ≠ "" then
      match ← attempt (writeTemporary data) with
      | .ok _ => exchange env data
      | .error error =>
        let s ← Program.get
        if s.temporaryHandle then
          if ← deleteGeneratedHandle .temporary then return failed error
          else
            return recoveryRequired "The save failed and a temporary recovery file remains."
              [env.temporaryName]
        else return failed error
    else return editConflict

/-- `_recoverable_replace_guarded` -/
def recoverableReplace (env : Env) (data : Data) (expectedRevision : Option String) :
    Session FileWriteOutcome :=
  ((replaceBody env data expectedRevision).onFailure do
    let s ← Program.get
    if s.replacementInstalled then return ⟨⟩ else rollback).andFinally State.close

end WebSSH.Smb
