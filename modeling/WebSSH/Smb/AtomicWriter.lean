import WebSSH.Smb.Paths
import WebSSH.Smb.Replace

/-!
# The atomic writer of an SMB share

`open_atomic_writer` of `smb_backend.py`, with its session. The caller's block is a tree: what it
does next depends on how its last write has turned out. `SMBProtocolSession.invoke` refuses a call
that changes the share where no mutation guard is held, before anything is sent; the state counts
the guards that are held, and records what has been asked of the server and what it has answered.
-/

namespace WebSSH.Smb.Writer
open Lib Program

/-- The exceptions that are told apart. -/
inductive Error
  | protocol (publicCode : String)
  | os (errno : Nat)
  | backend (message : String)
  | pathRejected (message : String)
  | nonAtomicOverwriteRequired (message : String)
  | fileConflict (message : String)
  | operationCancelled (message : String)
  | other
  deriving DecidableEq

/-- `errno.EEXIST`, `errno.ENOTEMPTY` and `errno.ENOENT`. -/
def eexist : Nat := 17

def enotempty : Nat := 39

def enoent : Nat := 2

structure State where
  /-- What the destination holds, where it is not the file that is written. -/
  original : Option Data
  /-- The file that is written. -/
  temporary : Option File
  /-- The directory handles of `pin_directories`. -/
  handles : Nat
  mutationGuardDepth : Nat
  /-- `remote_file is not None` -/
  remoteFile : Bool
  installed : Bool
  cleanupAllowed : Bool
  /-- `remote_file.closed` -/
  closed : Bool
  /-- `session._closed` -/
  sessionClosed : Bool
  /-- What the server has taken of the writes. -/
  written : Data
  /-- A rename was sent. -/
  renameSent : Bool
  /-- A rename was acknowledged. -/
  renamed : Bool
  /-- Where a query has found the handle. -/
  located : Option Place
  /-- A delete disposition was sent. -/
  deleteSent : Bool
  deriving DecidableEq

namespace State

/-- The destination holds `original`, and nothing was done. -/
def init (original : Option Data) : State where
  original := original
  temporary := none
  handles := 0
  mutationGuardDepth := 0
  remoteFile := false
  installed := false
  cleanupAllowed := true
  closed := false
  sessionClosed := false
  written := []
  renameSent := false
  renamed := false
  located := none
  deleteSent := false

/-- What the destination holds. -/
def content (s : State) : Option Data :=
  match s.temporary with
  | some file => if file.place = some .destination then some file.data else s.original
  | none => s.original

/-- The server takes some bytes of the handle. -/
def append (s : State) (data : Data) : State :=
  { s with
    temporary := s.temporary.map fun file => { file with data := file.data ++ data }
    written := s.written ++ data }

/-- The open file takes the place of what the destination holds. -/
def install (s : State) : State :=
  { s with
    original := none
    temporary := s.temporary.map fun file => { file with place := some .destination } }

def dispose (s : State) : State :=
  { s with temporary := s.temporary.map fun file => { file with pending := true } }

/-- The server closes the handle. -/
def close (s : State) : State :=
  { s with temporary := s.temporary.map Smb.State.File.close }

end State

abbrev Session := Program State Error

/-! ## The session -/

/-- The refusal of `SMBProtocolSession.invoke`, of a call that changes the share. -/
def guarded {α : Type} (x : Session α) : Session α := do
  let s ← Program.get
  if s.mutationGuardDepth < 1 then raise (.protocol "MUTATION_GUARD_REQUIRED") else x

/-- A call that changes nothing. -/
def ask : Session Nat := call fun choice s => .ok (choice, s)

/-- `stat`; the answer says whether there is a reparse point. -/
def stat : Session Bool := do
  let choice ← ask
  return choice = 1

/-- `open_directory_verified`, with the identity. -/
def pinDirectory : Session PUnit := do
  let choice ← ask
  modify fun s => { s with handles := s.handles + 1 }
  if choice = 1 then raise (.protocol "IDENTITY_UNAVAILABLE") else return ⟨⟩

def pinAll : List (List String) → Session PUnit
  | [] => return ⟨⟩
  | _ :: paths => do
    pinDirectory
    pinAll paths

def closeHandles : Nat → Session PUnit
  | 0 => return ⟨⟩
  | n + 1 => do
    let _ ← attempt ask
    closeHandles n

/-- The `finally` of `pin_directories`. -/
def closeDirectories : Session PUnit := do
  let s ← Program.get
  closeHandles s.handles

/-- `create_file_move_verified` -/
def createFileMove : Session PUnit := guarded <| call fun _ s =>
  if s.temporary.isSome then .error (.protocol "CONFLICT")
  else .ok (⟨⟩, { s with temporary := some ⟨some .temporary, false, []⟩ })

/-- `remote_file.write` takes some of the data. -/
def write (data : Data) : Session Nat := call fun count s =>
  .ok (min count data.length, s.append (data.take count))

/-- The server refuses the rename. -/
def State.Occupied (replace : Bool) (s : State) : Prop := s.original.isSome ∧ replace = false

instance (replace : Bool) (s : State) : Decidable (s.Occupied replace) :=
  inferInstanceAs (Decidable (_ ∧ _))

/-- `rename_open_handle_verified`, to the destination. -/
def renameOpenHandle (replace : Bool) : Session PUnit := guarded do
  modify fun s => { s with renameSent := true }
  call fun _ s =>
    if s.Occupied replace then .error (.protocol "CONFLICT") else .ok (⟨⟩, s.install)
  modify fun s => { s with renamed := true }

/-- `open_handle_matches_path_verified` -/
def openHandleMatches (place : Place) : Session Bool := do
  let found ← call fun _ s =>
    .ok (decide (∃ file ∈ s.temporary, file.place = some place), s)
  modify fun s => if found then { s with located := some place } else s
  return found

/-- `delete_open_handle_verified` -/
def deleteOpenHandle : Session PUnit := guarded do
  modify fun s => { s with deleteSent := true }
  call fun _ s => .ok (⟨⟩, s.dispose)

/-- `remote_file.close()`, which marks the handle closed also when the reply is lost. -/
def closeFile : Session PUnit := call fun _ s => .ok (⟨⟩, { s.close with closed := true })

/-- `session.close()`; the server closes what is open. -/
def closeSession : Session PUnit := call fun _ s => .ok (⟨⟩, { s.close with sessionClosed := true })

/-! ## The writer -/

structure Env where
  destination : SMBPath
  /-- `secrets.token_hex(12)` -/
  token : String
  replace : Bool
  /-- `cancel_event is not None` -/
  cancellable : Bool

namespace Env

/-- `destination.name` -/
def name (env : Env) : String := env.destination.segments.getLast?.getD ""

/-- The path of the temporary file. -/
def temporary (env : Env) : Except Error SMBPath :=
  if env.name = "" then .error (.backend "Invalid path")
  else
    let leaf := "." ++ env.name ++ ".webssh-write-" ++ env.token ++ ".tmp"
    (env.destination.parent.child (.str leaf)).mapError .pathRejected

end Env

/-- The block of the caller. -/
inductive Body
  | leave
  | raise (error : Error)
  | abort
  | write (data : Data) (next : Except Error Nat → Body)

def Body.run : Body → Session PUnit
  | .leave => return ⟨⟩
  | .raise error => Program.raise error
  | .abort => Program.abort
  | .write data next => do
    let r ← attempt (Writer.write data)
    (next r).run

/-- The ancestors that `_mutation_guard` pins. -/
def ancestors (paths : List SMBPath) : List (List String) :=
  (paths.flatMap fun path => (List.range' 1 (path.segments.length - 1)).map
    fun index => path.segments.take index).reverse.dedup.reverse

/-- `_is_not_found` -/
def isNotFound : Error → Bool
  | .protocol publicCode => publicCode = "NOT_FOUND"
  | .os errno => errno = enoent
  | _ => false

/-- The loop of `_validate_path_components`, with `allow_missing_leaf=True`. -/
def validateComponents (length : Nat) : List Nat → Session PUnit
  | [] => return ⟨⟩
  | index :: indices => do
    match ← attempt stat with
    | .error error =>
      if index = length ∧ isNotFound error then return ⟨⟩ else raise error
    | .ok true => raise (.backend "Reparse points are not supported")
    | .ok false => validateComponents length indices

def validatePathComponents (path : SMBPath) : Session PUnit :=
  validateComponents path.segments.length (List.range' 1 path.segments.length)

/-- `_open_handle_location` -/
def openHandleLocation : List Place → Session (Option Place)
  | [] => return none
  | place :: places => do
    match ← attempt (openHandleMatches place) with
    | .error _ => return none
    | .ok true => return some place
    | .ok false => openHandleLocation places

/-- `_rename_open_handle_reconciled`; `none` is a location that is not known. -/
def renameReconciled (replace : Bool) : Session (Option Bool × Option Error) := do
  match ← attempt (renameOpenHandle replace) with
  | .ok _ => return (some true, none)
  | .error error =>
    let location ← openHandleLocation [.destination, .temporary]
    if location = some .destination then return (some true, none)
    else if location = some .temporary then return (some false, some error)
    else return (none, some error)

/-- The `except` clause of the installation. -/
def renameFailed (replace : Bool) (error : Error) : Session PUnit :=
  let conflict := Error.fileConflict "Atomic replacement is unavailable"
  if replace then
    match error with
    | .protocol publicCode =>
      if publicCode = "PERMISSION_DENIED" then
        raise (.nonAtomicOverwriteRequired "Atomic replacement requires delete permission")
      else if publicCode ≠ "CONFLICT" then raise error
      else raise conflict
    | .os errno => if errno = eexist ∨ errno = enotempty then raise conflict else raise error
    | _ => raise error
  else raise error

/-- The rename and what it leaves in the local variables. -/
def commit (replace : Bool) : Session PUnit := do
  modify fun s => { s with cleanupAllowed := false }
  let (committed, renameError) ← renameReconciled replace
  if committed = some true then modify fun s => { s with installed := true }
  else do
    modify fun s => { s with cleanupAllowed := committed = some false }
    raise (renameError.getD .other)

/-- `if cancel_event is not None and cancel_event.is_set()` -/
def checkCancelled (env : Env) : Session PUnit :=
  if env.cancellable then do
    let choice ← ask
    if choice = 1 then raise (.operationCancelled "Operation cancelled") else return ⟨⟩
  else return ⟨⟩

/-- The temporary file is created. -/
def create (env : Env) : Session PUnit := do
  validatePathComponents env.destination
  createFileMove
  modify fun s => { s with remoteFile := true }

/-- The block of the caller, and the check that follows it. -/
def fill (env : Env) (body : Body) : Session PUnit := do
  body.run
  checkCancelled env

/-- The temporary file takes the place of the destination. -/
def installFile (env : Env) : Session PUnit :=
  (do
    validatePathComponents env.destination
    commit env.replace : Session PUnit).handle (renameFailed env.replace)

/-- What is done within the mutation guard. -/
def writeGuarded (env : Env) (body : Body) : Session PUnit := do
  create env
  fill env body
  installFile env

/-- `pin_mutation_ancestors`, and what is done within it. -/
def pinMutationAncestors (paths : List (List String)) (x : Session PUnit) : Session PUnit :=
  (do
    pinAll paths
    modify fun s => { s with mutationGuardDepth := s.mutationGuardDepth + 1 }
    x.andFinally fun s =>
      { s with mutationGuardDepth := s.mutationGuardDepth - 1 } : Session PUnit).finallyDo
    closeDirectories

/-- The `except BaseException` clause. The mutation guard has been left by then. -/
def cleanup : Session PUnit := do
  let s ← Program.get
  if s.remoteFile ∧ s.installed = false ∧ s.cleanupAllowed then
    let _ ← attempt deleteOpenHandle
    return ⟨⟩
  else return ⟨⟩

/-- `_close_handle_or_taint_session` -/
def closeHandleOrTaintSession : Session Bool := do
  let closing ← outcome closeFile
  match closing with
  | .ok _ => return false
  | .raised error =>
    let s ← Program.get
    if s.closed then return false
    else
      match ← outcome closeSession with
      | .ok _ => return true
      | _ => raise error
  | .aborted => do
    let s ← Program.get
    if s.closed then abort
    else
      let _ ← outcome closeSession
      abort

/-- The `finally` clause. -/
def closeRemoteFile : Session PUnit := do
  let s ← Program.get
  if s.remoteFile then
    match ← attempt closeHandleOrTaintSession with
    | .ok _ => return ⟨⟩
    | .error error => if s.installed then raise error else return ⟨⟩
  else return ⟨⟩

/-- `open_atomic_writer`, with the block of the caller. -/
def openAtomicWriter (env : Env) (body : Body) : Session PUnit :=
  match env.temporary with
  | .error error => raise error
  | .ok temporary =>
    ((pinMutationAncestors (ancestors [env.destination, temporary]) (writeGuarded env body)).onFailure
      cleanup).finallyDo closeRemoteFile

end WebSSH.Smb.Writer
