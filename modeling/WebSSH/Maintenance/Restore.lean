import Mathlib.Logic.Function.Basic
import WebSSH.Lib.Program
import WebSSH.Lib.System

/-!
# Restores and their maintenance status

`maintenance_mode.py`, `_perform_restore` of `restore_service.py`, `backup_restore` of `cli.py`,
`sanitize_restored_authentication_state` and the cleanup of `backup_operations.py`. Every status
write, file operation and restore step is a call that may raise or be the last one before a crash,
before or after it has taken effect.
-/

namespace WebSSH.Maintenance
open Lib Function

/-! ## The data directory -/

/-- The rows of `_TRANSIENT_TABLES` that a login is continued with. -/
inductive Kind
  | authenticationSession
  | pendingAuthentication
  | stepUpGrant
  | oauthState
  deriving DecidableEq, Repr

/-- A row; the epoch is that of the browser session that presents it. -/
structure Row where
  kind : Kind
  token : Nat
  userId : Nat
  authGeneration : Nat
  epoch : Nat
  deriving DecidableEq, Repr

/-- What the data directory holds. -/
structure Data where
  /-- The transient rows of `app.db`. -/
  rows : List Row
  authGeneration : Nat → Nat
  /-- Everything else in `app.db`. -/
  database : Nat
  /-- `session_epoch` -/
  epoch : Nat
  /-- All other files. -/
  files : Nat

/-- The server accepts the row, or goes on to its further checks. -/
def Data.Accepts (data : Data) (row : Row) : Prop :=
  row ∈ data.rows ∧ (row.kind = .authenticationSession →
    row.authGeneration = data.authGeneration row.userId ∧ row.epoch = data.epoch)

instance (data : Data) (row : Row) : Decidable (data.Accepts row) :=
  inferInstanceAs (Decidable (_ ∧ _))

/-! ## The status file -/

/-- `_KNOWN_STATES` -/
inductive StateName
  | preparing
  | inProgress
  | succeeded
  | failed
  | rollbackFailed
  deriving DecidableEq, Repr

/-- A valid status document, without its time. The rollback reference is the directory of an
operation. -/
structure Document where
  state : StateName
  operationId : Option String
  dataFingerprint : Option String
  rollbackRelative : Option String
  message : String
  valid_inProgress : state = .inProgress → dataFingerprint.isSome ∧ rollbackRelative.isSome
  valid_preparing : state = .preparing → dataFingerprint.isSome

inductive StatusFile
  | missing
  /-- No valid document. -/
  | unreadable
  | document (document : Document)

/-- `state in {'preparing', 'in_progress', 'rollback_failed'}` -/
def StateName.isActive : StateName → Bool
  | preparing | inProgress | rollbackFailed => true
  | succeeded | failed => false

structure State where
  data : Data
  file : StatusFile
  /-- `_state` of the running process. -/
  cached : Option Document
  /-- The complete `rollback.zip` of an operation's directory. -/
  rollback : String → Option Data
  /-- The epochs that have been drawn. -/
  epochs : Nat
  /-- Every row that was in an archive, or in the data directory when its database was replaced. -/
  replaced : List Row

/-- The programs raise no error that is looked at. -/
abbrev Run (α : Type) := Program State Unit α

/-- A step outside the state that may raise or be the last one. -/
def external : Run Unit := Program.call fun _ s => .ok ((), s)

/-- A step with an effect. -/
def effect (f : State → State) : Run Unit := Program.call fun _ s => .ok ((), f s)

/-- `_unreadable_status` -/
def unreadableStatus : Document where
  state := .rollbackFailed
  operationId := none
  dataFingerprint := none
  rollbackRelative := none
  message := "Restore status is unreadable"
  valid_inProgress := nofun
  valid_preparing := nofun

/-- What `_read` makes of the file; it keeps a valid document. A read may fail. -/
def readFile (choice : Nat) (s : State) : Option Document × State :=
  match s.file, choice with
  | .missing, _ => (none, s)
  | .document document, 0 => (some document, { s with cached := some document })
  | _, _ => (some unreadableStatus, s)

/-- `_read` -/
def read : Run (Option Document) := do
  let s ← Program.get
  match s.cached with
  | some document => pure (some document)
  | none => Program.call fun choice s => .ok (readFile choice s)

/-- `is_active` -/
def isActive : Run Bool := do
  let document ← read
  pure (document.any fun document => document.state.isActive)

/-- `_write`: the file is replaced before the process knows it. -/
def write (document : Document) : Run Unit := do
  effect fun s => { s with file := .document document }
  Program.modify fun s => { s with cached := some document }

variable (fingerprint : String)

def beginPreparing (operationId : String) : Run Unit :=
  write {
    state := .preparing
    operationId := operationId
    dataFingerprint := fingerprint
    rollbackRelative := none
    message := "Preparing restore safety snapshot"
    valid_inProgress := nofun
    valid_preparing := fun _ => rfl }

def markInProgress (operationId rollbackRelative : String) : Run Unit :=
  write {
    state := .inProgress
    operationId := operationId
    dataFingerprint := fingerprint
    rollbackRelative := rollbackRelative
    message := "Restoring persistent state"
    valid_inProgress := fun _ => ⟨rfl, rfl⟩
    valid_preparing := nofun }

def markSucceeded (operationId : String) : Run Unit :=
  write {
    state := .succeeded
    operationId := operationId
    dataFingerprint := none
    rollbackRelative := none
    message := "Restore completed; application restart requested"
    valid_inProgress := nofun
    valid_preparing := nofun }

/-- `mark_failed` -/
def markFailed (operationId message : String) : Run Unit :=
  write {
    state := .failed
    operationId := operationId
    dataFingerprint := none
    rollbackRelative := none
    message := message
    valid_inProgress := nofun
    valid_preparing := nofun }

/-- `mark_failed` with `rollback_failed`, which keeps what the operation's own status refers to. -/
def markRollbackFailed (operationId message : String) : Run Unit := do
  let previous ← read
  let own := previous.filter fun document => document.operationId = some operationId
  write {
    state := .rollbackFailed
    operationId := operationId
    dataFingerprint := own.bind Document.dataFingerprint
    rollbackRelative := own.bind Document.rollbackRelative
    message := message
    valid_inProgress := nofun
    valid_preparing := nofun }

/-! ## Restoring an archive -/

/-- The database of the archive is copied. -/
def replaceDatabase (archive : Data) (s : State) : State :=
  { s with
    data := { s.data with
      rows := archive.rows
      authGeneration := archive.authGeneration
      database := archive.database }
    replaced := s.replaced ++ s.data.rows ++ archive.rows }

/-- The other files of the archive are copied. -/
def replaceFiles (archive : Data) (s : State) : State :=
  { s with data := { s.data with epoch := archive.epoch, files := archive.files } }

/-- The database is put back. -/
def putBackDatabase (before s : State) : State :=
  { s with
    data := { s.data with
      rows := before.data.rows
      authGeneration := before.data.authGeneration
      database := before.data.database } }

def putBackFiles (before s : State) : State :=
  { s with data := { s.data with epoch := before.data.epoch, files := before.data.files } }

/-- `restore_backup` of an archive, which is none if there is no such file or it is not accepted. The
rollback of the restore goes on after an error. -/
def restoreBackup (archive : Option Data) : Run Unit := do
  external
  match archive with
  | none => Program.raise ()
  | some archive =>
    let before ← Program.get
    Program.handle
      (do
        effect (replaceDatabase archive)
        effect (replaceFiles archive))
      (fun _ => do
        let _ ← (effect (putBackDatabase before)).attempt
        let _ ← (effect (putBackFiles before)).attempt
        Program.raise ())
    external

/-- `sanitize_restored_authentication_state` -/
def sanitize (s : State) : State :=
  { s with data := { s.data with
      rows := []
      authGeneration := fun userId => s.data.authGeneration userId + 1 } }

/-- `rotate_epoch` -/
def rotateEpoch (s : State) : State :=
  { s with data := { s.data with epoch := s.epochs }, epochs := s.epochs + 1 }

/-- What all restore paths do. -/
def restoreAndSanitize (archive : Option Data) : Run Unit := do
  restoreBackup archive
  effect sanitize
  effect rotateEpoch

/-! ## The web restore -/

/-- What comes before the rollback archive is available. -/
def prepare (operationId : String) : Run Unit := do
  external
  beginPreparing fingerprint operationId
  -- The runtime, the SSH sessions and the database connections are closed.
  external
  effect fun s => { s with rollback := update s.rollback operationId (some s.data) }

/-- What comes after it. -/
def proceed (operationId : String) (archive : Data) : Run Unit := do
  markInProgress fingerprint operationId operationId
  restoreAndSanitize (some archive)
  markSucceeded operationId
  -- `log_security_event`
  external

/-- `backup_operations.remove` -/
def remove (operationId : String) : Run Unit :=
  effect fun s => { s with rollback := update s.rollback operationId none }

/-- The `finally` of a program that has ended or raised. -/
def finish {α : Type} (result : Except Unit α) (cleanup : Run Unit) : Run α := do
  cleanup
  match result with
  | .ok a => pure a
  | .error e => Program.raise e

/-- The emergency rollback. -/
def rollBack (operationId : String) : Run Unit := do
  let s ← Program.get
  restoreAndSanitize (s.rollback operationId)

/-- `_perform_restore` -/
def performRestore (operationId : String) (archive : Data) : Run Unit := do
  match ← (prepare fingerprint operationId).attempt with
  | .error _ =>
    let result ← (do
      markFailed operationId "Restore failed before persistent state changed"
      external).attempt
    finish result (remove operationId)
  | .ok _ =>
    match ← (proceed fingerprint operationId archive).attempt with
    | .ok _ => remove operationId
    | .error _ =>
      match ← (rollBack operationId).attempt with
      | .ok _ =>
        let result ← (do
          markFailed operationId "Restore failed; original state was restored"
          external).attempt
        finish result (remove operationId)
      | .error _ =>
        markRollbackFailed operationId
          "Restore failed and emergency rollback failed; use CLI recovery"
        external

/-! ## The command line -/

/-- `clear_failed_status_after_cli_restore` -/
def clearFailedStatusAfterCliRestore : Run Unit := do
  let document ← read
  if document.any fun document => document.state = .rollbackFailed then
    effect fun s => { s with file := .missing }
    Program.modify fun s => { s with cached := none }

/-- The `try` of `backup_restore`. -/
def cliRestore (archive : Data) : Run Unit := do
  external
  restoreAndSanitize (some archive)

/-- `backup_restore` -/
def backupRestore (archive : Data) : Run Unit := do
  cliRestore archive
  clearFailedStatusAfterCliRestore
  external

/-! ## The start of the server -/

/-- `recover_interrupted_restore` -/
def recoverInterruptedRestore : Run Unit := do
  match ← read with
  | none => pure ()
  | some document =>
    let operationId := document.operationId.getD "unknown"
    if document.state = .preparing ∨ document.state = .inProgress then
      if document.dataFingerprint ≠ some fingerprint then
        markRollbackFailed operationId "Interrupted restore belongs to another data directory"
      else if document.state = .preparing then
        markFailed operationId "Restore stopped before persistent state changed"
      else
        match document.rollbackRelative with
        | none =>
          markRollbackFailed operationId "Interrupted restore has no safe rollback reference"
        | some relative =>
          Program.handle
            (do
              external
              let s ← Program.get
              restoreAndSanitize (s.rollback relative)
              markFailed operationId "Interrupted restore rolled back automatically")
            (fun _ => markRollbackFailed operationId
              "Interrupted restore rollback failed; use the CLI recovery path")
    else pure ()

/-- `protected_operation_directory_name` -/
def protectedOperationDirectoryName : Run (Option String) := do
  match ← read with
  | some document =>
    pure (if document.state = .rollbackFailed then document.operationId else none)
  | none => pure none

/-- The directories of all other operations are removed. -/
def removeOrphans (protectedName : Option String) (s : State) : State :=
  { s with
    rollback := fun operationId =>
      if some operationId = protectedName then s.rollback operationId else none }

/-- `cleanup_orphans` -/
def cleanupOrphans : Run Unit := do
  let protectedName ← protectedOperationDirectoryName
  let active ← isActive
  if active ∧ protectedName.isNone then pure ()
  else
    effect (removeOrphans protectedName)

/-- The start of the server; it serves requests unless maintenance is active. -/
def startServer : Run Bool := do
  recoverInterruptedRestore fingerprint
  let active ← isActive
  if active then pure false
  else
    cleanupOrphans
    pure true

/-! ## All processes -/

structure World where
  state : State
  /-- The restarted server serves requests. -/
  serving : Bool

inductive Action
  | webRestore (operationId : String) (archive : Data) (script : Script Unit)
  | cliRestore (archive : Data) (script : Script Unit)
  | start (script : Script Unit)
  /-- The server stops or crashes. -/
  | stop
  /-- A login, or a step of one, adds a row. -/
  | login (row : Row)
  /-- A row is used up or revoked. -/
  | revoke (row : Row)
  /-- `public_status` removes a finished status that is old. -/
  | expire

/-- A new process. -/
def State.fresh (s : State) : State := { s with cached := none }

/-- A program is run on a state. -/
def runOn {α : Type} (x : Run α) (s : State) (script : Script Unit) :
    Result Unit α × Trace State :=
  x script ⟨s, [s], 0⟩

/-- What is left when a program has ended, raised or crashed. -/
def after {α : Type} (x : Run α) (s : State) (script : Script Unit) : State :=
  (runOn x s script).2.state

/-- The process has ended with the value. -/
def returned {α : Type} [DecidableEq α] (x : Run α) (s : State) (script : Script Unit) (a : α) :
    Bool :=
  match (runOn x s script).1 with
  | .ok b => b = a
  | _ => false

def step (w : World) : Action → Option World
  | .webRestore operationId archive script =>
    if w.serving then
      some ⟨after (performRestore fingerprint operationId archive) w.state script, false⟩
    else none
  | .cliRestore archive script =>
    if w.serving then none
    else some ⟨after (backupRestore archive) w.state.fresh script, false⟩
  | .start script =>
    if w.serving then none
    else some ⟨after (startServer fingerprint) w.state.fresh script,
      returned (startServer fingerprint) w.state.fresh script true⟩
  | .stop => some { w with serving := false }
  | .login row =>
    if w.serving ∧ row ∉ w.state.replaced then
      some { w with state.data.rows := row :: w.state.data.rows }
    else none
  | .revoke row =>
    if w.serving then some { w with state.data.rows := w.state.data.rows.filter (· ≠ row) } else none
  | .expire =>
    match w.serving, w.state.file with
    | true, .document document =>
      if document.state.isActive then none
      else some { w with state.file := .missing, state.cached := none }
    | _, _ => none

/-- The server has begun to serve with no restore behind it. -/
structure Starts (w : World) : Prop where
  serving : w.serving = true
  replaced : w.state.replaced = []

/-- All runs of the processes, whatever raises and wherever one crashes. -/
def system : System World Action where
  Init := Starts
  Step w a v := step fingerprint w a = some v

/-- No row of an archive, or of a directory that was replaced, is accepted. -/
def NoneRevived (w : World) : Prop :=
  w.serving = true → ∀ row ∈ w.state.replaced, ¬ w.state.data.Accepts row

end WebSSH.Maintenance
