import WebSSH.Lib.System
import Mathlib.Logic.Function.Basic

/-!
# The transfer client of the browser

`BinaryTransferClient` of `binary-transfer-client.js`. JavaScript runs to the next `await`, so a
step is what one callback does; where an operation waits is its program counter. The listeners
that `emit` calls may call the client again. What the source does after such a point is a `Task`
of its own, and tasks run in any order: the runs of the model contain all those of the source.
Transfers are numbered in the order in which they are enqueued.
-/

namespace WebSSH.Client
open Lib

inductive Kind
  /-- `upload` -/
  | upload
  /-- `download`, of a file or a folder -/
  | download
  /-- `downloadToWritable` -/
  | writable
  deriving DecidableEq, Repr

inductive Event
  | start
  | progress
  | cancelling
  | complete
  | cancel
  | skip
  | error
  deriving DecidableEq, Repr

def Event.terminal : Event → Bool
  | complete | cancel | skip | error => true
  | start | progress | cancelling => false

/-- Where the operation of a transfer is. -/
inductive Pc
  | queued
  /-- Started by `drainQueue`; its microtask has not run yet. -/
  | scheduled
  /-- `await this.prepare(..)` -/
  | preparing
  /-- The anchor of a native download is about to be clicked. -/
  | navigating
  /-- `await fetch(..)` -/
  | fetching
  /-- `await this.responseFailure(response)` -/
  | readingFailure
  /-- `await transfer.onConflict(..)` -/
  | deciding
  /-- `await sinkFactory()` -/
  | sinking
  /-- `await response.body.pipeTo(..)` -/
  | piping
  /-- `await writable?.abort?.()` -/
  | aborting
  | returned
  deriving DecidableEq, Repr

structure Transfer where
  kind : Kind
  transferId : Option String
  terminalized : Bool
  slotReleased : Bool
  prepareStarted : Bool
  cancelRequested : Bool
  cancelSent : Bool
  serverFinished : Bool
  started : Bool
  /-- `conflictPolicy` is `'replace'`. -/
  replacing : Bool
  pc : Pc
  deriving DecidableEq, Repr

def Transfer.new (kind : Kind) : Transfer :=
  ⟨kind, none, false, false, false, false, false, false, false, false, .queued⟩

/-- What is left to do after listeners have run, and the microtask of `releaseSlot`. -/
inductive Task
  | releaseSlot (i : Nat)
  | cancelPrepared (i : Nat)
  | drainQueue
  deriving DecidableEq, Repr

structure State where
  transfers : Nat → Transfer
  created : Nat
  activeTransfers : List Nat
  operationQueue : List Nat
  activeOperation : Option Nat
  tasks : List Task
  /-- The `cancel_transfer` messages that are not acknowledged. -/
  acks : List Nat
  /-- The `cancel_transfer` messages sent. -/
  sent : List (Nat × String)
  /-- The calls of `emit`, in order. -/
  log : List (Nat × Event)
  /-- The transfers `drainQueue` has made the active operation, in order. -/
  begun : List Nat
  /-- The slots released, in order. -/
  released : List Nat

def State.init : State where
  transfers _ := .new .upload
  created := 0
  activeTransfers := []
  operationQueue := []
  activeOperation := none
  tasks := []
  acks := []
  sent := []
  log := []
  begun := []
  released := []

inductive CancelAck
  /-- `success === true` and `state === 'cancelled'` -/
  | cancelled
  /-- `state === 'unavailable'` -/
  | unavailable
  | other
  deriving DecidableEq, Repr

inductive FinishedStatus
  | completed
  | cancelled
  /-- Any other status; `conflict` says whether its error code is `CONFLICT`. -/
  | failed (conflict : Bool)
  deriving DecidableEq, Repr

inductive Response
  | ok
  | notOk
  /-- `fetch` rejects: a network error or an abort. -/
  | rejected
  deriving DecidableEq, Repr

inductive Decision
  | replace
  | skip
  | cancel
  /-- `onConflict` rejects. -/
  | rejected
  deriving DecidableEq, Repr

namespace State

def set (s : State) (i : Nat) (t : Transfer) : State :=
  { s with transfers := Function.update s.transfers i t }

def setPc (s : State) (i : Nat) (pc : Pc) : State := s.set i { s.transfers i with pc := pc }

def emit (s : State) (i : Nat) (event : Event) : State := { s with log := s.log ++ [(i, event)] }

def defer (s : State) (task : Task) : State := { s with tasks := s.tasks ++ [task] }

def releaseSlot (s : State) (i : Nat) : State :=
  if (s.transfers i).slotReleased then s
  else
    { s.set i { s.transfers i with slotReleased := true } with
      activeTransfers := s.activeTransfers.erase i
      operationQueue := s.operationQueue.filter (· ≠ i)
      activeOperation := if s.activeOperation = some i then none else s.activeOperation
      tasks := s.tasks ++ [.drainQueue]
      released := s.released ++ [i] }

/-- `finalize(transfer, status, options)`, with the event its status emits. -/
def finalize (s : State) (i : Nat) (event : Event) (deferRelease : Bool) : State :=
  if (s.transfers i).terminalized then s
  else
    let s := (s.set i { s.transfers i with terminalized := true }).emit i event
    if deferRelease then s else s.defer (.releaseSlot i)

def failOperation (s : State) (i : Nat) : State :=
  let t := s.transfers i
  let deferRelease := s.activeOperation = some i && t.transferId.isSome && !t.serverFinished
  let s := s.finalize i .error deferRelease
  if deferRelease then s.defer (.cancelPrepared i) else s

/-- `cancelPreparedTransfer(transfer)`; `throws` says whether `socket.emit` throws. -/
def cancelPreparedTransfer (s : State) (i : Nat) (throws : Bool) : State :=
  let t := s.transfers i
  match t.transferId with
  | none => s
  | some id =>
    if t.cancelSent then s
    else
      let s := s.set i { t with cancelSent := true }
      if throws then
        if t.terminalized then s.releaseSlot i else s.finalize i .error false
      else { s with acks := s.acks ++ [i], sent := s.sent ++ [(i, id)] }

/-- The loop of `drainQueue`, which takes at most `n` transfers off the queue. -/
def drainLoop : Nat → State → State
  | 0, s => s
  | n + 1, s =>
    match s.operationQueue with
    | [] => s
    | i :: rest =>
      let s := { s with operationQueue := rest }
      if (s.transfers i).terminalized then drainLoop n (s.releaseSlot i)
      else { s.setPc i .scheduled with activeOperation := some i, begun := s.begun ++ [i] }

def drainQueue (s : State) : State :=
  if s.activeOperation.isSome then s else drainLoop s.operationQueue.length s

/-- `createTransfer(..)` and `enqueue(..)` -/
def enqueue (s : State) (kind : Kind) : State :=
  drainQueue { s.set s.created (.new kind) with
    created := s.created + 1
    activeTransfers := s.activeTransfers ++ [s.created]
    operationQueue := s.operationQueue ++ [s.created] }

def cancelTransfer (s : State) (i : Nat) : State :=
  let t := s.transfers i
  if i ∉ s.activeTransfers ∨ t.terminalized ∨ t.cancelRequested then s
  else
    let s := s.set i { t with cancelRequested := true }
    if !t.prepareStarted || t.serverFinished then s.finalize i .cancel false
    else (s.emit i .cancelling).defer (.cancelPrepared i)

/-! ## Socket events -/

def cancelAcknowledged (s : State) (i : Nat) (ack : CancelAck) : State :=
  let s := { s with acks := s.acks.erase i }
  if (s.transfers i).terminalized then s.releaseSlot i
  else
    match ack with
    | .cancelled => s.finalize i .cancel false
    | .unavailable => s.finalize i .error false
    | .other => s

/-- The listener of `transfer_finished`. -/
def transferFinished (s : State) (id : String) (status : FinishedStatus) : State :=
  match s.activeTransfers.find? fun i => (s.transfers i).transferId = some id with
  | none => s
  | some i =>
    let t := s.transfers i
    if t.terminalized then s
    else
      match status with
      | .completed =>
        if t.kind = .writable then s.set i { t with serverFinished := true }
        else s.finalize i .complete false
      | .cancelled => s.finalize i .cancel false
      | .failed conflict =>
        if conflict && t.kind = .upload then s.set i { t with serverFinished := true }
        else s.finalize i .error false

/-- One turn of the loop in the listener of `transfer_progress`. -/
def transferProgress (s : State) (i : Nat) (id : String) : State :=
  let t := s.transfers i
  if i ∉ s.activeTransfers ∨ t.transferId ≠ some id ∨ t.terminalized then s
  else s.emit i .progress

/-! ## The operations -/

/-- The last part of the `catch` blocks. -/
def catchError (s : State) (i : Nat) : State :=
  let t := s.transfers i
  let s :=
    if t.terminalized then if t.transferId = none then s.releaseSlot i else s
    else if t.cancelRequested then
      if t.transferId = none then s.finalize i .cancel false else s
    else s.failOperation i
  s.setPc i .returned

/-- An operation throws; `downloadToWritable` first aborts what it has written. -/
def operationThrows (s : State) (i : Nat) : State :=
  if (s.transfers i).kind = .writable then s.setPc i .aborting else s.catchError i

/-- From the top of the operation, or of the loop in `upload`, to the first `await`. -/
def prepare (s : State) (i : Nat) : State :=
  let t := s.transfers i
  s.set i { t with
    prepareStarted := true
    serverFinished := if t.kind = .upload then false else t.serverFinished
    pc := .preparing }

/-- The microtask of `drainQueue`; `tooLarge` is the answer of `knownLimitFailure`. -/
def runOperation (s : State) (i : Nat) (tooLarge : Bool) : State :=
  let t := s.transfers i
  if t.terminalized then (s.releaseSlot i).setPc i .returned
  else if tooLarge ∧ t.kind ≠ .writable then s.operationThrows i
  else s.prepare i

/-- The acknowledgement of `prepare_transfer`: a refusal, or the id of the prepared transfer. -/
def prepareAcknowledged (s : State) (i : Nat) : Option (Option String) → State
  | none => s.operationThrows i
  | some transferId =>
    let t := { s.transfers i with transferId := transferId }
    if t.terminalized || t.cancelRequested then
      (s.set i { t with pc := .returned }).defer (.cancelPrepared i)
    else
      match t.kind with
      | .upload =>
        let s := s.set i { t with started := true, pc := .fetching }
        if t.started then s else s.emit i .start
      | .download => (s.set i { t with pc := .navigating }).emit i .start
      | .writable => (s.set i { t with pc := .fetching }).emit i .start

/-- `download` after `start`; building or clicking the anchor may throw. -/
def navigated (s : State) (i : Nat) (ok : Bool) : State :=
  if ok then s.setPc i .returned else s.operationThrows i

def responded (s : State) (i : Nat) : Response → State
  | .ok =>
    if (s.transfers i).kind = .writable then s.setPc i .sinking
    else (s.finalize i .complete false).setPc i .returned
  | .notOk => s.setPc i .readingFailure
  | .rejected => s.operationThrows i

/-- `conflict` says whether the error code is `CONFLICT`. -/
def failureRead (s : State) (i : Nat) (conflict : Bool) : State :=
  let t := s.transfers i
  if t.kind = .writable ∨ !conflict ∨ t.replacing then s.operationThrows i else s.setPc i .deciding

def decided (s : State) (i : Nat) : Decision → State
  | .replace =>
    let s := s.set i { s.transfers i with
      replacing := true, transferId := none, serverFinished := false }
    if (s.transfers i).terminalized then s.setPc i .returned else s.prepare i
  | .skip => (s.finalize i .skip false).setPc i .returned
  | .cancel => (s.finalize i .cancel false).setPc i .returned
  | .rejected => s.operationThrows i

def sunk (s : State) (i : Nat) (ok : Bool) : State :=
  if ok then s.setPc i .piping else s.operationThrows i

def piped (s : State) (i : Nat) (ok : Bool) : State :=
  if ok then (s.finalize i .complete false).setPc i .returned else s.operationThrows i

def runTask (s : State) (throws : Bool) : Task → State
  | .releaseSlot i => s.releaseSlot i
  | .cancelPrepared i => s.cancelPreparedTransfer i throws
  | .drainQueue => s.drainQueue

end State

/-- What may happen next. -/
inductive Action
  /-- `uploadFile`, `downloadFile` and `downloadFolder`, `downloadFileToWritable` -/
  | enqueue (kind : Kind)
  | cancelTransfer (i : Nat)
  | task (k : Nat) (throws : Bool)
  | runOperation (i : Nat) (tooLarge : Bool)
  | prepareAcknowledged (i : Nat) (ack : Option (Option String))
  | navigated (i : Nat) (ok : Bool)
  | responded (i : Nat) (response : Response)
  | failureRead (i : Nat) (conflict : Bool)
  | decided (i : Nat) (decision : Decision)
  | sunk (i : Nat) (ok : Bool)
  | piped (i : Nat) (ok : Bool)
  | aborted (i : Nat)
  | transferFinished (id : String) (status : FinishedStatus)
  | transferProgress (i : Nat) (id : String)
  | cancelAcknowledged (i : Nat) (ack : CancelAck)

/-- What an action does; an operation only continues from where it waits. -/
def State.step (s : State) : Action → Option State
  | .enqueue kind => some (s.enqueue kind)
  | .cancelTransfer i => some (s.cancelTransfer i)
  | .task k throws =>
    (s.tasks[k]?).map fun task => State.runTask { s with tasks := s.tasks.eraseIdx k } throws task
  | .runOperation i tooLarge => at_ i .scheduled (s.runOperation i tooLarge)
  | .prepareAcknowledged i ack => at_ i .preparing (s.prepareAcknowledged i ack)
  | .navigated i ok => at_ i .navigating (s.navigated i ok)
  | .responded i response => at_ i .fetching (s.responded i response)
  | .failureRead i conflict => at_ i .readingFailure (s.failureRead i conflict)
  | .decided i decision => at_ i .deciding (s.decided i decision)
  | .sunk i ok => at_ i .sinking (s.sunk i ok)
  | .piped i ok => at_ i .piping (s.piped i ok)
  | .aborted i => at_ i .aborting (s.catchError i)
  | .transferFinished id status => some (s.transferFinished id status)
  | .transferProgress i id => some (s.transferProgress i id)
  | .cancelAcknowledged i ack => if i ∈ s.acks then some (s.cancelAcknowledged i ack) else none
where
  at_ (i : Nat) (pc : Pc) (s' : State) : Option State :=
    if (s.transfers i).pc = pc then some s' else none

/-- All interleavings. -/
def system : System State Action where
  Init s := s = .init
  Step s a s' := s.step a = some s'

end WebSSH.Client
