import WebSSH.Lib.System
import WebSSH.Lib.Dict
import WebSSH.Input.Chunks
import Mathlib.Logic.Function.Basic

/-!
# SSH input

`ssh-input.js`. What runs between two turns of the event loop is one step: a call of `send`, an
acknowledgement, a timer, `cancelSession`, a change of the socket, and the continuation of an
`await` or of a `then`, which may run at any time after its promise has settled. A call of `send`
is known by its number, and so is the promise that it makes the tail of its queue.
-/

namespace WebSSH.SSHInput
open Lib Python

/-! ## Queues -/

/-- `MAX_BACKPRESSURE_RETRIES` -/
def maxBackpressureRetries : Nat := 240

/-- What the server answers: `success !== false`, and the code. -/
structure Ack where
  success : Bool
  code : String
  deriving DecidableEq

def Ack.isBackpressure (ack : Ack) : Bool := !ack.success && ack.code = "ssh_input_backpressure"

/-- One `socket.emit('ssh_input', …)`. -/
structure Emission where
  sessionId : String
  call : Nat
  /-- The place of the chunk in the value. -/
  index : Nat
  chunk : String
  deriving DecidableEq

/-- Where the work of a call of `send` is. `left` are the chunks that are not accepted. -/
inductive Phase
  /-- Emitted without a queue. -/
  | unqueued
  /-- Behind the promise of an earlier call. -/
  | waiting
  | awaiting (left : List String) (retries emission : Nat)
  | acknowledged (left : List String) (retries emission : Nat) (ack : Ack)
  /-- Between two attempts. -/
  | delaying (left : List String) (retries : Nat)
  | delayed (left : List String) (retries : Nat)
  /-- Its wait has failed. -/
  | rejected
  | finished (success : Bool)
  deriving DecidableEq

structure Call where
  sessionId : String
  queue : Option Nat
  chunks : List String
  /-- The call whose promise was the tail. -/
  previous : Option Nat
  phase : Phase

structure Queue where
  sessionId : String
  socket : Nat
  error : Bool
  tail : Nat

structure State where
  /-- `root.socket` -/
  socket : Nat
  connected : Nat → Bool
  observedSocket : Option Nat
  sessionQueues : Dict String Nat
  queues : Nat → Queue
  queueCount : Nat
  calls : Nat → Call
  callCount : Nat
  emissions : List Emission
  /-- The answers of the server, by the number of the emission. -/
  answers : List (Nat × Ack)

inductive Action
  /-- `throws` says whether `socket.emit` raises. -/
  | send (sessionId value : String) (throws : Bool)
  | acknowledge (emission : Nat) (ack : Ack)
  /-- The timer of a wait fires. -/
  | timer (call : Nat)
  /-- The continuation of the promise that a call waits for. -/
  | resume (call : Nat) (throws : Bool)
  /-- The `then` that `send` adds to the promise it returns. -/
  | cleanup (call : Nat)
  | cancelSession (sessionId : String)
  | connect (socket : Nat)
  | disconnect (socket : Nat)
  /-- The page makes another socket. -/
  | replaceSocket (socket : Nat)
  deriving DecidableEq

/-- A wait that is cancelled. -/
def Phase.cancel : Phase → Phase
  | .awaiting .. | .delaying .. => .rejected
  | phase => phase

namespace State

def init : State where
  socket := 0
  connected _ := false
  observedSocket := none
  sessionQueues := ∅
  queues _ := ⟨"", 0, true, 0⟩
  queueCount := 0
  calls _ := ⟨"", none, [], none, .unqueued⟩
  callCount := 0
  emissions := []
  answers := []

def setPhase (s : State) (call : Nat) (phase : Phase) : State :=
  { s with calls := Function.update s.calls call { s.calls call with phase := phase } }

/-- Leave the map, if the queue is the one in it. -/
def unregister (s : State) (queue : Nat) : State :=
  if s.sessionQueues.get? (s.queues queue).sessionId = some queue then
    { s with sessionQueues := s.sessionQueues.erase (s.queues queue).sessionId }
  else s

def cancelQueue (s : State) (queue : Nat) : State :=
  if (s.queues queue).error then s
  else
    let s := s.unregister queue
    { s with
      queues := Function.update s.queues queue { s.queues queue with error := true }
      calls := fun call =>
        let c := s.calls call
        if c.queue = some queue then { c with phase := c.phase.cancel } else c }

def cancelSession (s : State) (sessionId : String) : State :=
  match s.sessionQueues.get? sessionId with
  | some queue => s.cancelQueue queue
  | none => s

/-- `disconnected` -/
def cancelAll (s : State) : State := s.sessionQueues.values.foldl cancelQueue s

def observeSocket (s : State) : State :=
  if s.observedSocket = some s.socket then s
  else { s.cancelAll with observedSocket := some s.socket }

/-- `assertConnected` does not throw. -/
def isConnected (s : State) (queue : Nat) : Bool :=
  !(s.queues queue).error && s.socket = (s.queues queue).socket &&
    s.connected (s.queues queue).socket

/-- The `catch` of `transmit`. -/
def fail (s : State) (call queue : Nat) : State :=
  (s.cancelQueue queue).setPhase call (.finished false)

def emit (s : State) (call : Nat) (left : List String) (chunk : String) : State :=
  let c := s.calls call
  { s with
    emissions := s.emissions ++ [⟨c.sessionId, call, c.chunks.length - left.length, chunk⟩] }

/-- `transmit` up to its next `await`. -/
def transmit (s : State) (call queue : Nat) (left : List String) (retries : Nat) (throws : Bool) :
    State :=
  match left with
  | [] => s.setPhase call (.finished true)
  | chunk :: _ =>
    if s.isConnected queue then
      if throws then s.setPhase call .rejected
      else (s.emit call left chunk).setPhase call (.awaiting left retries s.emissions.length)
    else s.fail call queue

def newCall (s : State) (call : Call) : State :=
  { s with calls := Function.update s.calls s.callCount call, callCount := s.callCount + 1 }

def newQueue (s : State) (sessionId : String) : State :=
  { s with
    sessionQueues := s.sessionQueues.set sessionId s.queueCount
    queues := Function.update s.queues s.queueCount ⟨sessionId, s.socket, false, s.callCount⟩
    queueCount := s.queueCount + 1 }

def setTail (s : State) (queue call : Nat) : State :=
  { s with queues := Function.update s.queues queue { s.queues queue with tail := call } }

/-- `send` once the value is in chunks. -/
def enqueue (s : State) (sessionId : String) (chunks : List String) (throws : Bool) : State :=
  match s.sessionQueues.get? sessionId with
  | some queue =>
    (s.newCall
      ⟨sessionId, some queue, chunks, some (s.queues queue).tail, .waiting⟩).setTail
        queue s.callCount
  | none =>
    match chunks with
    | [chunk] =>
      if throws then s
      else (s.newCall ⟨sessionId, none, chunks, none, .unqueued⟩).emit s.callCount chunks chunk
    | _ =>
      ((s.newQueue sessionId).newCall
        ⟨sessionId, some s.queueCount, chunks, none, .waiting⟩).transmit
          s.callCount s.queueCount chunks 0 throws

def send (s : State) (maxBytes : Nat) (sessionId value : String) (throws : Bool) : State :=
  let s := s.observeSocket
  if sessionId = "" ∨ value = "" then s
  else if s.connected s.socket = false then s
  else
    match byteChunks value maxBytes with
    | none => s.cancelSession sessionId
    | some chunks => s.enqueue sessionId chunks throws

/-- The call that waits for the emission goes on; an answer that comes too late does nothing. -/
def acknowledge (s : State) (emission : Nat) (ack : Ack) : Option State :=
  match s.emissions[emission]? with
  | none => none
  | some e =>
    let s := { s with answers := s.answers ++ [(emission, ack)] }
    match (s.calls e.call).phase with
    | .awaiting left retries awaited =>
      if awaited = emission then
        some (s.setPhase e.call (.acknowledged left retries emission ack))
      else some s
    | _ => some s

def timer (s : State) (call : Nat) : Option State :=
  match (s.calls call).phase with
  | .awaiting .. => some (s.setPhase call .rejected)
  | .delaying left retries => some (s.setPhase call (.delayed left retries))
  | _ => none

/-- The promise that a call waits for, by what it was resolved with. -/
def previousResult (s : State) (call : Nat) : Option Bool :=
  match (s.calls call).previous with
  | none => none
  | some previous =>
    match (s.calls previous).phase with
    | .finished success => some success
    | _ => none

/-- The loop of `transmit` after an answer. -/
def answered (s : State) (call queue : Nat) (left : List String) (retries : Nat) (ack : Ack)
    (throws : Bool) : State :=
  if s.isConnected queue then
    if ack.success then s.transmit call queue left.tail 0 throws
    else if ack.code ≠ "ssh_input_backpressure" ∨ maxBackpressureRetries ≤ retries then
      s.fail call queue
    else s.setPhase call (.delaying left (retries + 1))
  else s.fail call queue

def resume (s : State) (call : Nat) (throws : Bool) : Option State :=
  let c := s.calls call
  match c.queue with
  | none => none
  | some queue =>
    match c.phase with
    | .waiting =>
      match s.previousResult call with
      | none => none
      | some success =>
        if success ∧ (s.queues queue).error = false then
          some (s.transmit call queue c.chunks 0 throws)
        else some (s.setPhase call (.finished false))
    | .acknowledged left retries _ ack => some (s.answered call queue left retries ack throws)
    | .delayed left retries => some (s.transmit call queue left retries throws)
    | .rejected => some (s.fail call queue)
    | _ => none

def cleanup (s : State) (call : Nat) : Option State :=
  let c := s.calls call
  match c.queue, c.phase with
  | some queue, .finished _ =>
    some (if (s.queues queue).tail = call then s.unregister queue else s)
  | _, _ => none

/-- The handler is on the socket that was observed last. -/
def disconnect (s : State) (socket : Nat) : State :=
  let s := { s with connected := Function.update s.connected socket false }
  if s.observedSocket = some socket then s.cancelAll else s

def step (maxBytes : Nat) (s : State) : Action → Option State
  | .send sessionId value throws => some (s.send maxBytes sessionId value throws)
  | .acknowledge emission ack => s.acknowledge emission ack
  | .timer call => s.timer call
  | .resume call throws => s.resume call throws
  | .cleanup call => s.cleanup call
  | .cancelSession sessionId => some (s.cancelSession sessionId)
  | .connect socket => some { s with connected := Function.update s.connected socket true }
  | .disconnect socket => some (s.disconnect socket)
  | .replaceSocket socket => some { s with socket := socket }

end State

/-- All interleavings, for a `CHUNK_BYTES`. -/
def system (chunkBytes : Nat) : System State Action where
  Init s := s = .init
  Step s action t := s.step chunkBytes action = some t

end WebSSH.SSHInput
