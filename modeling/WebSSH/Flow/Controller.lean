import WebSSH.Lib.Dict
import WebSSH.Lib.System
import Mathlib.Data.Finset.Basic
import Mathlib.Algebra.Order.Field.Rat

/-!
# The SSH output flow controller

`SSHOutputFlowController` of `ssh_output_flow.py`: live output is reserved against byte and event
counters of a socket, of its user and of the process until the browser acknowledges it. Every
method runs under one lock, so a step is one method body, or one pass of the loop in `reserve`,
which gives the lock up only inside `wait`.
-/

namespace WebSSH.Flow
open Lib

/-- The `SSH_OUTPUT_MAX_UNACKED_*` settings. -/
structure Config where
  maxUnackedBytesPerSocket : Nat
  maxUnackedEventsPerSocket : Nat
  maxUnackedBytesPerUser : Nat
  maxUnackedEventsPerUser : Nat
  maxUnackedBytesGlobal : Nat
  maxUnackedEventsGlobal : Nat

/-- `_OUTPUT_DELIVERY_WINDOW`. -/
def outputDeliveryWindow : Nat := 8

/-- The event limit `_fits` applies to one socket. -/
def Config.socketEventLimit (cfg : Config) : Nat :=
  min cfg.maxUnackedEventsPerSocket outputDeliveryWindow

structure Reservation (Sid User Session : Type) where
  socketSid : Sid
  userId : User
  sessionId : Session
  size : Int
  createdAt : Rat
  expiresAt : Rat

/-- An entry of `_deadline_callbacks`. -/
structure Deadline (Callback : Type) where
  expiresAt : Rat
  retryInterval : Rat
  callback : Callback

structure Controller (Token Sid User Session Callback : Type) where
  reservations : Dict Token (Reservation Sid User Session)
  socketBytes : Dict Sid Int
  socketEvents : Dict Sid Int
  userBytes : Dict User Int
  userEvents : Dict User Int
  globalBytes : Int
  globalEvents : Int
  activeSockets : Finset Sid
  deadlineCallbacks : Dict Token (Deadline Callback)

section
variable {Token Sid User Session Callback : Type}

def Controller.init : Controller Token Sid User Session Callback :=
  ⟨∅, ∅, ∅, ∅, ∅, 0, 0, ∅, ∅⟩

variable [DecidableEq Token] [DecidableEq Sid] [DecidableEq User]

/-- `counters[key] += amount` on a `defaultdict(int)`. -/
def bump {κ : Type} [DecidableEq κ] (counters : Dict κ Int) (key : κ) (amount : Int) :
    Dict κ Int :=
  counters.set key (counters.getD key 0 + amount)

/-- `if counters[key] == 0: counters.pop(key, None)`, one line of `_prune`. -/
def pruneKey {κ : Type} [DecidableEq κ] (counters : Dict κ Int) (key : κ) : Dict κ Int :=
  if counters.getD key 0 = 0 then counters.erase key else counters

namespace Controller
variable (cfg : Config) (c : Controller Token Sid User Session Callback)

def registerSocket (socketSid : Sid) : Controller Token Sid User Session Callback :=
  { c with activeSockets := insert socketSid c.activeSockets }

/-- `_fits`. -/
def fits (socketSid : Sid) (userId : User) (size : Int) : Bool :=
  socketSid ∈ c.activeSockets
    && c.socketBytes.getD socketSid 0 + size ≤ cfg.maxUnackedBytesPerSocket
    && c.socketEvents.getD socketSid 0 + 1 ≤ cfg.socketEventLimit
    && c.userBytes.getD userId 0 + size ≤ cfg.maxUnackedBytesPerUser
    && c.userEvents.getD userId 0 + 1 ≤ cfg.maxUnackedEventsPerUser
    && c.globalBytes + size ≤ cfg.maxUnackedBytesGlobal
    && c.globalEvents + 1 ≤ cfg.maxUnackedEventsGlobal

/-- What one pass of the loop in `reserve` leads to. -/
inductive ReserveOutcome (Token : Type)
  | granted (token : Token)
  | disconnected
  | cancelled
  | timeout
  | wait (seconds : Rat)

/-- The part of `reserve` after its loop. -/
def grant (token : Token) (socketSid : Sid) (userId : User) (sessionId : Session) (size : Int)
    (createdAt timeout : Rat) : Controller Token Sid User Session Callback :=
  { c with
    reservations := c.reservations.set token
      ⟨socketSid, userId, sessionId, size, createdAt, createdAt + timeout⟩
    socketBytes := bump c.socketBytes socketSid size
    socketEvents := bump c.socketEvents socketSid 1
    userBytes := bump c.userBytes userId size
    userEvents := bump c.userEvents userId 1
    globalBytes := c.globalBytes + size
    globalEvents := c.globalEvents + 1 }

/-- One pass of `reserve`. `token` is the `uuid4().hex` drawn if the size fits, `cancelled` the
state of `cancel_event` and `now` the clock. -/
def reserve (token : Token) (socketSid : Sid) (userId : User) (sessionId : Session) (size : Int)
    (cancelled : Bool) (now deadline timeout : Rat) :
    Controller Token Sid User Session Callback × ReserveOutcome Token :=
  if c.fits cfg socketSid userId size then
    (c.grant token socketSid userId sessionId size now timeout, .granted token)
  else if socketSid ∉ c.activeSockets then (c, .disconnected)
  else if cancelled then (c, .cancelled)
  else if deadline - now ≤ 0 then (c, .timeout)
  else (c, .wait (min (1 / 10) (deadline - now)))

def armDeadline (token : Token) (callback : Callback) :
    Controller Token Sid User Session Callback :=
  match c.reservations.get? token with
  | none => c
  | some r =>
    { c with
      deadlineCallbacks := c.deadlineCallbacks.set token
        ⟨r.expiresAt, max (1 / 100) (min (r.expiresAt - r.createdAt) 1), callback⟩ }

/-- The body shared by `release` and the loop of `release_socket`: a reservation just taken out of
`_reservations` is subtracted from its counters, which are then pruned. -/
def settle (token : Token) (r : Reservation Sid User Session) :
    Controller Token Sid User Session Callback :=
  { c with
    reservations := c.reservations.erase token
    deadlineCallbacks := c.deadlineCallbacks.erase token
    socketBytes := pruneKey (bump c.socketBytes r.socketSid (-r.size)) r.socketSid
    socketEvents := pruneKey (bump c.socketEvents r.socketSid (-1)) r.socketSid
    userBytes := pruneKey (bump c.userBytes r.userId (-r.size)) r.userId
    userEvents := pruneKey (bump c.userEvents r.userId (-1)) r.userId
    globalBytes := c.globalBytes - r.size
    globalEvents := c.globalEvents - 1 }

def release (token : Token) : Controller Token Sid User Session Callback × Bool :=
  match c.reservations.get? token with
  | none => (c, false)
  | some r => (c.settle token r, true)

/-- The tokens `release_socket` collects before it takes any of them out. -/
def tokensOf (socketSid : Sid) : List Token :=
  (c.reservations.filter fun _ r => r.socketSid = socketSid).keys

/-- `_reservations.pop(token)` and the subtraction, for one collected token. -/
def settleToken (token : Token) : Controller Token Sid User Session Callback :=
  match c.reservations.get? token with
  | none => c
  | some r => c.settle token r

def releaseSocket (socketSid : Sid) : Controller Token Sid User Session Callback :=
  let c := { c with activeSockets := c.activeSockets.erase socketSid }
  let c := (c.tokensOf socketSid).foldl settleToken c
  { c with
    socketBytes := c.socketBytes.erase socketSid
    socketEvents := c.socketEvents.erase socketSid }

end Controller

/-- A call on the controller, with what the environment decides in it. -/
inductive Op (Token Sid User Session Callback : Type)
  | registerSocket (socketSid : Sid)
  | reserve (token : Token) (socketSid : Sid) (userId : User) (sessionId : Session) (size : Int)
      (cancelled : Bool) (now deadline timeout : Rat)
  | armDeadline (token : Token) (callback : Callback)
  | release (token : Token)
  | releaseSocket (socketSid : Sid)

def Controller.step (cfg : Config) (c : Controller Token Sid User Session Callback) :
    Op Token Sid User Session Callback → Controller Token Sid User Session Callback
  | .registerSocket sid => c.registerSocket sid
  | .reserve token sid user session size cancelled now deadline timeout =>
    (c.reserve cfg token sid user session size cancelled now deadline timeout).1
  | .armDeadline token callback => c.armDeadline token callback
  | .release token => (c.release token).1
  | .releaseSocket sid => c.releaseSocket sid

/-- `uuid4` does not draw the token of a live reservation. -/
def Op.Fresh (c : Controller Token Sid User Session Callback) :
    Op Token Sid User Session Callback → Prop
  | .reserve token .. => c.reservations.get? token = none
  | _ => True

/-- The sizes `reserve` is called with. -/
def Op.SizeSatisfies (p : Int → Prop) : Op Token Sid User Session Callback → Prop
  | .reserve _ _ _ _ size .. => p size
  | _ => True

/-- All interleavings of the methods, one method body or loop pass a step. -/
def system (cfg : Config) :
    System (Controller Token Sid User Session Callback) (Op Token Sid User Session Callback) :=
  .guarded .init (fun c op => op.Fresh c) (Controller.step cfg)

end
end WebSSH.Flow
