import Mathlib.Logic.Function.Basic
import WebSSH.Lib.Pending
import WebSSH.Lib.System

/-!
# Connecting to an SSH server

`connect_ssh` and the cancellation handlers of `socket_events.py`, and `create_ssh_connection`,
`read_ssh_output` and `close_session` of `ssh_manager.py`, for requests without a gateway. A
critical section, a query and a commit are one step each; a call that may raise is one step, whose
input says whether it does. `close_session` takes the session out of the registry in one step and
closes what it held in another.
-/

namespace WebSSH.Connect
open Lib Function

/-- A key of `_ssh_connect_attempts`. -/
structure Key where
  userId : String
  socketSid : String
  requestId : String
  deriving DecidableEq

structure Config where
  /-- `none` without a `client_request_id`. -/
  key : Option Key
  proxyJump : Bool
  useTmux : Bool
  /-- There are startup commands, and no tmux session is attached again. -/
  startup : Bool
  deriving DecidableEq

/-- What `create_ssh_connection` opens. -/
inductive Resource
  | validatedSocket
  | bastionClient
  | client
  deriving DecidableEq

/-- The calls of `create_ssh_connection` from its `try` to the new session. -/
inductive Stage
  /-- `connection_cancelled` -/
  | check
  | resolveTarget
  | openSocket
  | bastionClient
  | bastionAuth
  | bastionConnect
  | banner
  | openDirectTcpip
  | client
  | auth
  | connect
  | probeTmux
  | openTerminal
  deriving DecidableEq

def Stage.opens : Stage → List Resource
  | .openSocket => [.validatedSocket]
  | .bastionClient => [.bastionClient]
  | .client => [.client]
  | _ => []

def stages (config : Config) : List Stage :=
  ([.check, .resolveTarget] : List Stage) ++
    (if config.proxyJump then
      ([.resolveTarget, .openSocket, .bastionClient, .bastionAuth, .bastionConnect, .check, .banner,
        .check, .openDirectTcpip] : List Stage)
    else [.openSocket]) ++
    ([.check, .client, .auth, .connect, .check, .banner, .check] : List Stage) ++
    (if config.useTmux then ([.probeTmux] : List Stage) else []) ++
    ([.check, .openTerminal] : List Stage)

/-- What follows a `close_session` of the worker. -/
inductive After
  | error (message : String)
  /-- The startup commands were not delivered. -/
  | undelivered
  | finish
  deriving DecidableEq

inductive Pc
  /-- `lifecycle.start_job` -/
  | submit
  /-- The job starts. -/
  | start
  /-- `connection_cancelled`, at the entry of `create_ssh_connection`. -/
  | enter
  | validate
  | reserve
  | creating (todo : List Stage)
  /-- The `finally` of `create_ssh_connection` without a session. -/
  | cleanup (error : String)
  | afterStore
  | startReader
  | recordHandle
  | afterReader
  | startup
  | sendStartup
  /-- `close_session` -/
  | close (after : After)
  /-- The session is taken out of the registry. -/
  | closing (after : After)
  /-- `create_ssh_connection` has returned the session, or an error. -/
  | returned (error : Option String)
  | checkSocket
  | commit
  | getSession
  | record
  | emitConnected
  /-- The `finally` of `connect_ssh`. -/
  | finish
  | unregister
  | ended
  deriving DecidableEq

/-- `attempt['state']` -/
inductive AttemptState
  | pending
  | cancelled
  | committed
  | finished
  deriving DecidableEq

/-- The entry of `sessions`. -/
inductive Session
  | absent
  | live
  /-- Some `close_session` has taken it and is closing what it held. -/
  | taken
  | closed
  deriving DecidableEq

/-- `read_ssh_output` -/
inductive Reader
  | unstarted
  /-- It has looked for the database row so often. -/
  | waiting (attempts : Nat)
  | running
  /-- The query of its `finally`. -/
  | lookup
  /-- The commit and the `emit` of its `finally`. -/
  | emitting
  | close
  | closing
  | ended
  deriving DecidableEq

inductive CloserPc
  /-- An explicit disconnect updates or deletes the row. -/
  | updateRow
  | close
  | closing
  | announce
  deriving DecidableEq

/-- A `close_session` of other code; an explicit disconnect announces it. -/
structure Closer where
  announces : Bool
  pc : CloserPc
  deriving DecidableEq

structure Request where
  config : Config
  pc : Pc
  /-- `client_cancel_event` -/
  cancelEvent : Bool
  /-- The cancel event of the job. -/
  lifecycleEvent : Bool
  state : AttemptState
  reserved : Bool
  /-- How often the reservation was released. -/
  released : Nat
  opened : List Resource
  session : Session
  /-- The session has its `reader_handle`. -/
  handleRecorded : Bool
  reader : Reader
  /-- The cancel event of the reader. -/
  readerCancelled : Bool
  /-- The row of `ssh_sessions`. -/
  row : Bool
  closers : List Closer
  /-- A cancel was answered with `cancelled=True`. -/
  answered : Bool
  /-- The worker has passed its commit. -/
  committed : Bool
  /-- `ssh_connected` was emitted. -/
  connected : Bool
  /-- `ssh_disconnected` was emitted. -/
  disconnected : Bool
  /-- The reader has passed its `finally` without announcing the end. -/
  silent : Bool
  /-- An explicit disconnect has taken the session. -/
  explicitlyClosed : Bool
  /-- The worker's query for its socket has raised. -/
  abandoned : Bool

/-- What a step of a request lets others see. -/
inductive Signal
  | none
  | connected
  | disconnected
  | error (message : String)
  deriving DecidableEq

structure Input where
  /-- What the call raises. -/
  error : Option String
  /-- The socket's row exists, or the startup commands are delivered. -/
  ok : Bool
  deriving DecidableEq

/-- The 30 polls of `read_ssh_output`. -/
def maxPolls : Nat := 30

namespace Request

def new (config : Config) : Request where
  config := config
  pc := .submit
  cancelEvent := false
  lifecycleEvent := false
  state := .pending
  reserved := false
  released := 0
  opened := []
  session := .absent
  handleRecorded := false
  reader := .unstarted
  readerCancelled := false
  row := false
  closers := []
  answered := false
  committed := false
  connected := false
  disconnected := false
  silent := false
  explicitlyClosed := false
  abandoned := false

/-- `_CombinedCancellation.is_set` -/
def isSet (r : Request) : Bool := r.cancelEvent || r.lifecycleEvent

def goto (r : Request) (pc : Pc) : Request := { r with pc }

/-! ## Cancellation -/

/-- `_CombinedCancellation.commit_if_active`; `none` is `False`. -/
def commitIfActive (r : Request) : Option Request :=
  if r.isSet then none
  else if r.state = .cancelled ∨ r.state = .finished then none
  else some { r with state := .committed }

/-- `_try_cancel_ssh_attempt`; `none` is `False`. -/
def tryCancel (r : Request) : Option Request :=
  if r.state = .committed ∨ r.state = .finished then none
  else some { r with state := .cancelled, cancelEvent := true, answered := true }

/-- `_force_cancel_ssh_attempt` -/
def forceCancel (r : Request) : Request := { r with cancelEvent := true }

/-! ## Closing -/

/-- `close_session` under the lock; `none` if there is no session. -/
def take (r : Request) : Option Request :=
  if r.session = .live then some { r with session := .taken } else none

/-- `close_session` after it has taken the session. -/
def closeTaken (r : Request) : Request :=
  { r with
    session := .closed
    released := r.released + 1
    opened := []
    readerCancelled := r.readerCancelled || r.handleRecorded }

def afterClose (r : Request) : After → Request
  | .error message => r.goto (.returned (some message))
  | .undelivered =>
    r.goto (.returned (some (if r.isSet then "Connection cancelled" else "Connection failed")))
  | .finish => r.goto .finish

/-! ## The worker -/

/-- `create_ssh_connection` returns an error before there is a session. -/
def abort (r : Request) (error : String) : Request := r.goto (.cleanup error)

/-- One call of `create_ssh_connection`; `todo` are the calls after it. -/
def runStage (r : Request) (stage : Stage) (todo : List Stage) (input : Input) : Request :=
  if stage = .check then
    if r.isSet then r.abort "Connection cancelled" else r.goto (.creating todo)
  else
    match input.error with
    | some error => r.abort error
    | none => { r with opened := r.opened ++ stage.opens, pc := .creating todo }

def cancelledClose : Pc := .close (.error "Connection cancelled")

/-- The `except` of `connect_ssh` -/
def failure (r : Request) : Signal := if r.isSet then .none else .error "Connection failed"

/-- The next step of the worker. -/
def work (r : Request) (input : Input) : Option (Signal × Request) :=
  match r.pc with
  | .submit =>
    match input.error with
    | some _ => some (.error "Server is shutting down", r.goto .unregister)
    | none => some (.none, r.goto .start)
  | .start => some (.none, r.goto (if r.isSet then .finish else .enter))
  | .enter =>
    some (.none, r.goto (if r.isSet then .returned (some "Connection cancelled") else .validate))
  | .validate =>
    match input.error with
    | some error => some (.none, r.goto (.returned (some error)))
    | none => some (.none, r.goto .reserve)
  | .reserve =>
    match input.error with
    | some error => some (.none, r.goto (.returned (some error)))
    | none => some (.none, { r with reserved := true, pc := .creating (stages r.config) })
  | .creating [] => some (.none, { r with session := .live, pc := .afterStore })
  | .creating (stage :: todo) => some (.none, r.runStage stage todo input)
  | .cleanup error =>
    some (.none,
      { r with released := r.released + 1, opened := [], pc := .returned (some error) })
  | .afterStore => some (.none, r.goto (if r.isSet then cancelledClose else .startReader))
  | .startReader =>
    match input.error with
    | some _ => some (.none, r.goto (.close (.error "Connection failed")))
    | none => some (.none, { r with reader := .waiting 0, pc := .recordHandle })
  | .recordHandle =>
    if r.session = .live then
      some (.none, { r with handleRecorded := true, pc := .afterReader })
    else some (.none, { r with readerCancelled := true, pc := .afterReader })
  | .afterReader => some (.none, r.goto (if r.isSet then cancelledClose else .startup))
  | .startup =>
    if r.config.startup then
      match r.commitIfActive with
      | none => some (.none, r.goto cancelledClose)
      | some r => some (.none, r.goto .sendStartup)
    else some (.none, r.goto (.returned none))
  | .sendStartup =>
    some (.none, r.goto (if input.ok then .returned none else .close .undelivered))
  | .close after =>
    match r.take with
    | none => some (.none, r.afterClose after)
    | some r => some (.none, r.goto (.closing after))
  | .closing after => some (.none, r.closeTaken.afterClose after)
  | .returned error =>
    if r.isSet then
      some (.none, r.goto (if error.isSome then .finish else .close .finish))
    else
      match error with
      | some error => some (.error error, r.goto .finish)
      | none => some (.none, r.goto .checkSocket)
  | .checkSocket =>
    match input.error with
    | some _ => some (r.failure, { r with abandoned := true, pc := .finish })
    | none => some (.none, r.goto (if r.isSet || !input.ok then .close .finish else .commit))
  | .commit =>
    match r.commitIfActive with
    | none => some (.none, r.goto (.close .finish))
    | some r => some (.none, { r with committed := true, pc := .getSession })
  | .getSession =>
    if r.session = .live then some (.none, r.goto .record)
    else some (.error "Connection failed", r.goto .finish)
  | .record => some (.none, { r with row := input.error.isNone, pc := .emitConnected })
  | .emitConnected =>
    match input.error with
    | some _ => some (r.failure, r.goto .finish)
    | none => some (.connected, { r with connected := true, pc := .finish })
  | .finish => some (.none, { r with state := .finished, pc := .unregister })
  | .unregister => some (.none, r.goto .ended)
  | .ended => none

/-! ## The reader -/

/-- The next step of the reader; with `input.error` it raises, or finds the channel closed. What
its `finally` raises ends it. -/
def read (r : Request) (input : Input) : Option (Signal × Request) :=
  match r.reader with
  | .unstarted | .ended => none
  | .waiting attempts =>
    if r.readerCancelled || input.error.isSome then some (.none, { r with reader := .lookup })
    else if r.row then some (.none, { r with reader := .running })
    else if attempts + 1 < maxPolls then
      some (.none, { r with reader := .waiting (attempts + 1) })
    else some (.none, { r with reader := .lookup })
  | .running =>
    if r.readerCancelled || r.session ≠ .live || input.error.isSome then
      some (.none, { r with reader := .lookup })
    else some (.none, r)
  | .lookup =>
    match input.error with
    | some _ => some (.none, { r with silent := true, reader := .ended })
    | none =>
      if r.row then some (.none, { r with reader := .emitting })
      else some (.none, { r with silent := true, reader := .close })
  | .emitting =>
    match input.error with
    | some _ => some (.none, { r with silent := true, reader := .ended })
    | none => some (.disconnected, { r with disconnected := true, reader := .close })
  | .close =>
    match r.take with
    | none => some (.none, { r with reader := .ended })
    | some r => some (.none, { r with reader := .closing })
  | .closing => some (.none, { r.closeTaken with reader := .ended })

/-! ## Other calls of `close_session` -/

/-- The closer at `k` goes on with `next`. -/
def advance (r : Request) (k : Nat) (next : List Closer) : Request :=
  { r with closers := r.closers.eraseIdx k ++ next }

/-- The next step of the closer at `k`; with `input.ok` an explicit disconnect deletes the row. -/
def closeStep (r : Request) (k : Nat) (input : Input) : Option (Signal × Request) := do
  let closer ← r.closers[k]?
  match closer.pc with
  | .updateRow =>
    some (.none, { r with row := r.row && !input.ok }.advance k [{ closer with pc := .close }])
  | .close =>
    match r.take with
    | none => some (.none, r.advance k [])
    | some r =>
      some (.none, { r with explicitlyClosed := r.explicitlyClosed || closer.announces }.advance k
        [{ closer with pc := .closing }])
  | .closing =>
    some (.none,
      r.closeTaken.advance k (if closer.announces then [{ closer with pc := .announce }] else []))
  | .announce => some (.disconnected, { r with disconnected := true }.advance k [])

end Request

/-! ## All requests -/

structure State where
  requests : List Request
  /-- `_ssh_connect_attempts` -/
  attempts : Key → Option Nat

inductive Action
  /-- `handle_ssh_connect` reaches the registration of its attempt. -/
  | connect (config : Config)
  /-- `handle_ssh_connect_cancel` -/
  | cancel (key : Key)
  /-- `_cancel_ssh_connect_attempts_for_socket` -/
  | disconnect (socketSid : String)
  /-- `JobHandle.cancel`, by a cancel, a disconnect or the shutdown. -/
  | lifecycleCancel (i : Nat)
  | work (i : Nat) (input : Input)
  | read (i : Nat) (input : Input)
  /-- Other code closes the session. -/
  | startClose (i : Nat) (announces : Bool)
  | close (i k : Nat) (input : Input)
  deriving DecidableEq

inductive Reply
  | none
  /-- 'Connection request already in progress' -/
  | inProgress
  | connected (i : Nat)
  | disconnected (i : Nat)
  | error (i : Nat) (message : String)
  /-- `cancelled=True` -/
  | cancelled (i : Nat)
  /-- `cancelled=False`, with its reason. -/
  | refused (reason : String)
  deriving DecidableEq

def Signal.reply (i : Nat) : Signal → Reply
  | .none => .none
  | .connected => .connected i
  | .disconnected => .disconnected i
  | .error message => .error i message

namespace State

def init : State := ⟨[], fun _ => none⟩

def setRequest (s : State) (i : Nat) (r : Request) : State :=
  { s with requests := s.requests.set i r }

/-- A step of the request `i` alone. -/
def apply (s : State) (i : Nat) (f : Request → Option (Signal × Request)) :
    Option (Reply × State) := do
  let r ← s.requests[i]?
  let (signal, r) ← f r
  some (signal.reply i, s.setRequest i r)

/-- The attempt leaves the table, if the entry is its own. -/
def unregister (s : State) (i : Nat) (key : Option Key) : State :=
  match key with
  | none => s
  | some key =>
    if s.attempts key = some i then { s with attempts := update s.attempts key none } else s

/-- The attempts of the socket. -/
def ofSocket (s : State) (socketSid : String) (i : Nat) (r : Request) : Bool :=
  r.config.key.any fun key => key.socketSid = socketSid ∧ s.attempts key = some i

def cancelSocket (s : State) (socketSid : String) : State :=
  let cancel (i : Nat) (r : Request) := if s.ofSocket socketSid i r then r.forceCancel else r
  { s with requests := s.requests.mapIdx cancel }

end State

def step (s : State) : Action → Option (Reply × State)
  | .connect config =>
    if config.key.any (fun key => (s.attempts key).isSome) then some (.inProgress, s)
    else
      some (.none,
        { requests := s.requests ++ [.new config]
          attempts := match config.key with
            | none => s.attempts
            | some key => update s.attempts key (some s.requests.length) })
  | .cancel key =>
    match s.attempts key with
    | none => some (.refused "not_found", s)
    | some i => do
      let r ← s.requests[i]?
      match r.tryCancel with
      | none => some (.refused "already_committed", s)
      | some r => some (.cancelled i, s.setRequest i r)
  | .disconnect socketSid => some (.none, s.cancelSocket socketSid)
  | .lifecycleCancel i => s.apply i fun r => some (.none, { r with lifecycleEvent := true })
  | .work i input => do
    let r ← s.requests[i]?
    let (signal, r') ← r.work input
    let t := s.setRequest i r'
    some (signal.reply i, if r.pc = .unregister then t.unregister i r.config.key else t)
  | .read i input => s.apply i (·.read input)
  | .startClose i announces => s.apply i fun r =>
    some (.none, { r with
      closers := r.closers ++ [⟨announces, if announces then .updateRow else .close⟩] })
  | .close i k input => s.apply i (·.closeStep k input)

def system : System State (Action × Reply) := .calls .init step

end WebSSH.Connect
