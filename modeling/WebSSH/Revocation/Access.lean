import WebSSH.Connect.Request

/-!
# Revoking the access of a user

`revoke_user_access` of `user_lifecycle.py` and `handle_disconnect` of `socket_events.py` beside the
requests that publish a connection: `connect_ssh`, `handle_quick_connect` and
`smb_quick_connect`. Each query, each scan of a registry and each publication is one step. Database
and close errors are left out, as is a socket of the user that connects after the revocation has
begun.
-/

namespace WebSSH.Revocation
open Connect (Config Request)

/-- Who made a request, and from which socket. -/
structure Owner where
  userId : String
  socketSid : String
  deriving DecidableEq

/-- What a request may have put into a registry. -/
inductive Entry
  | absent
  | stored
  | closed
  deriving DecidableEq

def Entry.close : Entry → Entry
  | .stored => .closed
  | e => e

/-! ## `handle_quick_connect` -/

inductive QuickPc
  /-- `create_connection`, up to its entry in `connections`. -/
  | create
  | store
  | emit
  | ended
  deriving DecidableEq

structure Quick where
  owner : Owner
  pc : QuickPc
  connection : Entry
  deriving DecidableEq

def Quick.new (owner : Owner) : Quick := ⟨owner, .create, .absent⟩

/-- The next step; it may fail. -/
def Quick.step (q : Quick) (fails : Bool) : Option Quick :=
  match q.pc with
  | .create => some { q with pc := if fails then .emit else .store }
  | .store => some (if fails then { q with pc := .emit } else { q with connection := .stored, pc := .emit })
  | .emit => some { q with pc := .ended }
  | .ended => none

/-! ## `handle_smb_quick_connect` -/

inductive SmbPc
  /-- `lifecycle.start_job` -/
  | submit
  /-- `create_source`, up to its entry in `_sources`. -/
  | create
  | store
  /-- The query of `connect_smb`. -/
  | query
  | check (socketIsLive : Bool)
  | requestClose
  | emit
  /-- The `finally` of `connect_smb`. -/
  | finish
  | ended
  deriving DecidableEq

structure Smb where
  owner : Owner
  pc : SmbPc
  /-- `cancellation.is_set()` -/
  cancelled : Bool
  /-- The attempt is in `_smb_attempts`. -/
  registered : Bool
  source : Entry
  deriving DecidableEq

def Smb.new (owner : Owner) : Smb := ⟨owner, .submit, false, true, .absent⟩

/-- The next step; it may fail, and `socketIsLive` is what the query finds. -/
def Smb.step (m : Smb) (socketIsLive fails : Bool) : Option Smb :=
  match m.pc with
  | .submit =>
    some (if fails then { m with registered := false, pc := .ended } else { m with pc := .create })
  | .create => some { m with pc := if fails || m.cancelled then .finish else .store }
  | .store =>
    some (if fails then { m with pc := .finish } else { m with source := .stored, pc := .query })
  | .query => some { m with pc := .check socketIsLive }
  | .check socketIsLive =>
    some { m with
      pc := if m.cancelled || !m.registered || !socketIsLive then .requestClose else .emit }
  | .requestClose => some { m with source := m.source.close, pc := .finish }
  | .emit => some { m with pc := .finish }
  | .finish => some { m with registered := false, pc := .ended }
  | .ended => none

/-! ## The state -/

/-- `handle_disconnect` -/
inductive DisconnectPc
  | cancelSsh
  | cancelSmb
  | deleteRow
  /-- The other sockets of the user are counted. -/
  | count
  | closeConnections
  | closeSources
  deriving DecidableEq

/-- `revoke_user_access` -/
inductive Phase
  | idle
  /-- These sockets are still to be disconnected. -/
  | sockets (todo : List Owner)
  /-- `handle_disconnect` runs for the first of them. -/
  | disconnecting (owner : Owner) (pc : DisconnectPc) (todo : List Owner)
  /-- The scan of `sessions`. -/
  | scan
  | sessions (todo : List Nat)
  | closeConnections
  | closeSources
  | deleteRows
  | returned
  deriving DecidableEq

structure State where
  connect : Connect.State
  /-- The owners of the requests of `connect`. -/
  owners : List Owner
  quicks : List Quick
  smbs : List Smb
  /-- The rows of `SocketSession`. -/
  rows : List Owner
  /-- `handle_disconnect` calls for sockets that have left by themselves. -/
  disconnects : List (Owner × DisconnectPc)
  phase : Phase

namespace State

def init : State := ⟨.init, [], [], [], [], [], .idle⟩

def setQuick (s : State) (i : Nat) (q : Quick) : State := { s with quicks := s.quicks.set i q }

def setSmb (s : State) (i : Nat) (m : Smb) : State := { s with smbs := s.smbs.set i m }

/-- `SocketSession.query.filter_by(socket_sid=…, user_id=…).first()` -/
def socketIsLive (s : State) (owner : Owner) : Bool := s.rows.contains owner

/-- `close_all_user_connections` -/
def closeConnections (s : State) (userId : String) : State :=
  { s with
    quicks := s.quicks.map fun q =>
      if q.owner.userId = userId then { q with connection := q.connection.close } else q }

/-- `close_all_user_sources` -/
def closeSources (s : State) (userId : String) : State :=
  { s with
    smbs := s.smbs.map fun m =>
      if m.owner.userId = userId then { m with source := m.source.close } else m }

/-- `_cancel_smb_attempts_for_socket` -/
def cancelSmb (s : State) (owner : Owner) : State :=
  { s with
    smbs := s.smbs.map fun m =>
      if m.owner = owner ∧ m.registered then { m with cancelled := true } else m }

/-- One step of `handle_disconnect`, and what is left of it. -/
def disconnectStep (s : State) (owner : Owner) : DisconnectPc → State × Option DisconnectPc
  | .cancelSsh =>
    ({ s with connect := s.connect.cancelSocket owner.socketSid }, some .cancelSmb)
  | .cancelSmb => (s.cancelSmb owner, some .deleteRow)
  | .deleteRow =>
    ({ s with rows := s.rows.filter (·.socketSid ≠ owner.socketSid) }, some .count)
  | .count =>
    (s, if s.rows.any (·.userId = owner.userId) then none else some .closeConnections)
  | .closeConnections => (s.closeConnections owner.userId, some .closeSources)
  | .closeSources => (s.closeSources owner.userId, none)

/-- The sessions of the user. -/
def sessionsOf (s : State) (userId : String) : List Nat :=
  (List.range s.owners.length).filter fun i =>
    s.owners[i]?.any (·.userId = userId) && s.connect.requests[i]?.any (·.session = .live)

/-- `close_session` takes the session; what it held is closed by a step of its own. -/
def closeSession (s : State) (i : Nat) : State :=
  match s.connect.requests[i]?.bind Request.take with
  | none => s
  | some r =>
    let r := { r with closers := r.closers ++ [⟨false, .closing⟩] }
    { s with connect := s.connect.setRequest i r }

/-- The next step of the revocation. -/
def revoke (userId : String) (s : State) : Option State :=
  match s.phase with
  | .idle => some { s with phase := .sockets (s.rows.filter (·.userId = userId)) }
  | .sockets [] => some { s with phase := .scan }
  | .sockets (owner :: todo) => some { s with phase := .disconnecting owner .cancelSsh todo }
  | .disconnecting owner pc todo =>
    match s.disconnectStep owner pc with
    | (t, none) => some { t with phase := .sockets todo }
    | (t, some pc) => some { t with phase := .disconnecting owner pc todo }
  | .scan => some { s with phase := .sessions (s.sessionsOf userId) }
  | .sessions [] => some { s with phase := .closeConnections }
  | .sessions (i :: todo) => some { s.closeSession i with phase := .sessions todo }
  | .closeConnections => some { s.closeConnections userId with phase := .closeSources }
  | .closeSources => some { s.closeSources userId with phase := .deleteRows }
  | .deleteRows =>
    some { s with rows := s.rows.filter (·.userId ≠ userId), phase := .returned }
  | .returned => none

end State

/-! ## Steps -/

inductive Action
  /-- A socket connects. -/
  | socketConnect (owner : Owner)
  /-- A socket leaves by itself. -/
  | socketLeave (owner : Owner)
  | disconnect (k : Nat)
  /-- `handle_ssh_connect`; the config carries its `client_request_id`. -/
  | sshConnect (owner : Owner) (config : Config)
  /-- A step of the requests of `connect_ssh`. -/
  | ssh (action : Connect.Action)
  | quickConnect (owner : Owner)
  | quick (i : Nat) (fails : Bool)
  /-- Other code closes the connection. -/
  | closeQuick (i : Nat)
  | smbConnect (owner : Owner)
  | smb (i : Nat) (fails : Bool)
  /-- `handle_smb_quick_connect_cancel`, or the shutdown. -/
  | cancelSmb (i : Nat)
  | closeSmb (i : Nat)
  | revoke
  deriving DecidableEq

/-- What the worker of `connect_ssh` asks the database is answered from the rows. -/
def Answered (s : State) : Connect.Action → Prop
  | .work i input => ∀ r ∈ s.connect.requests[i]?, r.pc = .checkSocket →
    input.error = none ∧ ∀ owner ∈ s.owners[i]?, input.ok = s.socketIsLive owner
  | .connect _ | .disconnect _ => False
  | _ => True

instance (s : State) : ∀ a, Decidable (Answered s a)
  | .work _ _ => inferInstanceAs (Decidable (∀ _ ∈ _, _ → _ ∧ ∀ _ ∈ _, _))
  | .connect _ | .disconnect _ => inferInstanceAs (Decidable False)
  | .cancel _ | .lifecycleCancel _ | .read _ _ | .startClose _ _ | .close _ _ _ =>
    inferInstanceAs (Decidable True)

/-- The attempt is registered for the socket of its owner. -/
def Owner.Registers (owner : Owner) (config : Config) : Prop :=
  ∀ key ∈ config.key, key.userId = owner.userId ∧ key.socketSid = owner.socketSid

instance (owner : Owner) (config : Config) : Decidable (owner.Registers config) :=
  inferInstanceAs (Decidable (∀ _ ∈ _, _))

/-- `userId` is the user whose access is revoked. -/
def step (userId : String) (s : State) : Action → Option State
  | .socketConnect owner =>
    if owner.userId = userId ∧ s.phase ≠ .idle then none
    else some { s with rows := owner :: s.rows }
  | .socketLeave owner => some { s with disconnects := s.disconnects ++ [(owner, .cancelSsh)] }
  | .disconnect k => do
    let (owner, pc) ← s.disconnects[k]?
    let (t, next) := s.disconnectStep owner pc
    some { t with
      disconnects := s.disconnects.eraseIdx k ++ (next.map fun pc => (owner, pc)).toList }
  | .sshConnect owner config =>
    if owner.Registers config then
      match Connect.step s.connect (.connect config) with
      | some (.none, connect) => some { s with connect, owners := s.owners ++ [owner] }
      | _ => none
    else none
  | .ssh action =>
    if Answered s action then do
      let (_, connect) ← Connect.step s.connect action
      some { s with connect }
    else none
  | .quickConnect owner => some { s with quicks := s.quicks ++ [.new owner] }
  | .quick i fails => do
    let q ← s.quicks[i]?
    let q ← q.step fails
    some (s.setQuick i q)
  | .closeQuick i => do
    let q ← s.quicks[i]?
    some (s.setQuick i { q with connection := q.connection.close })
  | .smbConnect owner => some { s with smbs := s.smbs ++ [.new owner] }
  | .smb i fails => do
    let m ← s.smbs[i]?
    let m ← m.step (s.socketIsLive m.owner) fails
    some (s.setSmb i m)
  | .cancelSmb i => do
    let m ← s.smbs[i]?
    some (s.setSmb i { m with cancelled := true })
  | .closeSmb i => do
    let m ← s.smbs[i]?
    some (s.setSmb i { m with source := m.source.close })
  | .revoke => s.revoke userId

def system (userId : String) : Lib.System State Action where
  Init s := s = .init
  Step s a t := step userId s a = some t

end WebSSH.Revocation
