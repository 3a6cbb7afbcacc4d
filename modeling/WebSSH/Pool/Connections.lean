import WebSSH.Lib.HoldRegistry
import WebSSH.Lib.Python
import WebSSH.Lib.System

/-!
# The connection pools

`TemporaryConnectionPool` of `connection_pool.py` and `SMBConnectionPool` of `smb_pool.py`, as far
as they decide which records are in the registry: a record's ticket is its quota reservation. A
call that takes records out of the registry closes them after it has left the lock, one by one, and
returns when it has closed the last; closing a record closes its sessions and releases its
reservation.
-/

namespace WebSSH.Pool
open Lib Lib.Python HoldRegistry

/-- The fields of a record that the pools read. -/
structure Connection (Time : Type) where
  userId : String
  lastUsed : Time
  deriving DecidableEq

abbrev Registry (Time : Type) := HoldRegistry String (Connection Time)

/-- What a call does under the lock. -/
abbrev Locked (Time α : Type) := Outcome String (Connection Time) α

/-- What a call returns, as far as it does not hand out the connection itself. -/
inductive Result
  | none
  | bool (b : Bool)
  | close (answer : CloseAnswer)
  | count (n : Nat)
  deriving DecidableEq, Repr

section
variable {Time : Type} (r : Registry Time)

/-- The record of a new connection. -/
def store (id userId : String) (now : Time) : Registry Time := r.insert id ⟨userId, now⟩

def touch (now : Time) (c : Connection Time) : Connection Time := { c with lastUsed := now }

/-! ## Temporary SSH connections -/

namespace Temporary

/-- `str(user_id)`, unless it is `None` or a boolean. -/
def canonicalUserId : Value → Option String
  | .int i => some (toString i)
  | .str s => some s
  | .other text => some text
  | _ => none

/-- `get_sftp_client(connection_id)`; `active` is what the transport of the client shows, where
one that is missing or raises counts as dead. -/
def getSftpClient (connectionId : String) (active : Bool) (now : Time) : Locked Time Bool :=
  r.observe connectionId (fun _ => true) active (touch now)

def acquireHold (connectionId : String) (userId : Value) : Locked Time Bool :=
  match canonicalUserId userId with
  | none => r.answer false
  | some userId => r.hold connectionId fun conn => conn.value.userId = userId

def releaseHold (connectionId : String) (userId : Value) : Locked Time Bool :=
  match canonicalUserId userId with
  | none => r.answer false
  | some userId => r.unhold connectionId fun conn => conn.value.userId = userId

def requestClose (connectionId : String) : Value → Locked Time CloseAnswer
  | .none => r.requestClose connectionId fun _ => true
  | userId =>
    match canonicalUserId userId with
    | none => r.answer .unavailable
    | some userId => r.requestClose connectionId fun conn => conn.value.userId = userId

def cleanupExpired [Sub Time] [LT Time] [DecidableLT Time] (cleanupInterval now : Time) :
    Locked Time Nat :=
  r.detach (fun _ conn => cleanupInterval < now - conn.value.lastUsed) true

/-- `close_all_user_connections(user_id)` compares the id as it is. -/
def closeAllUserConnections (userId : Value) : Locked Time Nat :=
  r.detach (fun _ conn => .str conn.value.userId = userId) false

def closeAllConnections : Locked Time Nat := r.detach (fun _ _ => true) false

end Temporary

/-! ## SMB sources -/

namespace Smb

inductive FileSourceKind
  | sftpSession
  | sftpQuick
  | smbQuick
  deriving DecidableEq, Repr

def FileSourceKind.ofValue : String → Option FileSourceKind
  | "sftp-session" => some .sftpSession
  | "sftp-quick" => some .sftpQuick
  | "smb-quick" => some .smbQuick
  | _ => none

/-- `_HANDLE_PATTERN`: `[A-Za-z0-9][A-Za-z0-9_-]{0,127}` -/
def handlePattern (handle : List Char) : Bool :=
  match handle with
  | [] => false
  | c :: cs => c.isAlphanum && cs.length ≤ 127 &&
    cs.all fun c => c.isAlphanum || c = '_' || c = '-'

/-- `parse_source_id(source_id)` -/
def parseSourceId (sourceId : String) : Option (FileSourceKind × String) :=
  if sourceId.toList.count ':' ≠ 1 then none
  else
    let rawKind := sourceId.toList.takeWhile (· ≠ ':')
    let handle := (sourceId.toList.dropWhile (· ≠ ':')).drop 1
    match FileSourceKind.ofValue (String.ofList rawKind) with
    | none => none
    | some kind => if handlePattern handle then some (kind, String.ofList handle) else none

example : parseSourceId "smb-quick:a1" = some (.smbQuick, "a1") := by decide

/-- `_handle_id(source_id)` -/
def handleId (sourceId : String) : Option String :=
  if ':' ∈ sourceId.toList then
    match parseSourceId sourceId with
    | some (.smbQuick, handle) => some handle
    | _ => none
  else some sourceId

/-- `_canonical_user_id(user_id)` -/
def canonicalUserId (userId : Value) : Option String :=
  match Temporary.canonicalUserId userId with
  | none => none
  | some value =>
    if value.isEmpty || value ≠ strip value || 128 < value.length then none else some value

/-- `get_source(source_id, user_id)`; `alive` is `_source_alive` of the source under each id. -/
def getSource (sourceId : String) (userId : Value) (alive : String → Bool) (now : Time) :
    Locked Time Bool :=
  match handleId sourceId, canonicalUserId userId with
  | some handleId, some userId =>
    r.observe handleId (fun source => source.value.userId = userId) (alive handleId) (touch now)
  | _, _ => r.answer false

def acquireHold (sourceId : String) (userId : Value) (alive : String → Bool) :
    Locked Time Bool :=
  match handleId sourceId, canonicalUserId userId with
  | some handleId, some userId =>
    r.hold handleId fun source => source.value.userId = userId && alive handleId
  | _, _ => r.answer false

def releaseHold (sourceId : String) (userId : Value) : Locked Time Bool :=
  match handleId sourceId, canonicalUserId userId with
  | some handleId, some userId => r.unhold handleId fun source => source.value.userId = userId
  | _, _ => r.answer false

def requestClose (sourceId : String) : Value → Locked Time CloseAnswer
  | .none =>
    match handleId sourceId with
    | some handleId => r.requestClose handleId fun _ => true
    | none => r.answer .unavailable
  | userId =>
    match handleId sourceId, canonicalUserId userId with
    | some handleId, some userId =>
      r.requestClose handleId fun source => source.value.userId = userId
    | _, _ => r.answer .unavailable

def cleanupExpired [Sub Time] [LT Time] [DecidableLT Time] (cleanupInterval now : Time)
    (alive : String → Bool) : Locked Time Nat :=
  r.detach (fun handleId source =>
    decide (cleanupInterval < now - source.value.lastUsed) || !alive handleId) true

def closeAllUserSources (userId : Value) : Locked Time Nat :=
  match canonicalUserId userId with
  | none => r.answer 0
  | some userId => r.detach (fun _ source => source.value.userId = userId) false

def closeAllSources : Locked Time Nat := r.detach (fun _ _ => true) false

end Smb
end

/-! ## All sequences of calls -/

inductive Kind
  | temporary
  | smb
  deriving DecidableEq, Repr

/-- The calls; `alive` is what the transports show at the time of the call. An id that is not a
string is in no registry. -/
inductive Op (Time : Type)
  | store (id userId : String) (now : Time)
  /-- `get_sftp_client`, `get_source` -/
  | get (id : String) (userId : Value) (alive : String → Bool) (now : Time)
  | acquireHold (id : String) (userId : Value) (alive : String → Bool)
  | releaseHold (id : String) (userId : Value)
  | requestClose (id : String) (userId : Value)
  | cleanupExpired (alive : String → Bool) (now : Time)
  /-- `close_all_user_connections`, `close_all_user_sources` -/
  | closeAllUser (userId : Value)
  /-- `close_all_connections`, `close_all_sources` -/
  | closeAll

/-- The key of the registry that an id names. -/
def Kind.key : Kind → String → Option String
  | .temporary, id => some id
  | .smb, id => Smb.handleId id

/-- The owner that a user id names. -/
def Kind.owner : Kind → Value → Option String
  | .temporary, userId => Temporary.canonicalUserId userId
  | .smb, userId => Smb.canonicalUserId userId

/-- A call that has left the lock, with what it returns and the records it has still to close. -/
structure Closing (Time : Type) where
  result : Result
  records : List (Held (Connection Time))

structure State (Time : Type) where
  registry : Registry Time
  closing : List (Closing Time)
  /-- The reservations that were released. -/
  released : List Nat

inductive Answer
  | returns (result : Result)
  /-- The call goes on and closes a record. -/
  | closes
  deriving DecidableEq

inductive Action (Time : Type)
  | call (op : Op Time)
  /-- The `i`-th of the calls that close records closes its next one. -/
  | close (i : Nat)

section
variable {Time : Type}

def State.init : State Time := ⟨empty, [], []⟩

/-- A call leaves the lock. -/
def State.leave (s : State Time) (o : Locked Time Result) : Answer × State Time :=
  match o.gone with
  | [] => (.returns o.answer, { s with registry := o.after })
  | e :: es =>
    (.closes, { s with registry := o.after, closing := s.closing ++ [⟨o.answer, e :: es⟩] })

/-- `_close_detached_connections`, `_close_detached`: one record. -/
def State.close (s : State Time) (i : Nat) : Option (Answer × State Time) :=
  match s.closing[i]? with
  | none => none
  | some ⟨_, []⟩ => none
  | some ⟨result, [e]⟩ =>
    some (.returns result,
      { s with closing := s.closing.eraseIdx i, released := s.released ++ [e.ticket] })
  | some ⟨result, e :: es⟩ =>
    some (.closes,
      { s with closing := s.closing.set i ⟨result, es⟩, released := s.released ++ [e.ticket] })

variable [Sub Time] [LT Time] [DecidableLT Time] (cleanupInterval : Time)

def Kind.locked (r : Registry Time) : Kind → Op Time → Locked Time Result
  | _, .store id userId now => (store r id userId now).answer .none
  | .temporary, .get id _ alive now =>
    (Temporary.getSftpClient r id (alive id) now).map .bool
  | .temporary, .acquireHold id userId _ => (Temporary.acquireHold r id userId).map .bool
  | .temporary, .releaseHold id userId => (Temporary.releaseHold r id userId).map .bool
  | .temporary, .requestClose id userId => (Temporary.requestClose r id userId).map .close
  | .temporary, .cleanupExpired _ now =>
    (Temporary.cleanupExpired r cleanupInterval now).map .count
  | .temporary, .closeAllUser userId => (Temporary.closeAllUserConnections r userId).map .count
  | .temporary, .closeAll => (Temporary.closeAllConnections r).map .count
  | .smb, .get id userId alive now => (Smb.getSource r id userId alive now).map .bool
  | .smb, .acquireHold id userId alive => (Smb.acquireHold r id userId alive).map .bool
  | .smb, .releaseHold id userId => (Smb.releaseHold r id userId).map .bool
  | .smb, .requestClose id userId => (Smb.requestClose r id userId).map .close
  | .smb, .cleanupExpired alive now =>
    (Smb.cleanupExpired r cleanupInterval now alive).map .count
  | .smb, .closeAllUser userId => (Smb.closeAllUserSources r userId).map .count
  | .smb, .closeAll => (Smb.closeAllSources r).map .count

def step (kind : Kind) (s : State Time) : Action Time → Option (Answer × State Time)
  | .call op => some (s.leave (kind.locked cleanupInterval s.registry op))
  | .close i => s.close i

/-- The calls of one pool, in any order and with their closing parts interleaved. -/
def system (kind : Kind) : System (State Time) (Action Time × Answer) :=
  System.calls .init (step cleanupInterval kind)

end
end WebSSH.Pool
