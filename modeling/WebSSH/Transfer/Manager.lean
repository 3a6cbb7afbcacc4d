import WebSSH.Lib.Python
import WebSSH.Lib.System
import WebSSH.Quota.Manager
import Mathlib.Order.Basic

/-!
# The transfer manager

`TransferManager` of `transfer_manager.py`: descriptors of file transfers with one-use tokens and
one unit of the transfer quota each. A record outlives its entry in `_records`, so the records are
kept in the order of their creation and `_records` maps an id to a position. Each call of an
operation is one step, for its critical section is the whole of it; every reading of the clock is
numbered. A step is `none` where the source does not get to its end: a draw of random ids or
tokens that finds no new one, and a quota release that raises.
-/

namespace WebSSH.Transfer
open Lib Lib.Python Quota

inductive TransferState
  | pending
  | running
  | cancelling
  | cancelled
  | failed
  | completed
  deriving DecidableEq, Repr

namespace TransferState

def value : TransferState → String
  | pending => "pending"
  | running => "running"
  | cancelling => "cancelling"
  | cancelled => "cancelled"
  | failed => "failed"
  | completed => "completed"

def terminal : TransferState → Bool
  | pending | running | cancelling => false
  | cancelled | failed | completed => true

end TransferState

/-- `DIRECTIONS` -/
inductive Direction
  | upload
  | download
  | serverToServer
  deriving DecidableEq, Repr

def Direction.ofValue : Value → Option Direction
  | .str "upload" => some .upload
  | .str "download" => some .download
  | .str "server_to_server" => some .serverToServer
  | _ => none

structure TransferCancelResult where
  accepted : Bool
  state : String
  deriving DecidableEq, Repr

inductive Error
  | valueError (message : String)
  | runtimeShuttingDown
  | invalidTransferToken
  | quota (e : QuotaError)
  deriving DecidableEq, Repr

/-- `_normalize_id(value, name)`, but for the name in its message. -/
def normalizeId : Value → Option String
  | .int i => some (toString i)
  | .str s => if (strip s).isEmpty then none else some (strip s)
  | _ => none

def requireId (value : Value) (name : String) : Except Error String :=
  match normalizeId value with
  | some id => .ok id
  | none => .error (.valueError (name ++ " is required"))

structure TransferRecord (Time : Type) where
  transferId : String
  token : Option String
  userId : String
  ownerSid : Option String
  sourceId : String
  sourceIds : List String
  holdsReleased : Bool
  direction : Direction
  state : TransferState
  cancelEvent : Bool
  expiresAt : Time
  tokenConsumed : Bool
  quotaReservation : Nat
  deriving DecidableEq

structure State (Time : Type) where
  quota : QuotaManager
  /-- Every record ever created. -/
  heap : List (TransferRecord Time)
  records : Dict String Nat
  /-- The user, the state's value and the time the entry is forgotten. -/
  terminalStates : Dict String (String × String × Time)
  runtimeBinding : Option Nat
  bindings : Nat
  accepting : Bool
  /-- How often the clock has been read. -/
  reads : Nat

structure Config (Time : Type) where
  tokenTtl : Time
  /-- What each reading of the clock returns. -/
  clock : Nat → Time

def State.init {Time : Type} (limits : QuotaKind → KindLimits) : State Time where
  quota := .init limits
  heap := []
  records := ∅
  terminalStates := ∅
  runtimeBinding := none
  bindings := 0
  accepting := true
  reads := 0

section
variable {Time : Type} [LinearOrder Time] [Add Time] (cfg : Config Time)

/-- `self._clock()` -/
def State.now (s : State Time) : Time × State Time :=
  (cfg.clock s.reads, { s with reads := s.reads + 1 })

/-- `_release_for_terminal(record, release_source_holds=..)` -/
def State.releaseForTerminal (s : State Time) (i : Nat) (r : TransferRecord Time)
    (releaseSourceHolds : Bool) : Option (State Time) :=
  match s.quota.release r.quotaReservation with
  | none => none
  | some quota => some
    { s with
      quota := quota
      heap := s.heap.set i { r with holdsReleased := r.holdsReleased || releaseSourceHolds } }

/-- `_finalize_record_locked(record, target_state, set_cancel_event)` -/
def State.finalizeRecord (s : State Time) (i : Nat) (r : TransferRecord Time)
    (target : TransferState) (setCancelEvent : Bool) : State Time :=
  let (now, s) := s.now cfg
  { s with
    heap := s.heap.set i
      { r with
        state := target, token := none, tokenConsumed := true
        cancelEvent := r.cancelEvent || setCancelEvent }
    records := s.records.erase r.transferId
    terminalStates :=
      s.terminalStates.set r.transferId (r.userId, target.value, now + cfg.tokenTtl) }

/-- Release what a record holds and move it to a terminal state. -/
def State.terminate (s : State Time) (i : Nat) (target : TransferState)
    (releaseSourceHolds setCancelEvent : Bool) : Option (State Time) :=
  match s.heap[i]? with
  | none => none
  | some r =>
    (s.releaseForTerminal i r releaseSourceHolds).map fun s =>
      s.finalizeRecord cfg i { r with holdsReleased := r.holdsReleased || releaseSourceHolds }
        target setCancelEvent

/-- The records of `_records.values()` that satisfy `p`. -/
def State.select (s : State Time) (p : TransferRecord Time → Bool) : List Nat :=
  s.records.values.filter fun i => (s.heap[i]?).any p

/-- `_cleanup_expired_locked(now)` -/
def State.cleanupExpired (s : State Time) (now : Time) : Option (Nat × State Time) :=
  let s : State Time := { s with
    terminalStates := s.terminalStates.filter fun _ terminal => decide (now < terminal.2.2) }
  let expired := s.select fun r =>
    !r.tokenConsumed && r.state = .pending && decide (r.expiresAt ≤ now)
  (expired.foldlM (fun (s : State Time) i => s.terminate cfg i .failed true true) s).map fun s =>
    (expired.length, s)

/-- The cleanup at the start of an operation, with the clock read for it. -/
def State.cleanup (s : State Time) : Option (Nat × State Time) :=
  let (now, s) := s.now cfg
  s.cleanupExpired cfg now

/-- The body of the loop of `_cancel_records_locked(records)`. -/
def State.cancelRecord (acc : Nat × State Time) (i : Nat) : Option (Nat × State Time) :=
  let (cancelled, s) := acc
  match s.heap[i]? with
  | none => none
  | some r =>
    match r.state with
    | .running => some (cancelled + 1,
      { s with heap := s.heap.set i { r with state := .cancelling, cancelEvent := true } })
    | .pending => (s.terminate cfg i .cancelled true true).map fun s => (cancelled + 1, s)
    | _ => some (cancelled, s)

def State.cancelRecords (s : State Time) (records : List Nat) : Option (Nat × State Time) :=
  records.foldlM (State.cancelRecord cfg) (0, s)

/-! ## Operations -/

/-- The `source_ids` argument of `create`. -/
inductive SourceIdsArg
  | none
  | text
  | notIterable
  | values (ids : List Value)
  deriving DecidableEq, Repr

/-- The `source_holds` argument of `create`: a hold set by its source ids. -/
inductive SourceHoldsArg
  | none
  | holdSet (ids : List String)
  | other
  deriving DecidableEq, Repr

inductive MetadataArg
  | notMapping
  | notCopyable
  | mapping
  deriving DecidableEq, Repr

structure CreateArgs where
  userId : Value
  sourceId : Value
  direction : Value
  metadata : MetadataArg
  ownerSid : Value
  sourceIds : SourceIdsArg
  sourceHolds : SourceHoldsArg
  deriving DecidableEq, Repr

/-- What `create` has checked and normalized before it takes the lock. -/
structure Descriptor where
  userId : String
  sourceId : String
  sourceIds : List String
  ownerSid : Option String
  direction : Direction

def CreateArgs.normalizeSourceIds (sourceId : String) : SourceIdsArg → Except Error (List String)
  | .none => .ok [sourceId]
  | .text | .notIterable => .error (.valueError "source_ids must be a sequence")
  | .values ids => ids.mapM fun id => requireId id "source_id"

/-- The checks of `create`, in their order. -/
def CreateArgs.check (args : CreateArgs) : Except Error Descriptor := do
  let userId ← requireId args.userId "user_id"
  let sourceId ← requireId args.sourceId "source_id"
  let sourceIds ← CreateArgs.normalizeSourceIds sourceId args.sourceIds
  if ¬ (1 ≤ sourceIds.length ∧ sourceIds.length ≤ 2) ∨ sourceIds.head? ≠ some sourceId then
    throw (.valueError "source_ids are invalid")
  match args.sourceHolds with
  | .none => pure ()
  | .holdSet ids =>
    if ids ≠ sourceIds.eraseDups then
      throw (.valueError "source_holds do not match source_ids")
  | .other => throw (.valueError "source_holds do not match source_ids")
  let ownerSid ← match args.ownerSid with
    | .none => pure none
    | value => some <$> requireId value "owner_sid"
  let direction ← match Direction.ofValue args.direction with
    | some direction => pure direction
    | none => throw (.valueError "direction is invalid")
  match args.metadata with
  | .notMapping => throw (.valueError "metadata must be a mapping")
  | .notCopyable => throw (.valueError "metadata must be copyable")
  | .mapping => pure ⟨userId, sourceId, sourceIds, ownerSid, direction⟩

/-- The calls, with what `secrets.token_urlsafe` returns during a `create`. -/
inductive Op
  | bindRuntime
  | create (args : CreateArgs) (ids tokens : List String)
  | consumeToken (token userId : Value)
  | cancelWithResult (transferId userId : Value)
  | cancelAllForUser (userId : Value)
  | closeAndCancel (binding : Nat)
  | cancelAllForSocket (userId ownerSid : Value)
  | complete (transferId userId : Value)
  | fail (transferId userId : Value)
  | finishCancelled (transferId userId : Value)
  | cleanupExpired
  /-- Another component reserves units of another kind. -/
  | reserveOther (kind : QuotaKind) (userId : String) (amount : Int)
  /-- Another component releases one of its reservations. -/
  | releaseOther (reservation : Nat)

/-- What a call returns; a record with its position and its fields at the return. -/
inductive Result (Time : Type)
  | created (i : Nat) (record : TransferRecord Time)
  | consumed (i : Nat) (record : TransferRecord Time)
  | cancelResult (result : TransferCancelResult)
  | count (n : Nat)
  | bool (b : Bool)
  /-- The directions and ids of the HTTP requests to wait for. -/
  | waiters (requests : List (Direction × String))
  | binding (binding : Nat)
  | none
  | raised (e : Error)

/-- `_find_token_locked(token)`: the last record that carries the token. -/
def State.findToken (s : State Time) (token : String) : Option (Nat × TransferRecord Time) :=
  s.records.values.foldl (fun found i =>
    match s.heap[i]? with
    | some r => if r.token = some token then some (i, r) else found
    | Option.none => found) Option.none

/-- `_valid_token(token)` -/
def validToken : Value → Bool
  | .str token =>
    token.length = 43 && token.toList.all fun c => c.isAlphanum || c = '-' || c = '_'
  | _ => false

def dummyToken : String := String.ofList (List.replicate 43 'A')

def candidateToken (token : Value) : String :=
  match token with
  | .str t => if validToken token then t else dummyToken
  | _ => dummyToken

/-- `create` under the lock. -/
def State.create (s : State Time) (d : Descriptor) (ids tokens : List String) :
    Option (Result Time × State Time) :=
  let (now, s) := s.now cfg
  if s.accepting = false then some (.raised .runtimeShuttingDown, s)
  else
    (s.cleanupExpired cfg now).bind fun (_, s) =>
    (ids.find? fun id => !s.records.contains id && !s.terminalStates.contains id).bind
      fun transferId =>
    (tokens.find? fun token => (s.findToken token).isNone).map fun token =>
    match s.quota.reserve .transfer d.userId 1 with
    | .error e => (.raised (.quota e), s)
    | .ok (reservation, quota) =>
      let r : TransferRecord Time :=
        { transferId := transferId, token := some token, userId := d.userId
          ownerSid := d.ownerSid, sourceId := d.sourceId, sourceIds := d.sourceIds
          holdsReleased := false, direction := d.direction, state := .pending
          cancelEvent := false, expiresAt := now + cfg.tokenTtl, tokenConsumed := false
          quotaReservation := reservation }
      (.created s.heap.length r,
        { s with
          quota := quota
          heap := s.heap ++ [r]
          records := s.records.set transferId s.heap.length })

def State.consumeToken (s : State Time) (token userId : Value) :
    Option (Result Time × State Time) :=
  if s.accepting = false then some (.raised .runtimeShuttingDown, s)
  else
    (s.cleanup cfg).map fun (_, s) =>
    match s.findToken (candidateToken token), normalizeId userId with
    | some (i, r), some userId =>
      if !validToken token || r.tokenConsumed || r.userId ≠ userId || r.state ≠ .pending then
        (.raised .invalidTransferToken, s)
      else
        let r := { r with tokenConsumed := true, token := Option.none, state := .running }
        (.consumed i r, { s with heap := s.heap.set i r })
    | _, _ => (.raised .invalidTransferToken, s)

/-- The answer of `cancel_with_result` when no record of the user can be cancelled. -/
def State.cancelAnswer (s : State Time) (transferId userId : String) : TransferCancelResult :=
  match s.terminalStates.get? transferId with
  | some (owner, state, _) => if owner = userId then ⟨false, state⟩ else ⟨false, "unavailable"⟩
  | none => ⟨false, "unavailable"⟩

def State.cancelWithResult (s : State Time) (transferId userId : Value) :
    Option (Result Time × State Time) :=
  match normalizeId transferId, normalizeId userId with
  | some transferId, some userId =>
    (s.cleanup cfg).bind fun (_, s) =>
    match (s.records.get? transferId).bind fun i => (s.heap[i]?).map fun r => (i, r) with
    | some (i, r) =>
      if r.userId ≠ userId then some (.cancelResult (s.cancelAnswer transferId userId), s)
      else
        match r.state with
        | .pending => (s.terminate cfg i .cancelled true true).map fun s =>
          (.cancelResult ⟨true, "cancelled"⟩, s)
        | .running => some (.cancelResult ⟨true, "cancelling"⟩,
          { s with heap := s.heap.set i { r with state := .cancelling, cancelEvent := true } })
        | .cancelling => some (.cancelResult ⟨false, "cancelling"⟩, s)
        | _ => some (.cancelResult (s.cancelAnswer transferId userId), s)
    | none => some (.cancelResult (s.cancelAnswer transferId userId), s)
  | _, _ => some (.cancelResult ⟨false, "unavailable"⟩, s)

def State.cancelSelected (s : State Time) (p : TransferRecord Time → Bool) :
    Option (Result Time × State Time) :=
  (s.cleanup cfg).bind fun (_, s) =>
  (s.cancelRecords cfg (s.select p)).map fun (n, s) => (.count n, s)

def State.cancelAllForUser (s : State Time) (userId : Value) :
    Option (Result Time × State Time) :=
  match normalizeId userId with
  | some userId => s.cancelSelected cfg fun r =>
    r.userId = userId && (r.state = .pending || r.state = .running)
  | none => some (.count 0, s)

def State.cancelAllForSocket (s : State Time) (userId ownerSid : Value) :
    Option (Result Time × State Time) :=
  match normalizeId userId, normalizeId ownerSid with
  | some userId, some ownerSid => s.cancelSelected cfg fun r =>
    r.userId = userId && r.ownerSid = some ownerSid && (r.state = .pending || r.state = .running)
  | _, _ => some (.count 0, s)

def State.closeAndCancel (s : State Time) (binding : Nat) : Option (Result Time × State Time) :=
  if s.runtimeBinding ≠ some binding then some (.waiters [], s)
  else
    (State.cleanup cfg { s with accepting := false }).bind fun (_, s) =>
    let records := s.select fun r =>
      r.state = .pending || r.state = .running || r.state = .cancelling
    let waiters := (records.filterMap fun i => s.heap[i]?).filter fun r =>
      (r.direction = .upload || r.direction = .download) &&
        (r.state = .running || r.state = .cancelling)
    (s.cancelRecords cfg records).map fun (_, s) =>
    (.waiters (waiters.map fun r => (r.direction, r.transferId)), s)

/-- `_transition(transfer_id, user_id, allowed_states, target_state)` -/
def State.transition (s : State Time) (transferId userId : Value)
    (allowedStates : List TransferState) (target : TransferState) :
    Option (Result Time × State Time) :=
  match normalizeId transferId, normalizeId userId with
  | some transferId, some userId =>
    (s.cleanup cfg).bind fun (_, s) =>
    match (s.records.get? transferId).bind fun i => (s.heap[i]?).map fun r => (i, r) with
    | some (i, r) =>
      if r.userId ≠ userId || !allowedStates.contains r.state then some (.bool false, s)
      else
        (s.terminate cfg i target
          (!(target = .cancelled && (r.state = .running || r.state = .cancelling)))
          (target = .cancelled)).map fun s => (.bool true, s)
    | none => some (.bool false, s)
  | _, _ => some (.bool false, s)

def State.step (s : State Time) : Op → Option (Result Time × State Time)
  | .bindRuntime => some (.binding s.bindings,
    { s with runtimeBinding := some s.bindings, bindings := s.bindings + 1, accepting := true })
  | .create args ids tokens =>
    match args.check with
    | .error e => some (.raised e, s)
    | .ok d => s.create cfg d ids tokens
  | .consumeToken token userId => s.consumeToken cfg token userId
  | .cancelWithResult transferId userId => s.cancelWithResult cfg transferId userId
  | .cancelAllForUser userId => s.cancelAllForUser cfg userId
  | .closeAndCancel binding => s.closeAndCancel cfg binding
  | .cancelAllForSocket userId ownerSid => s.cancelAllForSocket cfg userId ownerSid
  | .complete transferId userId =>
    s.transition cfg transferId userId [.running, .cancelling] .completed
  | .fail transferId userId =>
    s.transition cfg transferId userId [.pending, .running, .cancelling] .failed
  | .finishCancelled transferId userId =>
    s.transition cfg transferId userId [.running, .cancelling] .cancelled
  | .cleanupExpired => (s.cleanup cfg).map fun (n, s) => (.count n, s)
  | .reserveOther kind userId amount =>
    if kind = .transfer then none
    else
      match s.quota.reserve kind userId amount with
      | .error e => some (.raised (.quota e), s)
      | .ok (_, quota) => some (.none, { s with quota := quota })
  | .releaseOther i =>
    match s.quota.reservations[i]? with
    | some r =>
      if r.kind = .transfer then none
      else (s.quota.release i).map fun quota => (.none, { s with quota := quota })
    | none => none

/-- A call that has returned: what it read from the clock first, and its result. -/
structure Event (Time : Type) where
  op : Op
  time : Time
  result : Result Time

/-- All sequences of calls. -/
def system (limits : QuotaKind → KindLimits) : System (State Time) (Event Time) where
  Init s := s = .init limits
  Step s e s' := s.step cfg e.op = some (e.result, s') ∧ e.time = cfg.clock s.reads

end
end WebSSH.Transfer
