import WebSSH.Lib.System
import WebSSH.Lib.Dict
import Mathlib.Logic.Function.Basic

/-!
# Connection attempts

`SSHConnectionAttempt` and `SSHAttemptRegistry` of `ssh_connection_attempt.py`. A `with` block of
the condition or of the registry's lock is one step. What a call does after such a block is listed
in `calls` (the registry's sweeps in `sweeps`), and any call in progress may take the next step.
Cancelling the job handle sets the event that `bind_runtime` has bound, which is a step of its own.
-/

namespace WebSSH.SSHAttempt
open Lib

inductive Phase
  | pending
  | committed
  | cancelled
  | finished
  deriving DecidableEq, Repr

/-- Who has called `attempt.finish()`. -/
inductive Caller
  | direct
  /-- `SSHAttemptRegistry.finish` -/
  | registry
  deriving DecidableEq, Repr

/-- What a call on an attempt still has to do outside the condition. -/
inductive Call (R : Type)
  /-- `own` closes what it did not take, and raises. -/
  | rejected (resource : R)
  /-- `cancel` closes the resources it has taken over; it may be the one in `finish`. -/
  | closing (resources : List R) (finish : Option Caller)
  /-- `finish` after its `cancel`. -/
  | finishing (caller : Caller)
  /-- `finish` releases the reservation. -/
  | releasing (caller : Caller)
  /-- `SSHAttemptRegistry.finish` after `attempt.finish()`. -/
  | unregistering
  deriving DecidableEq, Repr

/-- `(user_id, sid, request_id)` -/
structure Key where
  userId : String
  sid : String
  requestId : String
  deriving DecidableEq, Repr

structure Attempt (R : Type) where
  registryKey : Key
  /-- There is a reservation. -/
  reservation : Bool
  deadline : Option Nat
  /-- The event that is bound, by whether it is set. -/
  runtimeCancel : Option Bool
  cancelEvent : Bool
  state : Phase
  cancelReason : Option String
  resources : List R
  calls : List (Call R)
  /-- The arguments of `own`. -/
  passed : List R
  /-- What `handoff` has removed from the resources. -/
  handedOff : List R
  /-- The resources the attempt has closed. -/
  closed : List R
  /-- How often the reservation has been released. -/
  releases : Nat
  /-- A `commit_if_active` has returned `True`. -/
  committedOnce : Bool
  /-- A `SSHAttemptRegistry.finish` has returned. -/
  unregistered : Bool

inductive Result
  | returned
  | raised
  | bool (b : Bool)
  deriving DecidableEq, Repr

/-- The reasons for which a committed attempt is cancelled all the same. -/
def runtimeReasons : List String := ["finished", "disconnected", "shutdown"]

namespace Attempt
variable {R : Type} [DecidableEq R]

/-- `is_set()`; `refused` says whether the `check` of a subclass raises. -/
def isSet (a : Attempt R) (now : Nat) (refused : Bool) : Bool :=
  a.cancelEvent || a.state = .finished || a.runtimeCancel = some true ||
    (a.state ≠ .committed && a.deadline.any (· ≤ now)) || refused

def commitIfActive (a : Attempt R) (now : Nat) (refused : Bool) : Result × Attempt R :=
  if a.isSet now refused then (.bool false, a)
  else (.bool true, { a with state := .committed, committedOnce := true })

def own (a : Attempt R) (now : Nat) (refused : Bool) (resource : R) : Result × Attempt R :=
  if a.isSet now refused then
    (.raised,
      { a with passed := a.passed ++ [resource], calls := a.calls ++ [.rejected resource] })
  else
    (.returned,
      { a with
        passed := a.passed ++ [resource]
        resources := if resource ∈ a.resources then a.resources else a.resources ++ [resource] })

/-- One turn of the loop in `handoff`. -/
def handoffOne (a : Attempt R) (resource : R) : Attempt R :=
  if resource ∈ a.resources then
    { a with
      resources := a.resources.erase resource
      handedOff := a.handedOff ++ [resource] }
  else a

def handoff (a : Attempt R) (now : Nat) (refused : Bool) (resources : List R) :
    Result × Attempt R :=
  if a.isSet now refused then (.raised, a) else (.returned, resources.foldl handoffOne a)

/-- `cancel(reason=reason)`, which may be the one in `finish`. -/
def cancel (a : Attempt R) (reason : String) (finish : Option Caller) : Result × Attempt R :=
  if a.state = .committed ∧ reason ∉ runtimeReasons ∨ a.state = .finished then
    match finish with
    | none => (.bool false, a)
    | some caller => (.bool false, { a with calls := a.calls ++ [.finishing caller] })
  else
    (.bool true,
      { a with
        cancelReason := a.cancelReason.or (some reason)
        cancelEvent := true
        state := if a.state = .committed then .committed else .cancelled
        resources := []
        calls := a.calls ++ [.closing a.resources.reverse finish] })

def returning : Caller → List (Call R)
  | .direct => []
  | .registry => [.unregistering]

/-- The next step of a call, with what it still has to do then. -/
def resume (a : Attempt R) : Call R → Attempt R × List (Call R)
  | .rejected resource => ({ a with closed := a.closed ++ [resource] }, [])
  | .closing (resource :: rest) finish =>
    ({ a with closed := a.closed ++ [resource] }, [.closing rest finish])
  | .closing [] none => (a, [])
  | .closing [] (some caller) => (a, [.finishing caller])
  | .finishing caller =>
    if a.state = .finished then (a, returning caller)
    else
      ({ a with state := .finished },
        if a.reservation then [.releasing caller] else returning caller)
  | .releasing caller => ({ a with releases := a.releases + 1 }, returning caller)
  | .unregistering => ({ a with unregistered := true }, [])

end Attempt

structure State (R : Type) where
  attempts : Nat → Attempt R
  /-- How many attempts have been made. -/
  created : Nat
  registry : Dict Key Nat
  stopping : Bool
  now : Nat
  /-- The attempts that `cancel_socket` and `shutdown` still have to cancel, with the reason. -/
  sweeps : List (List Nat × String)

inductive Action (R : Type)
  /-- `token` is what `secrets.token_urlsafe` returns; `admitted` says whether the reservation and
  the factory succeed. -/
  | create (userId sid : String) (requestId : Option String) (token : String) (reserve : Bool)
      (timeout : Option Nat) (admitted : Bool)
  | cancelSocket (sid : String)
  | shutdown
  /-- `SSHAttemptRegistry.finish` -/
  | finish (i : Nat)
  /-- The next step of a sweep. -/
  | sweep (k : Nat)
  | bindRuntime (i : Nat) (isSet : Bool)
  /-- The bound event is set. -/
  | runtimeSignal (i : Nat)
  | check (i : Nat) (refused : Bool)
  | commitIfActive (i : Nat) (refused : Bool)
  | own (i : Nat) (refused : Bool) (resource : R)
  | handoff (i : Nat) (refused : Bool) (resources : List R)
  | cancel (i : Nat) (reason : String)
  /-- `attempt.finish()` -/
  | finishAttempt (i : Nat)
  /-- The next step of a call on an attempt. -/
  | resume (i k : Nat)
  | tick
  deriving DecidableEq

namespace State
variable {R : Type} [DecidableEq R]

def newAttempt (key : Key) (reservation : Bool) (deadline : Option Nat) : Attempt R :=
  ⟨key, reservation, deadline, none, false, .pending, none, [], [], [], [], [], 0, false, false⟩

def init : State R where
  attempts _ := newAttempt ⟨"", "", ""⟩ false none
  created := 0
  registry := ∅
  stopping := false
  now := 0
  sweeps := []

def setAttempt (s : State R) (i : Nat) (a : Attempt R) : State R :=
  { s with attempts := Function.update s.attempts i a }

/-- A call on an attempt that exists. -/
def onAttempt (s : State R) (i : Nat) (call : Attempt R → Result × Attempt R) :
    Option (Result × State R) :=
  if i < s.created then
    let (result, a) := call (s.attempts i)
    some (result, s.setAttempt i a)
  else none

def create (s : State R) (userId sid : String) (requestId : Option String) (token : String)
    (reserve : Bool) (timeout : Option Nat) (admitted : Bool) : Result × State R :=
  if requestId.any (fun id => id.length < 1 || 128 < id.length) then (.raised, s)
  else
    let key : Key := ⟨userId, sid, requestId.getD token⟩
    if s.stopping ∨ s.registry.contains key ∨ ¬ admitted then (.raised, s)
    else
      (.returned,
        { s.setAttempt s.created (newAttempt key reserve (timeout.map (s.now + ·))) with
          created := s.created + 1
          registry := s.registry.set key s.created })

/-- The attempts that are registered, for a socket or all of them. -/
def registered (s : State R) (sid : Option String) : List Nat :=
  s.registry.values.filter fun i => sid.all (· = (s.attempts i).registryKey.sid)

/-- `del self.attempts[attempt.registry_key]`, if it is this attempt. -/
def unregister (s : State R) (i : Nat) : State R :=
  let key := (s.attempts i).registryKey
  if s.registry.get? key = some i then { s with registry := s.registry.erase key } else s

/-- The next step of the call at `k`. -/
def resume (s : State R) (i k : Nat) : Option (State R) :=
  let a := s.attempts i
  (a.calls[k]?).map fun call =>
    let (a, next) := { a with calls := a.calls.eraseIdx k }.resume call
    let s := if call = Call.unregistering then s.unregister i else s
    s.setAttempt i { a with calls := a.calls ++ next }

def step (s : State R) : Action R → Option (Result × State R)
  | .create userId sid requestId token reserve timeout admitted =>
    some (s.create userId sid requestId token reserve timeout admitted)
  | .cancelSocket sid =>
    some (.returned, { s with
      sweeps := s.sweeps ++ [(s.registered (some sid), "disconnected")] })
  | .shutdown =>
    some (.returned, { s with
      stopping := true, sweeps := s.sweeps ++ [(s.registered none, "shutdown")] })
  | .finish i => s.onAttempt i (·.cancel "finished" (some .registry))
  | .sweep k =>
    match s.sweeps[k]? with
    | some (i :: rest, reason) =>
      { s with sweeps := s.sweeps.set k (rest, reason) }.onAttempt i (·.cancel reason none)
    | some ([], _) => some (.returned, { s with sweeps := s.sweeps.eraseIdx k })
    | none => none
  | .bindRuntime i isSet =>
    s.onAttempt i fun a => (.returned, { a with runtimeCancel := some isSet })
  | .runtimeSignal i =>
    s.onAttempt i fun a => (.returned, { a with runtimeCancel := a.runtimeCancel.map fun _ => true })
  | .check i refused =>
    s.onAttempt i fun a => (if a.isSet s.now refused then .raised else .returned, a)
  | .commitIfActive i refused => s.onAttempt i (·.commitIfActive s.now refused)
  | .own i refused resource => s.onAttempt i (·.own s.now refused resource)
  | .handoff i refused resources => s.onAttempt i (·.handoff s.now refused resources)
  | .cancel i reason => s.onAttempt i (·.cancel reason none)
  | .finishAttempt i => s.onAttempt i (·.cancel "finished" (some .direct))
  | .resume i k => if i < s.created then (s.resume i k).map fun s => (.returned, s) else none
  | .tick => some (.returned, { s with now := s.now + 1 })

end State

/-- All interleavings; a label is a call with its result. -/
def system (R : Type) [DecidableEq R] : System (State R) (Action R × Result) :=
  System.calls .init State.step

end WebSSH.SSHAttempt
