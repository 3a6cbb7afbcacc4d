import WebSSH.Lib.System
import Mathlib.Algebra.Order.Ring.Rat
import Mathlib.Logic.Function.Basic

/-!
# The runtime lifecycle

`RuntimeLifecycle` of `runtime_lifecycle.py`. A block under the lock is one step, and so are a
callback of the shutdown, a look at the clock with the wait it bounds, and the signal to one job.
Only the block that makes the report takes several steps: it tests one job or waiter after another,
and a future or an event is set without the lock. The call of `begin_shutdown` that does the work is
the record `Shutdown`; those that find it started wait on the condition.
-/

namespace WebSSH.Runtime
open Lib

structure JobHandle (Owner : Type) where
  jobId : Nat
  name : String
  ownerId : Owner
  deferCancelUntilCallbacks : Bool
  deriving DecidableEq, Repr

/-- `(name, owner_id, done_event)`, as a shutdown callback returns them. -/
structure Waiter (Owner : Type) where
  name : String
  ownerId : Owner
  doneEvent : Nat
  deriving DecidableEq, Repr

structure ShutdownReport (Owner : Type) where
  cancelled : List (String × Owner)
  remaining : List (String × Owner)
  deriving DecidableEq, Repr

/-- Where `begin_shutdown` is, with what is left of the loop it is in. -/
inductive Phase (Owner : Type)
  | starting (graceSeconds : Rat)
  | callbacks (left : List String)
  | immediate (left : List (JobHandle Owner))
  | awaiting (left : List (Waiter Owner))
  | deferred (left : List (JobHandle Owner))
  | joining (left : List (JobHandle Owner))
  /-- Under the lock: the tests that are left, and what those before have found unfinished. -/
  | testing (jobs : List (JobHandle Owner)) (waiters : List (Waiter Owner))
      (remainingJobs : List (JobHandle Owner)) (remainingCallbacks : List (Waiter Owner))
  | published
  /-- What is no `Exception` has left `begin_shutdown`. -/
  | aborted
  deriving DecidableEq, Repr

/-- The locals of the `begin_shutdown` that does the work. -/
structure Shutdown (Owner : Type) where
  handles : List (JobHandle Owner)
  callbacks : List String
  /-- The callbacks that have returned or raised. -/
  returned : List String
  deadline : Option Rat
  callbackWaiters : List (Waiter Owner)
  /-- The jobs and the events that were done when the first test was made. -/
  doneBefore : (Nat → Bool) × (Nat → Bool)
  phase : Phase Owner

structure State (Owner : Type) where
  jobs : List (JobHandle Owner)
  shutdownCallbacks : List String
  nextJobId : Nat
  acceptingJobs : Bool
  shutdownStarted : Bool
  shutdownReport : Option (ShutdownReport Owner)
  executorShutdown : Bool
  now : Rat
  /-- `cancel_event.is_set()` by job. -/
  cancelEvent : Nat → Bool
  /-- `future.done()` by job. -/
  done : Nat → Bool
  /-- `future.result()` raises what is no `Exception`. -/
  fatal : Nat → Bool
  /-- `done_event.is_set()` of the waiters' events. -/
  doneEvent : Nat → Bool
  shutdown : Option (Shutdown Owner)
  /-- The calls of `begin_shutdown` that wait for the report. -/
  waiting : Nat
  /-- Every handle `start_job` has returned, in order. -/
  accepted : List (JobHandle Owner)
  /-- The jobs that were removed before a shutdown had started. -/
  removedBefore : List Nat

inductive Action (Owner : Type)
  | startJob (name : String) (ownerId : Owner) (deferCancel submitFails : Bool)
  | complete (job : Nat) (fatal : Bool)
  /-- The done callback of the future. -/
  | removeJob (job : Nat)
  /-- `handle.cancel()` by a caller of `start_job`. -/
  | cancel (job : Nat)
  | registerShutdownCallback (name : String)
  /-- Somebody sets the event of a waiter. -/
  | setEvent (event : Nat)
  /-- `none` is an argument that is not a finite number. -/
  | beginShutdown (graceSeconds : Option Rat) (fromWorker : Bool)
  /-- The next callback returns, or raises after these waiters were taken. -/
  | callback (waiters : List (Waiter Owner))
  /-- The next callback raises what is no `Exception`. -/
  | abort
  /-- The next step of the shutdown, outside the callbacks. -/
  | proceed
  /-- A waiting `begin_shutdown` finds the report. -/
  | wake
  | tick (seconds : Rat)
  deriving DecidableEq

inductive Result (Owner : Type)
  | returned
  | raised
  | bool (b : Bool)
  | handle (handle : JobHandle Owner)
  | report (report : ShutdownReport Owner)
  /-- The call goes on in later steps. -/
  | running
  deriving DecidableEq

def Phase.isTesting {Owner : Type} : Phase Owner → Bool
  | .testing .. => true
  | _ => false

/-- The calls of other threads that take the lock. -/
def Action.takesLock {Owner : Type} : Action Owner → Bool
  | .startJob name .. | .registerShutdownCallback name => name ≠ ""
  | .beginShutdown graceSeconds fromWorker => graceSeconds.any (0 ≤ ·) && !fromWorker
  | .removeJob _ | .cancel _ | .wake => true
  | .complete .. | .setEvent _ | .callback _ | .abort | .proceed | .tick _ => false

variable {Owner : Type} [DecidableEq Owner]

def JobHandle.snapshot (handle : JobHandle Owner) : String × Owner := (handle.name, handle.ownerId)

def Waiter.snapshot (waiter : Waiter Owner) : String × Owner := (waiter.name, waiter.ownerId)

namespace State

def init : State Owner where
  jobs := []
  shutdownCallbacks := []
  nextJobId := 0
  acceptingJobs := true
  shutdownStarted := false
  shutdownReport := none
  executorShutdown := false
  now := 0
  cancelEvent _ := false
  done _ := false
  fatal _ := false
  doneEvent _ := false
  shutdown := none
  waiting := 0
  accepted := []
  removedBefore := []

def startJob (s : State Owner) (name : String) (ownerId : Owner) (deferCancel submitFails : Bool) :
    Result Owner × State Owner :=
  if name = "" then (.raised, s)
  else if !s.acceptingJobs then (.raised, s)
  else
    let handle : JobHandle Owner := ⟨s.nextJobId, name, ownerId, deferCancel⟩
    let s := { s with nextJobId := s.nextJobId + 1 }
    if submitFails then (.raised, s)
    else
      (.handle handle,
        { s with jobs := s.jobs ++ [handle], accepted := s.accepted ++ [handle] })

def isAccepted (s : State Owner) (job : Nat) : Bool := s.accepted.any (·.jobId = job)

def removeJob (s : State Owner) (job : Nat) : State Owner :=
  { s with
    jobs := s.jobs.filter (·.jobId ≠ job)
    removedBefore := if s.shutdownStarted then s.removedBefore else s.removedBefore ++ [job] }

def setCancelEvent (s : State Owner) (job : Nat) : State Owner :=
  { s with cancelEvent := Function.update s.cancelEvent job true }

/-- `_cancel_handle` -/
def cancelHandle (s : State Owner) (job : Nat) : Result Owner × State Owner :=
  if s.cancelEvent job then (.bool false, s) else (.bool true, s.setCancelEvent job)

def registerShutdownCallback (s : State Owner) (name : String) : Result Owner × State Owner :=
  if name = "" ∨ !s.acceptingJobs ∨ name ∈ s.shutdownCallbacks then (.raised, s)
  else (.returned, { s with shutdownCallbacks := s.shutdownCallbacks ++ [name] })

/-- `begin_shutdown` up to the end of its first block under the lock. -/
def beginShutdown (s : State Owner) (graceSeconds : Option Rat) (fromWorker : Bool) :
    Result Owner × State Owner :=
  match graceSeconds with
  | none => (.raised, s)
  | some grace =>
    if grace < 0 then (.raised, s)
    else if fromWorker then (.raised, s)
    else
      match s.shutdownReport with
      | some report => (.report report, { s with executorShutdown := true })
      | none =>
        if s.shutdownStarted then (.running, { s with waiting := s.waiting + 1 })
        else
          (.running,
            { s with
              shutdownStarted := true
              acceptingJobs := false
              shutdown := some
                ⟨s.jobs, s.shutdownCallbacks, [], none, [], (fun _ => false, fun _ => false),
                  .starting grace⟩ })

/-- `remaining <= 0` -/
def expired (s : State Owner) (c : Shutdown Owner) : Bool := c.deadline.any (· - s.now ≤ 0)

def setShutdown (s : State Owner) (c : Shutdown Owner) : State Owner := { s with shutdown := some c }

def atPhase (s : State Owner) (c : Shutdown Owner) (phase : Phase Owner) : State Owner :=
  s.setShutdown { c with phase := phase }

def publish (s : State Owner) (c : Shutdown Owner) (remainingJobs : List (JobHandle Owner))
    (remainingCallbacks : List (Waiter Owner)) : Result Owner × State Owner :=
  let report : ShutdownReport Owner :=
    { cancelled := c.handles.map (·.snapshot) ++ c.callbackWaiters.map (·.snapshot)
      remaining := remainingJobs.map (·.snapshot) ++ remainingCallbacks.map (·.snapshot) }
  (.report report,
    { s.atPhase c .published with shutdownReport := some report, executorShutdown := true })

/-- The next step of the shutdown; `none` while a wait goes on. -/
def proceed (s : State Owner) (c : Shutdown Owner) : Option (Result Owner × State Owner) :=
  match c.phase with
  | .starting grace =>
    some (.running,
      s.setShutdown { c with deadline := some (s.now + grace), phase := .callbacks c.callbacks })
  | .callbacks [] =>
    some (.running, s.atPhase c
      (.immediate (c.handles.filter fun handle => !handle.deferCancelUntilCallbacks)))
  | .callbacks _ => none
  | .immediate [] => some (.running, s.atPhase c (.awaiting c.callbackWaiters))
  | .immediate (handle :: left) =>
    some (.running, (s.cancelHandle handle.jobId).2.atPhase c (.immediate left))
  | .awaiting [] =>
    some (.running, s.atPhase c
      (.deferred (c.handles.filter fun handle => handle.deferCancelUntilCallbacks)))
  | .awaiting (waiter :: left) =>
    if s.expired c then some (.running, s.atPhase c (.awaiting []))
    else if s.doneEvent waiter.doneEvent then some (.running, s.atPhase c (.awaiting left))
    else none
  | .deferred [] => some (.running, s.atPhase c (.joining c.handles))
  | .deferred (handle :: left) =>
    some (.running, (s.cancelHandle handle.jobId).2.atPhase c (.deferred left))
  | .joining [] =>
    some (.running, s.setShutdown
      { c with
        doneBefore := (s.done, s.doneEvent)
        phase := .testing c.handles c.callbackWaiters [] [] })
  | .joining (handle :: left) =>
    if s.expired c then some (.running, s.atPhase c (.joining []))
    else if s.done handle.jobId then
      -- `join` lets through what is no `Exception`, and no report is made then
      if s.fatal handle.jobId then some (.raised, s.atPhase c .aborted)
      else some (.running, s.atPhase c (.joining left))
    else none
  | .testing (handle :: left) waiters jobs callbacks =>
    let jobs := if s.done handle.jobId then jobs else jobs ++ [handle]
    some (.running, s.atPhase c (.testing left waiters jobs callbacks))
  | .testing [] (waiter :: left) jobs callbacks =>
    let callbacks := if s.doneEvent waiter.doneEvent then callbacks else callbacks ++ [waiter]
    some (.running, s.atPhase c (.testing [] left jobs callbacks))
  | .testing [] [] jobs callbacks => some (s.publish c jobs callbacks)
  | .published | .aborted => none

def callback (s : State Owner) (c : Shutdown Owner) (waiters : List (Waiter Owner)) :
    Option (Result Owner × State Owner) :=
  match c.phase with
  | .callbacks (name :: left) =>
    some (.running,
      s.setShutdown
        { c with
          returned := c.returned ++ [name]
          callbackWaiters := c.callbackWaiters ++ waiters
          phase := .callbacks left })
  | _ => none

def abort (s : State Owner) (c : Shutdown Owner) : Option (Result Owner × State Owner) :=
  match c.phase with
  | .callbacks (_ :: _) => some (.raised, s.atPhase c .aborted)
  | _ => none

def wake (s : State Owner) : Option (Result Owner × State Owner) :=
  match s.shutdownReport with
  | some report =>
    if s.waiting = 0 then none
    else some (.report report, { s with waiting := s.waiting - 1, executorShutdown := true })
  | none => none

/-- The report is being made, under the lock. -/
def locked (s : State Owner) : Bool :=
  s.shutdown.any fun c => c.phase.isTesting

/-- What a call does when it has the lock, if it takes it. -/
def act (s : State Owner) : Action Owner → Option (Result Owner × State Owner)
  | .startJob name ownerId deferCancel submitFails =>
    some (s.startJob name ownerId deferCancel submitFails)
  | .complete job fatal =>
    if s.isAccepted job ∧ s.done job = false then
      some (.returned, { s with
        done := Function.update s.done job true
        fatal := Function.update s.fatal job fatal })
    else none
  | .removeJob job => if s.done job then some (.returned, s.removeJob job) else none
  | .cancel job => if s.isAccepted job then some (s.cancelHandle job) else none
  | .registerShutdownCallback name => some (s.registerShutdownCallback name)
  | .setEvent event =>
    some (.returned, { s with doneEvent := Function.update s.doneEvent event true })
  | .beginShutdown graceSeconds fromWorker => some (s.beginShutdown graceSeconds fromWorker)
  | .callback waiters => s.shutdown.bind (s.callback · waiters)
  | .abort => s.shutdown.bind s.abort
  | .proceed => s.shutdown.bind s.proceed
  | .wake => s.wake
  | .tick seconds =>
    if 0 ≤ seconds then some (.returned, { s with now := s.now + seconds }) else none

def step (s : State Owner) (action : Action Owner) : Option (Result Owner × State Owner) :=
  if action.takesLock ∧ s.locked then none else s.act action

end State

/-- All interleavings; a label is a call, or a step of one, with its result. -/
def system (Owner : Type) [DecidableEq Owner] : System (State Owner) (Action Owner × Result Owner) :=
  System.calls .init State.step

end WebSSH.Runtime
