import WebSSH.Lib.System
import Mathlib.Data.Fintype.Basic
import Mathlib.Order.Basic

/-!
# Storage locks and the snapshot barrier

Threads run `with` blocks of `_CoordinatedStorageLock` (`storage_utils.py`), of
`_SnapshotBarrier.persistent_write` and of `_SnapshotBarrier.snapshot` (`backup_coordination.py`).
A `with self._condition` block never waits for anything but its own condition, so it is one step;
`wait()` leaves the thread asleep until some `notify_all()`, after which the loop checks again.
Taking the raw mutex of a storage lock and entering the barrier are two steps, and so are leaving
the barrier and freeing the mutex.
-/

namespace WebSSH.Barrier
open Lib

/-- The `with` statements of a thread, in program order. -/
inductive Instr (Key : Type)
  /-- `with storage_lock(key):` -/
  | acquire (key : Key)
  /-- `with persistent_write():` -/
  | enterWrite
  /-- The end of the innermost of these blocks. -/
  | exit
  /-- `with snapshot_barrier(): ...`, whose body takes no storage lock. -/
  | snapshot
  deriving DecidableEq

/-- Which exit path the generator of a `persistent_write` context takes. -/
inductive WriteContext
  | outermost
  | nested
  deriving DecidableEq

/-- A block the thread is in: the storage lock it holds, if it is one, and the write context. -/
structure Frame (Key : Type) where
  lock : Option Key
  context : WriteContext

inductive Phase
  /-- About to execute the next `with` statement, or inside a block's body. -/
  | ready
  /-- In the loop of `persistent_write`; a storage lock's mutex is already taken. -/
  | entering (asleep : Bool)
  /-- In `_CoordinatedStorageLock.release`, with the barrier left and the mutex still held. -/
  | unlocking
  /-- In the loop of `snapshot`, counted in `_waiting_writers`. -/
  | waiting (asleep : Bool)
  /-- In the body of `snapshot`. -/
  | snapshotting
  deriving DecidableEq

structure Thread (Key : Type) where
  program : List (Instr Key)
  phase : Phase
  held : List (Frame Key)
  writeDepth : Nat

structure State (Tid Key : Type) where
  threads : Tid → Thread Key
  /-- The thread that holds the raw mutex of a storage lock. -/
  holder : Key → Option Tid
  readers : Nat
  writer : Bool
  waitingWriters : Nat

section
variable {Tid Key : Type}

/-- A notified thread is no longer asleep. -/
def Thread.wake (th : Thread Key) : Thread Key :=
  match th.phase with
  | .entering true => { th with phase := .entering false }
  | .waiting true => { th with phase := .waiting false }
  | _ => th

/-- `notify_all()`. -/
def State.notifyAll (s : State Tid Key) : State Tid Key :=
  { s with threads := fun u => (s.threads u).wake }

def State.init (programs : Tid → List (Instr Key)) : State Tid Key where
  threads t := ⟨programs t, .ready, [], 0⟩
  holder _ := none
  readers := 0
  writer := false
  waitingWriters := 0

variable [DecidableEq Tid] [DecidableEq Key]

def State.setThread (s : State Tid Key) (t : Tid) (th : Thread Key) : State Tid Key :=
  { s with threads := Function.update s.threads t th }

/-- One pass of the loop in `persistent_write`, for the block `lock` and the statements `rest`
after its `with`. -/
def State.enter (s : State Tid Key) (t : Tid) (lock : Option Key) (rest : List (Instr Key)) :
    State Tid Key :=
  let th := s.threads t
  if 0 < th.writeDepth then
    s.setThread t
      { th with
        program := rest, phase := .ready, held := ⟨lock, .nested⟩ :: th.held
        writeDepth := th.writeDepth + 1 }
  else if s.writer ∨ 0 < s.waitingWriters then
    s.setThread t { th with phase := .entering true }
  else
    { s.setThread t
        { th with
          program := rest, phase := .ready, held := ⟨lock, .outermost⟩ :: th.held
          writeDepth := 1 } with
      readers := s.readers + 1 }

/-- The end of a `persistent_write` block; `th` is the thread's record after it, but for the
depth. -/
def State.leave (s : State Tid Key) (t : Tid) (context : WriteContext) (th : Thread Key) :
    State Tid Key :=
  match context with
  | .nested => s.setThread t { th with writeDepth := th.writeDepth - 1 }
  | .outermost =>
    let s := { s.setThread t { th with writeDepth := 0 } with readers := s.readers - 1 }
    if s.readers = 0 then s.notifyAll else s

/-- One pass of the loop in `snapshot`, which the thread has announced in `_waiting_writers`. -/
def State.tryWrite (s : State Tid Key) (t : Tid) : State Tid Key :=
  let th := s.threads t
  if s.writer ∨ 0 < s.readers then s.setThread t { th with phase := .waiting true }
  else
    { s.setThread t { th with phase := .snapshotting } with
      writer := true
      waitingWriters := s.waitingWriters - 1 }

/-- The next step of a thread; `none` when it has finished or is blocked. -/
def State.step (s : State Tid Key) (t : Tid) : Option (State Tid Key) :=
  let th := s.threads t
  match th.phase, th.program with
  | .ready, .acquire key :: _ =>
    if s.holder key = none then
      some { s.setThread t { th with phase := .entering false } with
        holder := Function.update s.holder key (some t) }
    else none
  | .ready, .enterWrite :: _ => some (s.setThread t { th with phase := .entering false })
  | .entering false, .acquire key :: rest => some (s.enter t (some key) rest)
  | .entering false, .enterWrite :: rest => some (s.enter t none rest)
  | .ready, .exit :: rest =>
    match th.held with
    | [] => none
    | ⟨some _, context⟩ :: _ => some (s.leave t context { th with phase := .unlocking })
    | ⟨none, context⟩ :: held =>
      some (s.leave t context { th with program := rest, held := held })
  | .unlocking, .exit :: rest =>
    match th.held with
    | ⟨some key, _⟩ :: held =>
      some { s.setThread t { th with program := rest, phase := .ready, held := held } with
        holder := Function.update s.holder key none }
    | _ => none
  | .ready, .snapshot :: rest =>
    -- inside a write `snapshot` raises and its body does not run; otherwise the announcement and
    -- the first check are one critical section
    if 0 < th.writeDepth then some (s.setThread t { th with program := rest })
    else some ({ s with waitingWriters := s.waitingWriters + 1 }.tryWrite t)
  | .waiting false, .snapshot :: _ => some (s.tryWrite t)
  | .snapshotting, .snapshot :: rest =>
    some { s.setThread t { th with program := rest, phase := .ready } with
      writer := false }.notifyAll
  | _, _ => none

/-- All interleavings of the threads; a label names the thread that takes the step. -/
def system (programs : Tid → List (Instr Key)) : System (State Tid Key) Tid where
  Init s := s = .init programs
  Step s t s' := s.step t = some s'

/-- Some thread has not finished and none can take a step. -/
def Deadlock (s : State Tid Key) : Prop :=
  (∃ t, (s.threads t).program ≠ []) ∧ ∀ t, s.step t = none

/-! ## The discipline of the programs -/

/-- Blocks nest, and a storage lock is only taken inside storage locks that precede it in the
global lock order; it may be taken on its own. `held` lists the blocks around the program. -/
def Disciplined [LT Key] : List (Option Key) → List (Instr Key) → Prop
  | held, [] => held = []
  | held, .acquire key :: p => (∀ h, some h ∈ held → h < key) ∧ Disciplined (some key :: held) p
  | held, .enterWrite :: p => Disciplined (none :: held) p
  | [], .exit :: _ => False
  | _ :: held, .exit :: p => Disciplined held p
  | held, .snapshot :: p => held = [] ∧ Disciplined held p

/-- The storage locks a program takes, each with the number of blocks around it. -/
def acquisitions : Nat → List (Instr Key) → List (Key × Nat)
  | _, [] => []
  | d, .acquire key :: p => (key, d) :: acquisitions (d + 1) p
  | d, .enterWrite :: p => acquisitions (d + 1) p
  | d, .exit :: p => acquisitions (d - 1) p
  | d, .snapshot :: p => acquisitions d p

/-- Three threads meet on one storage lock: the first takes it on its own, the second takes it
inside another block, and the third takes a snapshot. -/
def CrossEntry (programs : Tid → List (Instr Key)) : Prop :=
  ∃ t₁ t₂ t₃ key d, t₁ ≠ t₂ ∧ t₁ ≠ t₃ ∧ t₂ ≠ t₃ ∧ (key, 0) ∈ acquisitions 0 (programs t₁) ∧
    (key, d + 1) ∈ acquisitions 0 (programs t₂) ∧ .snapshot ∈ programs t₃

end
end WebSSH.Barrier
