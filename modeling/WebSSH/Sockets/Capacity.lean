import Mathlib.Logic.Function.Basic
import WebSSH.Lib.Dict
import WebSSH.Lib.RLock
import WebSSH.Lib.System

/-!
# The socket capacity registry

`SocketCapacityRegistry` of `socket_capacity.py`. Each stretch of code under `_lock` is one step. The
lock of a reservation is an object of its own, and names the reservation: a transport that is
released and reserved again has another one. A thread may call the registry from the body of an
`admission_guard`, and be in several such bodies, one within the other.
-/

namespace WebSSH.SocketCapacity
open Lib Function

section
variable (User Sid : Type)

/-- The tables of the registry; an admission lock is named by a number. -/
structure Registry [DecidableEq User] [DecidableEq Sid] where
  owners : Dict Sid User
  byUser : Dict User (List Sid)
  terminal : List Sid
  admissionLocks : Dict Sid Nat

/-- The calls that go through `_reservation_lock`. -/
inductive Op
  | release (sid : Sid)
  | markTerminal (sid : Sid)
  | admissionGuard (sid : Sid) (user : User)
  deriving DecidableEq, Repr

/-- How far a call has come. -/
inductive Pc
  | idle
  /-- It is to look the admission lock up. -/
  | looking (op : Op User Sid)
  /-- It waits for the lock that it has found. -/
  | acquiring (op : Op User Sid) (lock : Nat)
  /-- It holds the lock and is to check that it still is the one of the transport. -/
  | checking (op : Op User Sid) (lock : Nat)
  /-- It is to release a lock that is not, and to try again. -/
  | retrying (op : Op User Sid) (lock : Nat)
  /-- It has the lock of the reservation. -/
  | reserved (op : Op User Sid) (lock : Nat)
  /-- It is to release the lock and to return. -/
  | leaving (lock : Nat)
  deriving DecidableEq, Repr

/-- The body of an `admission_guard`, with what it was given and the lock that is held for it. -/
structure Guard where
  sid : Sid
  admitted : Bool
  lock : Option Nat
  deriving DecidableEq, Repr

structure Thread where
  pc : Pc User Sid
  /-- The bodies it is in, the innermost first. -/
  guards : List (Guard Sid)

end

variable {Tid User Sid : Type} [DecidableEq Tid] [DecidableEq User] [DecidableEq Sid]

/-! ## The tables -/

namespace Registry

def init : Registry User Sid := ⟨∅, ∅, [], ∅⟩

/-- `self._by_user[user_id]`, which makes an entry where there is none. -/
def socketsOf (r : Registry User Sid) (user : User) : List Sid × Registry User Sid :=
  match r.byUser.get? user with
  | some sockets => (sockets, r)
  | none => ([], { r with byUser := r.byUser.set user [] })

/-- `reserve`, with the new `RLock()`. -/
def reserve (r : Registry User Sid) (user : User) (sid : Sid) (maxTotal maxPerUser : Int)
    (lock : Nat) : Bool × Registry User Sid :=
  if r.owners.contains sid then (r.owners.get? sid = some user ∧ sid ∉ r.terminal, r)
  else if maxTotal ≤ r.owners.size then (false, r)
  else
    let (sockets, r) := r.socketsOf user
    if maxPerUser ≤ sockets.length then (false, r)
    else (true,
      { r with
        owners := r.owners.set sid user
        byUser := r.byUser.set user (sockets ++ [sid])
        admissionLocks := r.admissionLocks.set sid lock })

/-- The body of `release`. -/
def release (r : Registry User Sid) (sid : Sid) : Option User × Registry User Sid :=
  let user := r.owners.get? sid
  let r :=
    { r with
      owners := r.owners.erase sid
      terminal := r.terminal.filter (· ≠ sid)
      admissionLocks := r.admissionLocks.erase sid }
  match user with
  | none => (none, r)
  | some user =>
    match r.byUser.get? user with
    | none => (some user, r)
    | some sockets =>
      let sockets := sockets.filter (· ≠ sid)
      (some user,
        { r with byUser := if sockets = [] then r.byUser.erase user else r.byUser.set user sockets })

/-- The body of `mark_terminal`. -/
def markTerminal (r : Registry User Sid) (sid : Sid) : Option User × Registry User Sid :=
  match r.owners.get? sid with
  | none => (none, r)
  | some user =>
    if sid ∈ r.terminal then (none, r) else (some user, { r with terminal := sid :: r.terminal })

def isTerminal (r : Registry User Sid) (sid : Sid) : Bool := sid ∈ r.terminal

/-- What an `admission_guard` yields under the lock. -/
def admits (r : Registry User Sid) (sid : Sid) (user : User) : Bool :=
  r.owners.get? sid = some user ∧ r.isTerminal sid = false

end Registry

/-! ## Threads -/

variable (Tid User Sid) in
structure State where
  registry : Registry User Sid
  locks : Nat → RLock Tid
  /-- The number of the next admission lock. -/
  nextLock : Nat
  threads : Tid → Thread User Sid

variable (User Sid) in
/-- What a step does to the reservations. -/
inductive Event
  /-- A step that does nothing to them, or the end of a body. -/
  | internal
  /-- `reserve` has taken a slot. -/
  | reserved (sid : Sid) (user : User) (maxTotal maxPerUser : Int) (lock : Nat)
  /-- `reserve` has taken no slot. -/
  | notReserved (sid : Sid) (user : User) (answer : Bool)
  /-- `mark_terminal` returns this for the reservation with the lock. -/
  | marked (sid : Sid) (lock : Nat) (owner : Option User)
  /-- `release` returns this for the reservation with the lock. -/
  | released (sid : Sid) (lock : Nat) (owner : Option User)
  /-- A call finds no reservation and returns `None`. -/
  | notFound (sid : Sid)
  /-- The body of an `admission_guard` begins. -/
  | entered (sid : Sid) (user : User) (lock : Option Nat) (admitted : Bool)
  deriving DecidableEq, Repr

variable (Tid User Sid) in
inductive Action
  | reserve (t : Tid) (user : User) (sid : Sid) (maxTotal maxPerUser : Int)
  | call (t : Tid) (op : Op User Sid)
  /-- The call that the thread is in goes on. -/
  | step (t : Tid)
  /-- The innermost body ends, by an exception or not. -/
  | exit (t : Tid)
  deriving DecidableEq, Repr

def Op.sid : Op User Sid → Sid
  | release sid | markTerminal sid | admissionGuard sid _ => sid

namespace State

def init : State Tid User Sid where
  registry := .init
  locks _ := .free
  nextLock := 0
  threads _ := ⟨.idle, []⟩

def setPc (s : State Tid User Sid) (t : Tid) (pc : Pc User Sid) : State Tid User Sid :=
  { s with threads := update s.threads t { s.threads t with pc := pc } }

/-- A body begins, and the call is done. -/
def enter (s : State Tid User Sid) (t : Tid) (g : Guard Sid) : State Tid User Sid :=
  { s with threads := update s.threads t ⟨.idle, g :: (s.threads t).guards⟩ }

def unlock (s : State Tid User Sid) (lock : Nat) : State Tid User Sid :=
  { s with locks := update s.locks lock (s.locks lock).release }

/-- What the call does with the reservation, whose lock it holds. -/
def body (s : State Tid User Sid) (t : Tid) (lock : Nat) :
    Op User Sid → Event User Sid × State Tid User Sid
  | .release sid =>
    let (owner, registry) := s.registry.release sid
    (.released sid lock owner, { s with registry := registry }.setPc t (.leaving lock))
  | .markTerminal sid =>
    let (owner, registry) := s.registry.markTerminal sid
    (.marked sid lock owner, { s with registry := registry }.setPc t (.leaving lock))
  | .admissionGuard sid user =>
    let admitted := s.registry.admits sid user
    (.entered sid user (some lock) admitted, s.enter t ⟨sid, admitted, some lock⟩)

/-- The next step of the call that a thread is in; `none` if it has to wait, or is in no call. -/
def step (s : State Tid User Sid) (t : Tid) : Option (Event User Sid × State Tid User Sid) :=
  match (s.threads t).pc with
  | .idle => none
  | .looking op =>
    match s.registry.admissionLocks.get? op.sid with
    | some lock => some (.internal, s.setPc t (.acquiring op lock))
    | none =>
      match op with
      | .release sid | .markTerminal sid => some (.notFound sid, s.setPc t .idle)
      | .admissionGuard sid user => some (.entered sid user none false, s.enter t ⟨sid, false, none⟩)
  | .acquiring op lock =>
    match (s.locks lock).acquire t with
    | none => none
    | some l =>
      some (.internal, { s with locks := update s.locks lock l }.setPc t (.checking op lock))
  | .checking op lock =>
    if s.registry.admissionLocks.get? op.sid = some lock then
      some (.internal, s.setPc t (.reserved op lock))
    else some (.internal, s.setPc t (.retrying op lock))
  | .retrying op lock => some (.internal, (s.unlock lock).setPc t (.looking op))
  | .reserved op lock => some (s.body t lock op)
  | .leaving lock => some (.internal, (s.unlock lock).setPc t .idle)

def act (s : State Tid User Sid) : Action Tid User Sid →
    Option (Event User Sid × State Tid User Sid)
  | .reserve t user sid maxTotal maxPerUser =>
    if (s.threads t).pc ≠ .idle then none
    else
      match s.registry.reserve user sid maxTotal maxPerUser s.nextLock with
      | (answer, registry) =>
        if answer = true ∧ s.registry.owners.contains sid = false then
          some (.reserved sid user maxTotal maxPerUser s.nextLock,
            { s with registry := registry, nextLock := s.nextLock + 1 })
        else some (.notReserved sid user answer, { s with registry := registry })
  | .call t op => if (s.threads t).pc ≠ .idle then none else some (.internal, s.setPc t (.looking op))
  | .step t => s.step t
  | .exit t =>
    if (s.threads t).pc ≠ .idle then none
    else
      match (s.threads t).guards with
      | [] => none
      | g :: guards =>
        let s := match g.lock with
          | none => s
          | some lock => s.unlock lock
        some (.internal, { s with threads := update s.threads t ⟨.idle, guards⟩ })

end State

/-- Any threads use the registry. -/
def system : System (State Tid User Sid) (Action Tid User Sid × Event User Sid) :=
  .calls .init State.act

end WebSSH.SocketCapacity
