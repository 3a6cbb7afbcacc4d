import Mathlib
import WebSSH.Lib.Python
import WebSSH.Lib.RefTable
import WebSSH.Lib.System

/-!
# Transfers admitted per source

`_ordered_source_locks` of `remote_transfer.py`. A section is one use of the context manager, and
goes through the stages of its body; the two blocks under `_SOURCE_LOCKS_GUARD` are one step each.
The entry `[Lock(), count]` of a source is an object of a `RefTable`: its number of uses is there,
its lock in a field of its own.
-/

namespace WebSSH.SourceLocks
open Lib Function

/-- A source id that is not refused. -/
def sourceId : Python.Value → Option String
  | .str s => if s = "" then none else some s
  | _ => none

/-- `tuple(sorted(set(source_ids)))`, unless the ids are refused. -/
def canonicalIds (sourceIds : List Python.Value) : Option (List String) :=
  if sourceIds = [] then none
  else (sourceIds.mapM sourceId).map fun ids => ids.dedup.insertionSort (· ≤ ·)

/-- The entries of the sources of a section, in order. -/
abbrev Entries := List (String × Nat)

/-- Where a section is; `acquired` of its entries are locked. -/
inductive Stage
  | registering (ids : List String)
  /-- It waits for the lock of the next entry, a tenth of a second at a time. -/
  | acquiring (entries : Entries) (acquired : Nat)
  /-- It has got a lock and looks whether it has been cancelled. -/
  | checking (entries : Entries) (acquired : Nat)
  /-- It has yielded to the body of the `with` statement. -/
  | body (entries : Entries)
  | releasing (entries : Entries) (acquired : Nat)
  | done
  deriving DecidableEq, Repr

/-- `_SOURCE_LOCKS` with its entries and the sections. -/
structure State where
  sourceLocks : RefTable String
  /-- The section that has the lock of an entry. -/
  locks : Nat → Option Nat
  sections : List Stage

inductive Action
  /-- The context manager is entered. -/
  | enter (sourceIds : List Python.Value)
  | register (i : Nat)
  | acquire (i : Nat)
  /-- `acquire(timeout=0.1)` has failed. -/
  | timeout (i : Nat) (cancelled : Bool)
  | check (i : Nat) (cancelled : Bool)
  /-- The body ends, by an exception or not. -/
  | leave (i : Nat)
  | release (i : Nat)
  | unregister (i : Nat)
  deriving DecidableEq, Repr

/-- The turn of the `for` loop after `acquired` locks. -/
def Stage.next (entries : Entries) (acquired : Nat) : Stage :=
  if acquired < entries.length then .acquiring entries acquired else .body entries

namespace State

def init : State := ⟨.init, fun _ => none, []⟩

def goto (s : State) (i : Nat) (stage : Stage) : State :=
  { s with sections := s.sections.set i stage }

def act (s : State) : Action → Option State
  | .enter sourceIds =>
    match canonicalIds sourceIds with
    | none => some s
    | some ids => some { s with sections := s.sections ++ [.registering ids] }
  | .register i =>
    match s.sections[i]? with
    | some (.registering ids) =>
      let (entries, sourceLocks) := s.sourceLocks.retainAll ids
      some ({ s with sourceLocks := sourceLocks }.goto i (.next entries 0))
    | _ => none
  | .acquire i =>
    match s.sections[i]? with
    | some (.acquiring entries acquired) =>
      match entries[acquired]? with
      | none => none
      | some (_, entry) =>
        if s.locks entry = none then
          some ({ s with locks := update s.locks entry (some i) }.goto i
            (.checking entries (acquired + 1)))
        else none
    | _ => none
  | .timeout i cancelled =>
    match s.sections[i]? with
    | some (.acquiring entries acquired) =>
      some (if cancelled then s.goto i (.releasing entries acquired) else s)
    | _ => none
  | .check i cancelled =>
    match s.sections[i]? with
    | some (.checking entries acquired) =>
      some (s.goto i (if cancelled then .releasing entries acquired else .next entries acquired))
    | _ => none
  | .leave i =>
    match s.sections[i]? with
    | some (.body entries) => some (s.goto i (.releasing entries entries.length))
    | _ => none
  | .release i =>
    match s.sections[i]? with
    | some (.releasing entries (n + 1)) =>
      match entries[n]? with
      | none => none
      | some (_, entry) =>
        some ({ s with locks := update s.locks entry none }.goto i (.releasing entries n))
    | _ => none
  | .unregister i =>
    match s.sections[i]? with
    | some (.releasing entries 0) =>
      some ({ s with sourceLocks := s.sourceLocks.dropAll entries }.goto i .done)
    | _ => none

end State

/-- Any sections are entered and go on, in any order. -/
def system : System State Action where
  Init s := s = .init
  Step s a t := s.act a = some t

end WebSSH.SourceLocks
