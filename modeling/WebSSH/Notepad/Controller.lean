import Mathlib.Data.List.Basic
import Mathlib.Logic.Function.Basic
import WebSSH.Lib.System

/-!
# The notepad

`notepad-controller.js` and the handler `save_notepad` behind it. The page's edits, the timers, the
socket and the server take their steps in any order; only the saves of one connection are applied
in the order in which they were emitted.
-/

namespace WebSSH.Notepad
open Lib Function

/-- What `status` is given. -/
inductive Shown
  | saved
  | saving
  | failed
  | offline
  | tooLarge
  deriving DecidableEq, Repr

/-- The request that an attempt to save has emitted. -/
structure Save where
  text : String
  revision : Nat
  /-- The connection it was emitted on. -/
  connection : Nat
  /-- Whether the server has applied it, and successfully. -/
  applied : Option Bool
  deriving DecidableEq, Repr

structure State where
  connected : Bool
  /-- How many times the socket has connected. -/
  connection : Nat
  /-- The text of the page. -/
  text : String
  dirty : Bool
  edited : Bool
  revision : Nat
  timer : Bool
  /-- The place of the pending attempt among the saves. -/
  pending : Option Nat
  shown : Shown
  saves : List Save
  /-- The attempts whose ten seconds are running. -/
  timers : Nat → Bool
  /-- The attempts whose callback has been called. -/
  acknowledged : Nat → Bool
  /-- The text of the settings. -/
  stored : String
  /-- The text of the last edit. -/
  lastEdit : Option String

namespace State

def init (connected : Bool) (stored : String) : State where
  connected
  connection := 0
  text := ""
  dirty := false
  edited := false
  revision := 0
  timer := false
  pending := none
  shown := .saved
  saves := []
  timers := fun _ => false
  acknowledged := fun _ => false
  stored
  lastEdit := none

/-- `show` -/
def display (s : State) (next : Shown) : State := { s with shown := next }

def maxLength : Nat := 100000

/-- `save` -/
def save (s : State) : State :=
  let s := { s with timer := false }
  if !s.dirty ∨ s.pending.isSome then s
  else if !s.connected then s.display .offline
  else if maxLength < s.text.length then s.display .tooLarge
  else
    { s with
      pending := some s.saves.length
      shown := .saving
      saves := s.saves ++ [⟨s.text, s.revision, s.connection, none⟩]
      timers := update s.timers s.saves.length true }

/-- `changed`, after the page's text has become `text` -/
def changed (s : State) (text : String) : State :=
  { s with
    text
    lastEdit := some text
    dirty := true
    edited := true
    revision := s.revision + 1
    shown := if s.connected then .saving else .offline
    timer := true }

/-- `receive` -/
def receive (s : State) (text : String) : State := if s.edited then s else { s with text }

/-- `cancel` of the ten seconds of an attempt -/
def cancel (s : State) (i : Nat) : State := { s with timers := update s.timers i false }

/-- The ten seconds of an attempt are over. -/
def timeout (s : State) (i : Nat) (attempt : Save) : State :=
  let s := s.cancel i
  if s.pending ≠ some i then s
  else
    let s := { s with pending := none }
    if s.revision ≠ attempt.revision then s.save else s.display .failed

/-- The callback of an attempt, with the server's result. -/
def acknowledge (s : State) (i : Nat) (attempt : Save) (success : Bool) : State :=
  let s := { s with acknowledged := update s.acknowledged i true }
  if s.pending ≠ some i then s
  else
    let s := { s.cancel i with pending := none }
    if s.revision ≠ attempt.revision then s.save
    else if !success then s.display .failed
    else { s with dirty := false }.display .saved

/-- The handler of `disconnect` -/
def disconnect (s : State) : State :=
  let s := { s with connected := false, timer := false }
  let s := match s.pending with
    | some i => s.cancel i
    | none => s
  let s := { s with pending := none }
  if s.dirty then s.display .offline else s

/-- `handle_save_notepad`, of a save that can be stored or cannot. -/
def apply (s : State) (i : Nat) (attempt : Save) (success : Bool) : State :=
  { s with
    saves := s.saves.modify i fun save => { save with applied := some success }
    stored := if success then attempt.text else s.stored }

end State

inductive Event
  | edit (text : String)
  | receive (text : String)
  /-- The 300 ms after an edit are over. -/
  | debounce
  | timeout (i : Nat)
  | apply (i : Nat) (success : Bool)
  | acknowledge (i : Nat)
  | disconnect
  | connect
  /-- `reconnect`, which the page calls when it is connected again -/
  | reconnect
  deriving DecidableEq, Repr

/-- The saves of its connection that were emitted before it have been applied. -/
def inOrder (saves : List Save) (i connection : Nat) : Bool :=
  (saves.take i).all fun save => save.connection ≠ connection || save.applied.isSome

def step (s : State) : Event → Option State
  | .edit text => some (s.changed text)
  | .receive text => some (s.receive text)
  | .debounce => if s.timer then some s.save else none
  | .timeout i =>
    match s.saves[i]? with
    | some attempt => if s.timers i then some (s.timeout i attempt) else none
    | none => none
  | .apply i success =>
    match s.saves[i]? with
    | some attempt =>
      if attempt.applied = none ∧ inOrder s.saves i attempt.connection then
        some (s.apply i attempt success)
      else none
    | none => none
  | .acknowledge i =>
    match s.saves[i]? with
    | some attempt =>
      match attempt.applied, s.acknowledged i with
      | some success, false => some (s.acknowledge i attempt success)
      | _, _ => none
    | none => none
  | .disconnect => if s.connected then some s.disconnect else none
  | .connect =>
    if s.connected then none else some { s with connected := true, connection := s.connection + 1 }
  | .reconnect => some s.save

/-- The page and the server, from a stored text. -/
def system (connected : Bool) (stored : String) : System State Event where
  Init s := s = .init connected stored
  Step s a t := step s a = some t

/-! ## What is to hold -/

/-- The page is going to save, or shows that it does not. -/
def State.Indicated (s : State) : Prop :=
  s.timer ∨ s.pending.isSome ∨ s.shown ∈ [.failed, .offline, .tooLarge]

/-- A text that is shown as saved is stored once no save is left to apply, and an edit that is not
saved is going to be or is shown not to be. -/
structure Honest (s : State) : Prop where
  stored : s.edited → s.dirty = false → (∀ save ∈ s.saves, save.applied.isSome) →
    some s.stored = s.lastEdit
  indicated : s.edited → s.dirty = true ∨ some s.stored ≠ s.lastEdit → s.Indicated

/-- The step stores another text by a save of an earlier connection, after a save of a later one has
been stored. -/
def Stale (s : State) (a : Event) : Prop :=
  ∃ i attempt, a = .apply i true ∧ s.saves[i]? = some attempt ∧ s.stored ≠ attempt.text ∧
    ∃ later ∈ s.saves, attempt.connection < later.connection ∧ later.applied = some true

end WebSSH.Notepad
