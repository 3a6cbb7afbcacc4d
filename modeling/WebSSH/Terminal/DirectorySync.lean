import Mathlib
import WebSSH.Terminal.Quoting

/-!
# The directory of a session

`session-directory-sync.js`: what is known of the input of each tracked terminal, and the controller
that follows the directory of one session and changes it for the files panel. A probe is known by the
number it was sent with, and a navigation by the number of the event that called for it. What the page
and the terminals are like when an event is handled comes with the event.
-/

namespace WebSSH.Terminal.DirectorySync
open Lib Lib.Utf16

variable {Id : Type} [DecidableEq Id]

/-! ## Input of a terminal -/

structure Input where
  dirty : Bool
  version : Nat
  pasting : Bool
  submitted : Bool
  submitOutput : Bool
  replayDepth : Nat

/-- The state of `trackTerminal`. -/
def Input.tracked : Input where
  dirty := true
  version := 0
  pasting := false
  submitted := false
  submitOutput := false
  replayDepth := 0

/-- `[?>]?[0-9;]*c` to the end, in either case -/
def isAttributes (text : Units) : Bool :=
  let text := match text with
    | u :: rest => if u = unit '?' ∨ u = unit '>' then rest else u :: rest
    | [] => []
  let text := text.dropWhile fun u => (unit '0' ≤ u && u ≤ unit '9') || u = unit ';'
  text = [unit 'c'] || text = [unit 'C']

def isHex (u : UInt16) : Bool :=
  (unit '0' ≤ u && u ≤ unit '9') || (unit 'a' ≤ u && u ≤ unit 'f') || (unit 'A' ≤ u && u ≤ unit 'F')

/-- `[0-9a-f]{1,4}/[0-9a-f]{1,4}/[0-9a-f]{1,4}` and a string terminator, to the end -/
def isColour (text : Units) : Bool :=
  let red := text.takeWhile isHex
  let text := text.drop red.length
  let green := (text.drop 1).takeWhile isHex
  let text' := (text.drop 1).drop green.length
  let blue := (text'.drop 1).takeWhile isHex
  let ended := (text'.drop 1).drop blue.length
  [red, green, blue].all (fun part => 1 ≤ part.length && part.length ≤ 4) &&
    text.head? = some (unit '/') && text'.head? = some (unit '/') &&
    (ended = [0x1b, unit '\\'] || ended = [0x07])

def lowerUnit (u : UInt16) : UInt16 := if unit 'A' ≤ u ∧ u ≤ unit 'Z' then u + 32 else u

/-- The replies of a terminal, which xterm emits like input. -/
def isTerminalReply (data : Units) : Bool :=
  match data with
  | u :: v :: rest =>
    u = 0x1b && ((v = unit '[' && isAttributes rest) ||
      (v = unit ']' &&
        ["10;rgb:", "11;rgb:", "12;rgb:"].any fun start =>
          (rest.take 7).map lowerUnit = encode start && isColour (rest.drop 7)))
  | _ => false

/-- What `noteInput` takes for typing. -/
def typed (data : Units) : Bool := !data.isEmpty && !isTerminalReply data

def Input.note (data : Units) (state : Input) : Input :=
  let pasting := if encode "\x1b[200~" <:+: data then true else state.pasting
  let pasting := if encode "\x1b[201~" <:+: data then false else pasting
  { state with
    dirty := true
    version := state.version + 1
    pasting
    submitted := !pasting && [encode "\r", encode "\n", encode "\x03"].contains data
    submitOutput := false }

/-! ## Probes -/

/-- `result.directory` of a probe. -/
structure Directory where
  path : Units
  shell : Shell
  shellReady : Bool
  shellId : Option Nat
  /-- `directory.tmux === true` -/
  tmux : Bool
  /-- `directory.bracketed_paste`, which may be undefined. -/
  bracketedPaste : Option Bool

/-- What the page and its terminals are like. -/
structure Page (Id : Type) where
  /-- `manager.isEmbeddedOpen()` -/
  embeddedOpen : Bool
  /-- The session of `manager.getPaneSourceId('left')`. -/
  leftSource : Option Id
  leftPath : Units
  /-- `terminal.modes.bracketedPasteMode` -/
  bracketedPasteMode : Id → Bool
  /-- `terminal.buffer.active.type === 'normal'` -/
  normalBuffer : Id → Bool
  /-- `SSHInput.hasPending` -/
  hasPendingInput : Id → Bool
  now : Nat

/-- `canSend` -/
def canSend (page : Page Id) (id : Id) (input : Option Input) (directory : Directory) : Bool :=
  match input with
  | none => false
  | some state =>
    if state.replayDepth ≠ 0 then false
    else if directory.tmux then
      match directory.bracketedPaste with
      | none => directory.shellReady && !state.dirty && page.bracketedPasteMode id
      | some paste =>
        directory.shellReady && paste && (!state.dirty || (state.submitted && state.submitOutput))
    else !state.dirty && page.normalBuffer id && page.bracketedPasteMode id

/-! ## The controller -/

/-- A navigation: the number of its event, its path, and the input version it saw. -/
structure Intent where
  call : Nat
  path : Units
  version : Option Nat

structure Request (Id : Type) where
  number : Nat
  generation : Nat
  sessionId : Id
  /-- The navigation that `targetPath` and `version` come from. -/
  target : Option Intent
  nextNavigation : Option Intent

structure AwaitingChange where
  previous : Units
  shellId : Option Nat
  polls : Nat
  version : Option Nat

def AwaitingChange.sentAt (version : Option Nat) (awaiting : AwaitingChange) : AwaitingChange :=
  { awaiting with version }

inductive Reason
  | prompt
  | unavailable
  | pending

inductive Effect (Id : Type)
  | requestDirectory (id : Id)
  | blocked (reason : Reason)
  /-- `manager.navigatePaneTo('left', path)` -/
  | follow (path : Units)
  /-- `options.sendInput(id, command)`, for the navigation `call`. -/
  | sendInput (call : Nat) (id : Id) (command : Units)

/-- A timer that was set: it may still be running. -/
inductive Timer
  | unset
  | running
  | stale
  deriving DecidableEq

structure Options where
  enabledByDefault : Bool
  oscFallbackDelay : Nat
  oscFollowInterval : Nat

structure State (Id : Type) where
  /-- How many events have been handled. -/
  moment : Nat
  inputs : Id → Option Input
  sessionOverrides : Id → Option Bool
  sessionId : Option Id
  visible : Bool
  generation : Nat
  timer : Timer
  oscFollowTimer : Timer
  pendingOscLocation : Option Units
  request : Option (Request Id)
  requests : Nat
  awaitingChange : Option AwaitingChange
  lastOscAt : Nat
  lastOscFollowAt : Nat
  /-- What was done, each with the number of the event that did it. -/
  log : List (Nat × Effect Id)

def State.init : State Id where
  moment := 0
  inputs _ := none
  sessionOverrides _ := none
  sessionId := none
  visible := false
  generation := 0
  timer := .unset
  oscFollowTimer := .unset
  pendingOscLocation := none
  request := none
  requests := 0
  awaitingChange := none
  lastOscAt := 0
  lastOscFollowAt := 0
  log := []

namespace State

variable (options : Options) (page : Page Id)

def emit (effect : Effect Id) (s : State Id) : State Id :=
  { s with log := s.log ++ [(s.moment, effect)] }

def setInput (id : Id) (input : Option Input) (s : State Id) : State Id :=
  { s with inputs := Function.update s.inputs id input }

/-- An update of the input of a tracked session. -/
def modifyInput (id : Id) (f : Input → Input) (s : State Id) : State Id :=
  match s.inputs id with
  | none => s
  | some input => s.setInput id (some (f input))

def inputVersion (s : State Id) (id : Id) : Option Nat := (s.inputs id).map Input.version

def noteInput (id : Id) (data : Units) (s : State Id) : State Id :=
  if typed data then s.modifyInput id (Input.note data) else s

def confirmNavigation (id : Id) (version : Option Nat) (s : State Id) : State Id :=
  s.modifyInput id fun input =>
    if some input.version = version ∧ input.replayDepth = 0 then { input with dirty := false }
    else input

def isEnabled (s : State Id) (id : Id) : Bool :=
  (s.sessionOverrides id).getD options.enabledByDefault

def active (s : State Id) : Bool :=
  match s.sessionId with
  | none => false
  | some id => s.visible && s.isEnabled options id && page.embeddedOpen && page.leftSource = some id

def cancel (s : State Id) : State Id :=
  { s with
    generation := s.generation + 1
    timer := .unset
    oscFollowTimer := .unset
    pendingOscLocation := none
    request := none
    awaitingChange := none }

/-- `clearTimer(timer)` leaves the variable as it is. -/
def clearTimer (s : State Id) : State Id :=
  { s with timer := if s.timer = .running then .stale else s.timer }

def schedule (s : State Id) : State Id :=
  let s := s.clearTimer
  if s.active options page then { s with timer := .running } else s

def follow (path : Units) (s : State Id) : State Id :=
  if page.leftPath = path then s else s.emit (.follow path)

/-- `poll(targetPath, version)` -/
def poll (target : Option Intent) (s : State Id) : State Id :=
  match s.sessionId with
  | none => s
  | some id =>
    if !s.active options page || s.request.isSome then s
    else
      let request : Request Id := {
        number := s.requests
        generation := s.generation
        sessionId := id
        target
        nextNavigation := none }
      { s with request := some request, requests := s.requests + 1 }.emit (.requestDirectory id)

def block (reason : Reason) (s : State Id) : State Id := s.emit (.blocked reason)

/-- A fresh probe answers a navigation. -/
def arrive (id : Id) (intent : Intent) (next : Directory) (s : State Id) : State Id :=
  if !next.shellReady || !canSend page id (s.inputs id) next ||
      intent.version ≠ s.inputVersion id || page.hasPendingInput id then
    (s.block .prompt).schedule options page
  else if next.path = intent.path then (s.follow page next.path).schedule options page
  else
    let s : State Id := { s with awaitingChange := some {
      previous := next.path, shellId := next.shellId, polls := 0, version := none } }
    let s := s.noteInput id intent.path
    match cdCommand intent.path next.shell with
    | none => s.schedule options page
    | some command =>
      let s := s.emit (.sendInput intent.call id command)
      -- `SSHInput.send` notes what it is given.
      let s := s.noteInput id command
        let version := s.inputVersion id
      let s : State Id := { s with
        awaitingChange := s.awaitingChange.map (AwaitingChange.sentAt version) }
      s.schedule options page

/-- A probe while a command is not acknowledged. -/
def acknowledge (id : Id) (awaiting : AwaitingChange) (next : Directory) (s : State Id) :
    State Id :=
  let awaiting := { awaiting with polls := awaiting.polls + 1 }
  let s : State Id := { s with awaitingChange := some awaiting }
  let s := if next.tmux ∧ next.bracketedPaste ≠ some false ∧ next.shellReady ∧
      next.path ≠ awaiting.previous ∧ next.shellId = awaiting.shellId ∧
      awaiting.version = s.inputVersion id ∧ !page.hasPendingInput id then
    s.confirmNavigation id awaiting.version else s
  if !next.shellReady || !canSend page id (s.inputs id) next then
    let s := if 6 ≤ awaiting.polls then { s with awaitingChange := none }.block .prompt else s
    s.schedule options page
  else if next.path = awaiting.previous ∧ awaiting.polls < 3 then s.schedule options page
  else ({ s with awaitingChange := none }.follow page next.path).schedule options page

/-- `if (targetPath !== null || awaitingChange) blocked('unavailable')`, and its like. -/
def unavailable (wanted : Bool) (s : State Id) : State Id :=
  let s := if wanted || s.awaitingChange.isSome then s.block .unavailable else s
  { s with awaitingChange := none }.schedule options page

/-- The reply to a probe that is still wanted; `directory` where it was a success. -/
def answer (id : Id) (request : Request Id) (directory : Option Directory) (s : State Id) :
    State Id :=
  let s : State Id := { s with request := none }
  match request.nextNavigation with
  | some intent =>
    if intent.version ≠ s.inputVersion id then (s.block .prompt).schedule options page
    else s.poll options page (some intent)
  | none =>
    match directory with
    | none => s.unavailable options page request.target.isSome
    | some next =>
      if !validPath next.path then s.unavailable options page request.target.isSome
      else
        match request.target, s.awaitingChange with
        | some intent, _ => s.arrive options page id intent next
        | none, some awaiting => s.acknowledge options page id awaiting next
        | none, none => (s.follow page next.path).schedule options page

def reply (number : Nat) (directory : Option Directory) (s : State Id) : State Id :=
  match s.request, s.sessionId with
  | some request, some id =>
    if request.number ≠ number || request.generation ≠ s.generation || !s.active options page then s
    else s.answer options page id request directory
  | _, _ => s

/-- Five seconds after the probe. -/
def timeout (number : Nat) (s : State Id) : State Id :=
  match s.request with
  | none => s
  | some request =>
    if request.number ≠ number then s
    else
      { s with request := none }.unavailable options page
        (request.target.isSome || request.nextNavigation.isSome)

def applyOscLocation (path : Units) (s : State Id) : State Id :=
  let s : State Id := { s with
    oscFollowTimer := .unset
    pendingOscLocation := none
    lastOscFollowAt := page.now
    awaitingChange := s.awaitingChange.filter fun awaiting => path = awaiting.previous }
  (s.follow page path).schedule options page

/-- `directoryListener` -/
def location (id : Id) (path : Units) (s : State Id) : State Id :=
  if s.sessionId ≠ some id || !s.active options page || !validPath path then s
  else if (s.request.any fun request =>
      request.target.isSome || request.nextNavigation.isSome) || s.awaitingChange.isSome then s
  else
    let s : State Id := { s with
      generation := s.generation + 1
      timer := .unset
      request := none
      lastOscAt := page.now }
    if options.oscFollowInterval ≤ page.now - s.lastOscFollowAt then
      { s with oscFollowTimer := .unset }.applyOscLocation options page path
    else { s with pendingOscLocation := some path, oscFollowTimer := .running }

/-- The timer of `poll` fires. -/
def pollTimer (s : State Id) : State Id :=
  if s.timer = .running then { s with timer := .stale }.poll options page none else s

def oscTimer (s : State Id) : State Id :=
  if s.oscFollowTimer ≠ .running then s
  else
    let s : State Id := { s with oscFollowTimer := .stale }
    match s.pendingOscLocation with
    | none => s
    | some path => if s.active options page then s.applyOscLocation options page path else s

def setContext (id : Option Id) (visible : Bool) (s : State Id) : State Id :=
  if id = s.sessionId ∧ visible = s.visible then
    if s.active options page && s.timer = .unset && s.request.isNone then s.poll options page none
    else s
  else
    { s.cancel with
      sessionId := id
      visible
      lastOscAt := 0
      lastOscFollowAt := 0 }.poll options page none

def setEnabled (value : Bool) (s : State Id) : State Id :=
  match s.sessionId with
  | none => s
  | some id =>
    let s := { s with
      sessionOverrides := Function.update s.sessionOverrides id (some value) }.cancel
    if s.isEnabled options id then s.poll options page none else s

def navigate (id : Id) (path : Units) (s : State Id) : State Id :=
  if s.sessionId ≠ some id || !s.active options page || !validPath path then s
  else if s.awaitingChange.isSome then s.block .pending
  else
    let intent : Intent := { call := s.moment, path, version := s.inputVersion id }
    match s.request with
    | some request =>
      { s with
        timer := .unset
        oscFollowTimer := .unset
        pendingOscLocation := none
        request := some { request with nextNavigation := some intent } }
    | none => s.cancel.poll options page (some intent)

def removeSession (id : Id) (s : State Id) : State Id :=
  let s : State Id := { s with
    inputs := Function.update s.inputs id none
    sessionOverrides := Function.update s.sessionOverrides id none }
  if s.sessionId = some id then { s.cancel with sessionId := none } else s

def beginReplay (id : Id) (s : State Id) : State Id :=
  s.modifyInput id fun input => { input with
    replayDepth := input.replayDepth + 1
    dirty := true
    version := input.version + 1
    submitted := false
    submitOutput := false }

def endReplay (id : Id) (s : State Id) : State Id :=
  s.modifyInput id fun input => { input with replayDepth := input.replayDepth - 1, dirty := true }

/-- The terminal announces an editable prompt. -/
def prompt (id : Id) (s : State Id) : State Id :=
  s.modifyInput id fun input => if input.replayDepth = 0 then { input with dirty := false } else input

def lineFeed (id : Id) (s : State Id) : State Id :=
  s.modifyInput id fun input =>
    if input.submitted ∧ !input.submitOutput ∧ input.replayDepth = 0 then
      { input with submitOutput := true, version := input.version + 1 }
    else input

/-- A terminal is created for a session once, before any of its events. -/
def trackTerminal (id : Id) (s : State Id) : State Id :=
  if (s.inputs id).isSome then s else s.setInput id (some .tracked)

end State

/-! ## Events -/

inductive Event (Id : Type)
  | trackTerminal (id : Id)
  | noteInput (id : Id) (data : Units)
  | beginReplay (id : Id)
  | endReplay (id : Id)
  | prompt (id : Id)
  | lineFeed (id : Id)
  | reply (number : Nat) (directory : Option Directory) (page : Page Id)
  | timeout (number : Nat) (page : Page Id)
  | pollTimer (page : Page Id)
  | oscTimer (page : Page Id)
  | location (id : Id) (path : Units) (page : Page Id)
  | setContext (id : Option Id) (visible : Bool) (page : Page Id)
  | setEnabled (value : Bool) (page : Page Id)
  | navigate (id : Id) (path : Units) (page : Page Id)
  | removeSession (id : Id)

variable (options : Options)

def handle (s : State Id) : Event Id → State Id
  | .trackTerminal id => s.trackTerminal id
  | .noteInput id data => s.noteInput id data
  | .beginReplay id => s.beginReplay id
  | .endReplay id => s.endReplay id
  | .prompt id => s.prompt id
  | .lineFeed id => s.lineFeed id
  | .reply number directory page => s.reply options page number directory
  | .timeout number page => s.timeout options page number
  | .pollTimer page => s.pollTimer options page
  | .oscTimer page => s.oscTimer options page
  | .location id path page => s.location options page id path
  | .setContext id visible page => s.setContext options page id visible
  | .setEnabled value page => s.setEnabled options page value
  | .navigate id path page => s.navigate options page id path
  | .removeSession id => s.removeSession id

def next (s : State Id) (event : Event Id) : State Id :=
  let s := handle options s event
  { s with moment := s.moment + 1 }

/-- The state after some events. -/
def run (events : List (Event Id)) : State Id := events.foldl (next options) .init

end WebSSH.Terminal.DirectorySync
