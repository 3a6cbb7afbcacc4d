import Mathlib
import WebSSH.Attempt.Model
import WebSSH.Lib.Python

/-!
# Gateway interaction

`GatewayAttempt` of `ssh_gateway_interaction.py`, on the attempt it extends. A `with` block is one step
up to its first `wait`; a call that waits is listed in `calls`, and may take the lock again at any time.
What the worker and the sockets can observe is logged. `emit` is taken to return: the one of `challenge`
stands before the `try`, so that the prompt of a call whose emit raises would stay pending.
-/

namespace WebSSH.SSHAttempt
open Lib Lib.Python

inductive GatewayPhase
  | auth
  | setup
  deriving DecidableEq

/-- A call that waits for the condition. -/
inductive Waiting
  | challenge (call : Nat) (deadline : Nat)
  | output (data : Bytes) (deadline : Nat)

/-- The prompt of a challenge, known by the number of its call. -/
structure Prompt where
  call : Nat
  id : String
  prompts : Nat

/-- What happens between the worker and the sockets. -/
inductive GatewayEvent
  | challenged (call : Nat) (id : String) (prompts : Nat)
  /-- `answer` has returned `True`, while this challenge was pending. -/
  | answered (call : Nat) (userId sid id : String) (answers : List String)
  | returned (call : Nat) (answers : List String)
  /-- The challenge is given up. -/
  | abandoned (call : Nat)
  /-- `input` has returned `True`. -/
  | accepted (data : Bytes)
  | taken (data : Bytes)
  | frame (sequence : Nat) (data : Bytes)
  | acked (sequence : Nat)
  | cancelled

structure Gateway (R : Type) where
  attempt : Attempt R
  now : Nat
  authDeadline : Nat
  prompt : Option Prompt
  responses : Option (List String)
  phase : GatewayPhase
  inputs : List Bytes
  inputBytes : Nat
  outputBytes : Nat
  sequence : Nat
  unacked : List Nat
  calls : List Waiting
  /-- How many challenges there have been. -/
  challenges : Nat
  log : List GatewayEvent

/-- An argument that should be a list of texts. -/
abbrev Texts := Option (List Value)

/-- All the items, if they are texts. -/
def texts (items : List Value) : Option (List String) :=
  items.mapM fun item =>
    match item with
    | .str s => some s
    | _ => none

def utf8Sum (texts : List String) : Nat := (texts.map fun text => (encode text).length).sum

namespace Gateway
variable {R : Type} [DecidableEq R]

def record (event : GatewayEvent) (g : Gateway R) : Gateway R := { g with log := g.log ++ [event] }

/-- What `check` refuses over the attempt's own `check`. -/
def refused (g : Gateway R) (enabled : Bool) : Bool :=
  g.attempt.state ≠ .committed && (!enabled || (g.phase = .auth && g.authDeadline ≤ g.now))

/-- `check` raises. -/
def stopped (g : Gateway R) (enabled : Bool) : Bool := g.attempt.isSet g.now (g.refused enabled)

/-- The deadline of a challenge. -/
def challengeDeadline (g : Gateway R) : Nat :=
  let limit := min g.authDeadline (g.now + 120)
  g.attempt.deadline.elim limit (min limit)

/-- `challenge`, up to its first wait. A label that is no text is `none`. -/
def challenge (g : Gateway R) (enabled : Bool) (token : String) (title instructions : Value)
    (prompts : List (Option String)) : Result × Gateway R :=
  match title, instructions with
  | .str title, .str instructions =>
    if 8 < prompts.length ∨ prompts.any Option.isNone then (.raised, g)
    else if 16384 < utf8Sum (title :: instructions :: prompts.filterMap id) then (.raised, g)
    else if g.stopped enabled then (.raised, g)
    else if g.prompt.isSome then (.raised, g)
    else
      (.returned, { g with
        prompt := some ⟨g.challenges, token, prompts.length⟩
        responses := none
        calls := g.calls ++ [Waiting.challenge g.challenges g.challengeDeadline]
        challenges := g.challenges + 1 }.record (.challenged g.challenges token prompts.length))
  | _, _ => (.raised, g)

/-- The `finally` of `challenge`. -/
def leave (g : Gateway R) : Gateway R := { g with prompt := none, responses := none }

/-- A frame is sent. -/
def sendFrame (g : Gateway R) (data : Bytes) : Gateway R :=
  { g with
    sequence := g.sequence + 1
    unacked := g.unacked ++ [g.sequence + 1] }.record (.frame (g.sequence + 1) data)

/-- The call at `k` takes the lock again. -/
def wake (g : Gateway R) (enabled : Bool) (k : Nat) : Result × Gateway R :=
  match g.calls[k]? with
  | none => (.returned, g)
  | some (.challenge call deadline) =>
    let ended := { g with calls := g.calls.eraseIdx k }.leave
    match g.responses with
    | some responses => (.returned, ended.record (.returned call responses))
    | none =>
      if g.stopped enabled ∨ deadline ≤ g.now then (.raised, ended.record (.abandoned call))
      else (.returned, g)
  | some (.output data deadline) =>
    let ended := { g with calls := g.calls.eraseIdx k }
    if 4 ≤ g.unacked.length then
      if g.stopped enabled ∨ deadline ≤ g.now then (.raised, ended) else (.returned, g)
    else (.returned, ended.sendFrame data)

def answer (g : Gateway R) (userId sid id : String) (answers : Texts) : Result × Gateway R :=
  if g.attempt.cancelEvent ∨ g.attempt.state = .finished ∨ g.attempt.registryKey.userId ≠ userId ∨
      g.attempt.registryKey.sid ≠ sid then (.bool false, g)
  else
    match g.prompt, answers with
    | some prompt, some answers =>
      if prompt.id ≠ id ∨ g.responses.isSome then (.bool false, g)
      else if answers.length ≠ prompt.prompts then (.bool false, g)
      else
        match texts answers with
        | none => (.bool false, g)
        | some answers =>
          if 16384 < utf8Sum answers then (.bool false, g)
          else
            (.bool true, { g with responses := some answers }.record
              (.answered prompt.call userId sid id answers))
    | _, _ => (.bool false, g)

def startSetup (g : Gateway R) (enabled : Bool) : Result × Gateway R :=
  if g.stopped enabled then (.raised, g) else (.returned, { g with phase := .setup })

def input (g : Gateway R) (value : Value) : Result × Gateway R :=
  match value with
  | .str text =>
    let data := encode text
    if g.phase ≠ .setup ∨ g.attempt.cancelEvent ∨ g.attempt.state = .finished then (.bool false, g)
    else if data = [] ∨ 1024 < data.length ∨ 8192 < g.inputBytes + data.length then (.bool false, g)
    else
      (.bool true, { g with
        inputBytes := g.inputBytes + data.length
        inputs := g.inputs ++ [data] }.record (.accepted data))
  | _ => (.bool false, g)

def takeInput (g : Gateway R) : Result × Gateway R :=
  match g.inputs with
  | [] => (.returned, g)
  | data :: rest => (.returned, { g with inputs := rest }.record (.taken data))

/-- `output`, up to its first wait. -/
def output (g : Gateway R) (enabled : Bool) (data : Bytes) : Result × Gateway R :=
  if 4096 < data.length ∨ g.stopped enabled then (.raised, g)
  else
    let g := { g with outputBytes := g.outputBytes + data.length }
    if 8 * 1024 * 1024 < g.outputBytes then (.raised, g)
    else if 4 ≤ g.unacked.length then
      (.returned, { g with calls := g.calls ++ [Waiting.output data (g.now + 5)] })
    else (.returned, g.sendFrame data)

def ack (g : Gateway R) (sequence : Value) : Result × Gateway R :=
  match sequence with
  | .int i =>
    if 0 ≤ i ∧ i.toNat ∈ g.unacked then
      (.bool true, { g with unacked := g.unacked.erase i.toNat }.record (.acked i.toNat))
    else (.bool false, g)
  | _ => (.bool false, g)

/-- `cancel`, which clears what is pending; it may be the one in `finish`. -/
def cancel (g : Gateway R) (reason : String) (finish : Option Caller) : Result × Gateway R :=
  match g.attempt.cancel reason finish with
  | (.bool true, attempt) =>
    (.bool true, { g with attempt, responses := none, inputs := [] }.record .cancelled)
  | (result, attempt) => (result, { g with attempt })

/-- The next step of a call on the attempt outside its lock. -/
def resume (g : Gateway R) (k : Nat) : Result × Gateway R :=
  match g.attempt.calls[k]? with
  | none => (.returned, g)
  | some call =>
    let (attempt, more) := { g.attempt with calls := g.attempt.calls.eraseIdx k }.resume call
    (.returned, { g with attempt := { attempt with calls := attempt.calls ++ more } })

end Gateway

/-- `enabled` is what `is_ssh_gateway_enabled()` returns. -/
inductive GatewayAction (R : Type)
  | challenge (enabled : Bool) (token : String) (title instructions : Value)
      (prompts : List (Option String))
  | wake (enabled : Bool) (k : Nat)
  | answer (userId sid id : String) (answers : Texts)
  | startSetup (enabled : Bool)
  | input (value : Value)
  | takeInput
  | output (enabled : Bool) (data : Bytes)
  | ack (sequence : Value)
  | cancel (reason : String)
  /-- `finish()` -/
  | finish
  | resume (k : Nat)
  | bindRuntime (isSet : Bool)
  | runtimeSignal
  | commitIfActive (enabled : Bool)
  | own (enabled : Bool) (resource : R)
  | handoff (enabled : Bool) (resources : List R)
  | tick

namespace Gateway
variable {R : Type} [DecidableEq R]

/-- An action on the attempt alone. -/
def onAttempt (g : Gateway R) (call : Attempt R → Result × Attempt R) : Result × Gateway R :=
  let (result, attempt) := call g.attempt
  (result, { g with attempt })

def step (g : Gateway R) : GatewayAction R → Result × Gateway R
  | .challenge enabled token title instructions prompts =>
    g.challenge enabled token title instructions prompts
  | .wake enabled k => g.wake enabled k
  | .answer userId sid id answers => g.answer userId sid id answers
  | .startSetup enabled => g.startSetup enabled
  | .input value => g.input value
  | .takeInput => g.takeInput
  | .output enabled data => g.output enabled data
  | .ack sequence => g.ack sequence
  | .cancel reason => g.cancel reason none
  | .finish => g.cancel "finished" (some .direct)
  | .resume k => g.resume k
  | .bindRuntime isSet => g.onAttempt fun a => (.returned, { a with runtimeCancel := some isSet })
  | .runtimeSignal =>
    g.onAttempt fun a => (.returned, { a with runtimeCancel := a.runtimeCancel.map fun _ => true })
  | .commitIfActive enabled => g.onAttempt (·.commitIfActive g.now (g.refused enabled))
  | .own enabled resource => g.onAttempt (·.own g.now (g.refused enabled) resource)
  | .handoff enabled resources => g.onAttempt (·.handoff g.now (g.refused enabled) resources)
  | .tick => (.returned, { g with now := g.now + 1 })

/-- A new attempt of a user's socket. -/
def init (key : Key) (reservation : Bool) (now : Nat) : Gateway R where
  attempt := State.newAttempt key reservation (some (now + 300))
  now := now
  authDeadline := now + 180
  prompt := none
  responses := none
  phase := .auth
  inputs := []
  inputBytes := 0
  outputBytes := 0
  sequence := 0
  unacked := []
  calls := []
  challenges := 0
  log := []

/-- The gateway after some actions, of any caller in any order. -/
def run (key : Key) (reservation : Bool) (now : Nat) (actions : List (GatewayAction R)) : Gateway R :=
  actions.foldl (fun g action => (g.step action).2) (init key reservation now)

end Gateway
end WebSSH.SSHAttempt
