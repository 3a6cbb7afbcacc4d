import WebSSH.Commands.Chaining
import WebSSH.Lib.Dict
import WebSSH.Lib.Except

/-!
# Command sets

`command_set_manager.py`: what a payload is checked for before its set is stored, and the
resolution of a stored set against the command library. `command_storage_policy.py` bounds the
single fields; the quota on whole stores is a parameter.
-/

namespace WebSSH.Commands
open Lib Lib.Python

/-! ## Stored data -/

/-- A step of a stored set. -/
inductive Step
  | inline (command : String)
  /-- `parameters_override` may be missing or `None`. -/
  | library (commandId : String) (parametersOverride : Option (Option String))
  deriving DecidableEq, Repr

namespace Step

/-- `step.get('command')` -/
def command? : Step → Option String
  | inline command => some command
  | library .. => none

/-- `step.get('command_id')` -/
def commandId? : Step → Option String
  | inline _ => none
  | library commandId _ => some commandId

/-- `step.get('parameters_override')` -/
def parametersOverride? : Step → Option String
  | inline _ => none
  | library _ parametersOverride => parametersOverride.join

end Step

/-- A set as `_valid_command_set` has it. -/
structure CommandSet where
  id : String
  name : String
  description : Option String
  useSudo : Option Bool
  steps : List Step
  createdAt : Option String
  updatedAt : Option String
  /-- The fields outside `_COMMAND_SET_FIELDS`. -/
  unknown : List (String × Json)

/-- `_command_index`: the library's commands by their id, a later one in the place of an earlier. -/
def commandIndex (commands : List Json) : Dict String (List (String × Json)) :=
  commands.foldl (fun index command =>
    match command with
    | .dict fields =>
      match Json.get fields "id", Json.get fields "command" with
      | some (.str commandId), some (.str _) => index.set commandId fields
      | _, _ => index
    | _ => index) ∅

/-! ## Steps -/

/-- `command['command']`, of a command in the index. -/
def commandText (command : List (String × Json)) : String :=
  match Json.get command "command" with
  | some (.str text) => text
  | _ => ""

/-- `_normalize_steps` of one library command: its text with its parameters. -/
def libraryText (command : List (String × Json)) (override : Option Json) : Except String Text := do
  let parameters := match override with
    | some parameters => parameters
    | none => (Json.get command "parameters").getD (.str "")
  match validateCommandParameters parameters with
  | some parameterError => .error parameterError
  | none =>
    match parameters with
    | .str "" => .ok (commandText command).toList
    | .str parameters => .ok ((commandText command).toList ++ ' ' :: parameters.toList)
    | _ => .ok (commandText command).toList

/-- `_normalize_steps` of the step at a position: what is stored, and its text. -/
def normalizeStep (commands : Dict String (List (String × Json))) (position : Nat) (rawStep : Json) :
    Except String (Step × Text) :=
  match rawStep with
  | .dict fields =>
    match Json.get fields "type" with
    | some (.str "inline") =>
      match Json.get fields "command" with
      | some (.str command) => do
        let normalized ← normalizeStartupCommands command.toList
        if allSpace normalized then .error s!"Command set step {position} is empty"
        else .ok (.inline (String.ofList normalized), normalized)
      | _ => .error s!"Command set step {position} is empty"
    | some (.str "library") =>
      match Json.get fields "command_id" with
      | some (.str commandId) =>
        match commands.get? commandId with
        | none => .error s!"Command set step {position} references a missing command"
        | some command =>
          match Json.get fields "parameters_override" with
          | none => do
            let text ← libraryText command none
            .ok (.library commandId none, text)
          | some .null => do
            let text ← libraryText command none
            .ok (.library commandId (some none), text)
          | some override =>
            match validateCommandParameters override, override with
            | some parameterError, _ => .error parameterError
            | none, .str parameters => do
              let text ← libraryText command (some override)
              .ok (.library commandId (some (some parameters)), text)
            | none, _ => .error "Command parameters must be a string"
      | _ => .error s!"Command set step {position} references a missing command"
    | _ => .error s!"Command set step {position} has an invalid type"
  | _ => .error s!"Command set step {position} has an invalid type"

/-- The loop of `_normalize_steps`. -/
def normalizeEach (commands : Dict String (List (String × Json))) :
    Nat → List Json → Except String (List (Step × Text))
  | _, [] => .ok []
  | position, rawStep :: rest => do
    let step ← normalizeStep commands position rawStep
    let rest ← normalizeEach commands (position + 1) rest
    .ok (step :: rest)

/-- `_normalize_steps` -/
def normalizeSteps (steps : Json) (commands : Dict String (List (String × Json))) :
    Except String (List (Step × Text)) :=
  match steps with
  | .list (rawStep :: rest) => do
    let steps ← normalizeEach commands 1 (rawStep :: rest)
    let _validated ← normalizeStartupCommands (join (steps.map Prod.snd))
    .ok steps
  | _ => .error "Command set must contain at least one step"

/-! ## The limits of the storage policy -/

def commandNameMaxBytes : Nat := 512
def commandTextMaxBytes : Nat := 16 * 1024
def commandParametersMaxBytes : Nat := 16 * 1024
def commandDescriptionMaxBytes : Nat := 16 * 1024
def commandIdMaxBytes : Nat := 128

/-- `_error` of `command_storage_policy` -/
def quotaError (message : String) : String := s!"Command storage quota exceeded: {message}"

/-- `_bounded_text` -/
def boundedText (value : Json) (limit : Nat) (label : String) (legacy : Option String) :
    Except String Unit :=
  match value with
  | .str value =>
    if (encode value).length ≤ limit then .ok ()
    else if legacy.any fun legacy => (encode value).length ≤ (encode legacy).length then .ok ()
    else .error (quotaError s!"{label} is too large")
  | _ => .error (quotaError s!"{label} must be text")

/-- `validate_command_set` of one step; `previous` is the stored step at its place. -/
def validateStep (step : Json) (previous : Option Step) : Except String Unit :=
  match step with
  | .dict fields =>
    match Json.get fields "type" with
    | some (.str "inline") =>
      boundedText ((Json.get fields "command").getD (.str "")) commandTextMaxBytes
        "inline command" (previous.bind Step.command?)
    | some (.str "library") => do
      boundedText ((Json.get fields "command_id").getD (.str "")) commandIdMaxBytes
        "command reference" (previous.bind Step.commandId?)
      match Json.get fields "parameters_override" with
      | none | some .null => .ok ()
      | some override =>
        boundedText override commandParametersMaxBytes "command parameter override"
          (previous.bind Step.parametersOverride?)
    | _ => .ok ()
  | _ => .error (quotaError "command set step is invalid")

/-- `validate_command_set`; `maximumSteps` is the configured `COMMAND_SET_MAX_STEPS`. -/
def validateCommandSet (maximumSteps : Nat) (id name description : String) (steps : Json)
    (legacy : Option CommandSet) : Except String Unit := do
  boundedText (.str id) commandIdMaxBytes "command set id" (legacy.map CommandSet.id)
  boundedText (.str name) commandNameMaxBytes "command set name" (legacy.map CommandSet.name)
  boundedText (.str description) commandDescriptionMaxBytes "command set description"
    (legacy.bind CommandSet.description)
  let legacySteps := (legacy.map CommandSet.steps).getD []
  match steps with
  | .list steps =>
    raiseIf (maximumSteps < steps.length ∧ legacySteps.length < steps.length)
      (quotaError "too many command set steps")
    (steps.zipIdx.forM fun step => validateStep step.1 legacySteps[step.2]? : Except String Unit)
  | _ => .error (quotaError "command set steps must be a list")

/-! ## Storing a set -/

def commandSetNameMax : Nat := 128

/-- What the code takes from its surroundings. -/
structure Env where
  casefold : String → String
  /-- `COMMAND_SET_MAX_STEPS` -/
  maximumSteps : Nat
  /-- The error `_save_command_sets` returns for the document, if any. -/
  refused : List CommandSet → Option String
  /-- `datetime.now(timezone.utc).isoformat()` -/
  now : String
  /-- `str(uuid.uuid4())` -/
  newId : String

/-- What `_validate_payload` returns. -/
structure Validated where
  id : Option String
  name : String
  description : String
  useSudo : Bool
  steps : List (Step × Text)

/-- The library and the sets of a user. -/
structure Store where
  /-- What reading the library returns, or `none` where it is unreadable. -/
  commands : Option (List Json)
  commandSets : List CommandSet

variable (env : Env)

/-- The `name` of a payload. -/
def payloadName (payload : List (String × Json)) : Except String String :=
  match Json.get payload "name" with
  | some (.str name) =>
    if strip name = "" then .error "Command set name is required"
    else if commandSetNameMax < (strip name).length then
      .error "Command set name must be 128 characters or fewer"
    else .ok (strip name)
  | _ => .error "Command set name is required"

/-- The `description` of a payload. -/
def payloadDescription (payload : List (String × Json)) : Except String String :=
  match (Json.get payload "description").getD (.str "") with
  | .str description => .ok description
  | _ => .error "Command set description must be text"

/-- The `use_sudo` of a payload. -/
def payloadUseSudo (payload : List (String × Json)) : Except String Bool :=
  match (Json.get payload "use_sudo").getD (.bool false) with
  | .bool useSudo => .ok useSudo
  | _ => .error "Command set sudo option must be a boolean"

/-- The `id` of a payload. -/
def payloadId (payload : List (String × Json)) : Except String (Option String) :=
  match Json.get payload "id" with
  | none | some .null => .ok none
  | some (.str id) => .ok (some id)
  | _ => .error "Invalid command set id"

/-- `_validate_payload` -/
def validatePayload (payload : Json) (existingSets : List CommandSet)
    (commands : Dict String (List (String × Json))) : Except String Validated :=
  match payload with
  | .dict payload => do
    let name ← payloadName payload
    let description ← payloadDescription payload
    let useSudo ← payloadUseSudo payload
    let commandSetId ← payloadId payload
    raiseIf (existingSets.any fun existing => some existing.id ≠ commandSetId &&
        env.casefold existing.name = env.casefold name)
      "A command set with this name already exists"
    let legacy := existingSets.find? fun item => some item.id = commandSetId
    let steps := (Json.get payload "steps").getD .null
    validateCommandSet env.maximumSteps (commandSetId.getD "") name (strip description) steps legacy
    let steps ← normalizeSteps steps commands
    .ok ⟨commandSetId, name, strip description, useSudo, steps⟩
  | _ => .error "Invalid command set data"

/-- The set that replaces a stored one. -/
def Validated.updated (validated : Validated) (existing : CommandSet) : CommandSet where
  id := existing.id
  name := validated.name
  description := some validated.description
  useSudo := some validated.useSudo
  steps := validated.steps.map Prod.fst
  createdAt := some (existing.createdAt.getD env.now)
  updatedAt := some env.now
  unknown := existing.unknown

/-- The set that is added to the stored ones. -/
def Validated.created (validated : Validated) : CommandSet where
  id := env.newId
  name := validated.name
  description := some validated.description
  useSudo := some validated.useSudo
  steps := validated.steps.map Prod.fst
  createdAt := some env.now
  updatedAt := some env.now
  unknown := []

/-- The first set with the id replaced by what `update` makes of it. -/
def replaceFirst (id : String) (update : CommandSet → CommandSet) :
    List CommandSet → Option (CommandSet × List CommandSet)
  | [] => none
  | existing :: rest =>
    if existing.id = id then some (update existing, update existing :: rest)
    else (replaceFirst id update rest).map fun found => (found.1, existing :: found.2)

/-- The index of the library, where it can be read. -/
def Store.commandIndex (store : Store) : Except String (Dict String (List (String × Json))) :=
  match store.commands with
  | some commands => .ok (Commands.commandIndex commands)
  | none => .error "Command library is unreadable"

/-- The stored set and all sets after it. -/
def Validated.place (validated : Validated) (commandSets : List CommandSet) :
    Except String (CommandSet × List CommandSet) :=
  match validated.id with
  | none | some "" => .ok (validated.created env, commandSets ++ [validated.created env])
  | some id =>
    match replaceFirst id (validated.updated env) commandSets with
    | some found => .ok found
    | none => .error "Command set not found"

/-- `upsert_command_set`: the stored set, and the store after it. -/
def upsertCommandSet (store : Store) (payload : Json) : Except String (CommandSet × Store) := do
  let commands ← store.commandIndex
  let validated ← validatePayload env payload store.commandSets commands
  let (result, commandSets) ← validated.place env store.commandSets
  match env.refused commandSets with
  | some error => .error error
  | none => .ok (result, { store with commandSets })

/-! ## Resolving a set -/

/-- `json` of a stored step -/
def Step.json : Step → Json
  | inline command => .dict [("type", .str "inline"), ("command", .str command)]
  | library commandId none => .dict [("type", .str "library"), ("command_id", .str commandId)]
  | library commandId (some parametersOverride) =>
    .dict [("type", .str "library"), ("command_id", .str commandId),
      ("parameters_override", (parametersOverride.map Json.str).getD .null)]

/-- What the caller is told of an error in the steps. -/
def resolutionError (name error : String) : String :=
  if "step ".toList <:+: error.toList then
    "Command set '" ++ name ++ "' " ++ (removePrefix error "Command set ").toLower
  else error

/-- `_resolve_loaded_command_set` -/
def resolveLoadedCommandSet (commandSet : CommandSet)
    (commands : Dict String (List (String × Json))) : Except String Text :=
  match normalizeSteps (.list (commandSet.steps.map Step.json)) commands with
  | .error error => .error (resolutionError commandSet.name error)
  | .ok steps =>
    normalizeStartupCommands (chain (commandSet.useSudo = some true) (steps.map Prod.snd))

/-- `_get_command_set_with_lock_held` -/
def getCommandSet (store : Store) (commandSetId : String) : Except String CommandSet :=
  if commandSetId = "" then .error "Command set not found"
  else
    match store.commandSets.find? fun item => item.id = commandSetId with
    | some commandSet => .ok commandSet
    | none => .error "Command set not found"

/-- `resolve_command_set` -/
def resolveCommandSet (store : Store) (commandSetId : String) : Except String Text := do
  let commandSet ← getCommandSet store commandSetId
  let commands ← store.commandIndex
  resolveLoadedCommandSet commandSet commands

end WebSSH.Commands
