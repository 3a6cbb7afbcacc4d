import Mathlib.Data.List.DropRight
import Mathlib.Data.List.Infix
import WebSSH.Lib.Python

/-!
# The text of a command set

`startup_commands.py` and the text functions of `command_set_manager.py`: the prefix `sudo ` of
command lines, the scanner for comments and terminators, and the `&&` between two steps.
-/

namespace WebSSH.Commands
open Lib.Python

/-- A `str`, by its characters. -/
abbrev Text := List Char

/-! ## What `str` and `list` provide -/

/-- `value.split('\n')` -/
def lines (value : Text) : List Text := value.splitOn '\n'

/-- `'\n'.join(lines)` -/
def join (lines : List Text) : Text := ['\n'].intercalate lines

/-- `not text.strip()` -/
def allSpace (text : Text) : Bool := text.all isSpace

/-- `text.lstrip()` -/
def lstrip (text : Text) : Text := text.dropWhile isSpace

/-- `text.rstrip()` -/
def rstrip (text : Text) : Text := text.rdropWhile isSpace

/-! ## Startup commands -/

def maxStartupCommandsLength : Nat := 4096
def maxStartupCommandsUtf8Bytes : Nat := maxStartupCommandsLength * 4

/-- `validate_command_parameters` -/
def validateCommandParameters : Json → Option String
  | .str value =>
    if maxStartupCommandsLength < value.length then
      some "Command parameters must not exceed 4096 characters"
    else if maxStartupCommandsUtf8Bytes < (encode value).length then
      some "Command parameters exceed the UTF-8 byte limit"
    else if '\x00' ∈ value.toList then some "Commands cannot contain NUL bytes"
    else none
  | _ => some "Command parameters must be a string"

/-- `normalize_startup_commands` of a `str` -/
def normalizeStartupCommands (value : Text) : Except String Text :=
  if maxStartupCommandsLength < value.length then
    .error "Startup commands must not exceed 4096 characters"
  else if '\x00' ∈ value then .error "Startup commands must not contain NUL bytes"
  else
    let value := universalNewlines value
    if maxStartupCommandsLength < value.length then
      .error "Startup commands must not exceed 4096 characters"
    else .ok value

/-! ## The prefix -/

/-- `SUDO_TOKEN_BOUNDARIES` -/
def sudoTokenBoundaries : Text := [' ', '\t', ';', '&', '|', '(', ')', '<', '>']

def sudoWord : Text := ['s', 'u', 'd', 'o']

/-- `already_sudo` of a line without the white space before it. -/
def alreadySudo (stripped : Text) : Bool :=
  stripped = sudoWord ||
    (sudoWord.isPrefixOf stripped && (stripped.drop sudoWord.length).head?.any (· ∈ sudoTokenBoundaries))

/-- Whether the line gets the prefix. -/
def takesSudo (line : Text) : Bool :=
  let stripped := lstrip line
  !(stripped.isEmpty || stripped.head? = some '#' || alreadySudo stripped)

def prefixLine (line : Text) : Text :=
  if takesSudo line then line.takeWhile isSpace ++ sudoWord ++ ' ' :: lstrip line else line

/-- `_prefix_commands_with_sudo` -/
def prefixCommandsWithSudo (value : Text) : Text := join ((lines value).map prefixLine)

/-! ## The scanner -/

/-- The variables of `_shell_token_positions`. A position is a line and a column. -/
structure Scan where
  inSingleQuote : Bool
  inDoubleQuote : Bool
  escaped : Bool
  atWordStart : Bool
  commentOnLine : Bool
  lineNumber : Nat
  columnNumber : Nat
  /-- The column of the comment, by line. -/
  commentPositions : List (Nat × Nat)
  semicolonPositions : List (Nat × Nat)
  ampersandPositions : List (Nat × Nat)
  deriving Repr

namespace Scan

def initial : Scan where
  inSingleQuote := false
  inDoubleQuote := false
  escaped := false
  atWordStart := true
  commentOnLine := false
  lineNumber := 0
  columnNumber := 0
  commentPositions := []
  semicolonPositions := []
  ampersandPositions := []

def position (s : Scan) : Nat × Nat := (s.lineNumber, s.columnNumber)

/-- What the character does to all but the position. -/
def read (s : Scan) (character : Char) : Scan :=
  if s.commentOnLine then
    if character = '\n' then { s with commentOnLine := false, atWordStart := true } else s
  else if s.escaped then
    { s with escaped := false, atWordStart := if character ≠ '\n' then false else s.atWordStart }
  else if s.inSingleQuote then
    if character = '\'' then { s with inSingleQuote := false } else s
  else if s.inDoubleQuote then
    if character = '"' then { s with inDoubleQuote := false }
    else if character = '\\' then { s with escaped := true }
    else s
  else if character = '\\' then { s with escaped := true }
  else if character = '\'' then { s with inSingleQuote := true, atWordStart := false }
  else if character = '"' then { s with inDoubleQuote := true, atWordStart := false }
  else if character = '\n' ∨ isSpace character then { s with atWordStart := true }
  else if character = ';' then
    { s with semicolonPositions := s.position :: s.semicolonPositions, atWordStart := true }
  else if character = '&' then
    { s with ampersandPositions := s.position :: s.ampersandPositions, atWordStart := true }
  else if character ∈ ['|', '(', ')', '<', '>'] then { s with atWordStart := true }
  else if character = '#' ∧ s.atWordStart then
    { s with commentOnLine := true, commentPositions := s.position :: s.commentPositions }
  else { s with atWordStart := false }

/-- One turn of the loop. -/
def step (s : Scan) (character : Char) : Scan :=
  let s := s.read character
  if character = '\n' then { s with lineNumber := s.lineNumber + 1, columnNumber := 0 }
  else { s with columnNumber := s.columnNumber + 1 }

end Scan

/-- `_shell_token_positions` -/
def shellTokenPositions (value : Text) : Scan := value.foldl Scan.step Scan.initial

/-! ## The separator -/

/-- The last character of the line's text is at one of the positions. -/
def endsAt (commandText : Text) (lineNumber : Nat) (positions : List (Nat × Nat)) : Bool :=
  !commandText.isEmpty && (lineNumber, commandText.length - 1) ∈ positions

/-- `_append_operator` -/
def appendOperator (commandText : Text) (lineNumber : Nat)
    (semicolons ampersands : List (Nat × Nat)) : Text :=
  if endsAt commandText lineNumber semicolons then
    rstrip commandText.dropLast ++ [' ', '&', '&']
  else if endsAt commandText lineNumber ampersands then
    commandText ++ [' ', ':', ' ', '&', '&']
  else commandText ++ [' ', '&', '&']

/-- `_prepare_step_for_chaining` -/
def prepareStepForChaining (value : Text) : Text :=
  let lines := (lines value).rdropWhile allSpace
  if lines.isEmpty then [':']
  else
    let trimmed := join lines
    if lines.any fun line => !allSpace line && (lstrip line).head? ≠ some '#' then trimmed
    else ':' :: '\n' :: trimmed

/-- The line with the last command among the first `n`, its command and its comment. -/
def findCommand (lines : List Text) (comments : List (Nat × Nat)) :
    Nat → Option (Nat × Text × Option Text)
  | 0 => none
  | n + 1 =>
    let line := lines.getD n []
    let commentAt := comments.lookup n
    let beforeComment := (commentAt.map line.take).getD line
    if allSpace beforeComment then findCommand lines comments n
    else some (n, rstrip beforeComment, commentAt.map line.drop)

/-- `_append_step_separator` -/
def appendStepSeparator (value : Text) : Text :=
  let lines := lines value
  let scan := shellTokenPositions value
  let append (text : Text) (lineNumber : Nat) : Text :=
    appendOperator text lineNumber scan.semicolonPositions scan.ampersandPositions
  let lastLine := lines.length - 1
  if (scan.commentPositions.lookup lastLine).isNone then
    join (lines.set lastLine (append (lines.getD lastLine []) lastLine)) ++ [' ']
  else
    match findCommand lines scan.commentPositions lines.length with
    | none => join ([':', ' ', '&', '&'] :: lines) ++ ['\n']
    | some (commandLine, commandText, commentText) =>
      let text := append commandText commandLine
      let text := match commentText with
        | some comment => text ++ ' ' :: comment
        | none => text
      join (lines.set commandLine text) ++ ['\n']

/-- The text of a command set, from the texts of its steps. -/
def chain (useSudo : Bool) (resolvedParts : List Text) : Text :=
  let parts := if useSudo then resolvedParts.map prefixCommandsWithSudo else resolvedParts
  let parts := parts.map prepareStepForChaining
  (parts.dropLast.map appendStepSeparator).flatten ++ parts.getLast?.getD []

example : chain false ["echo a;".toList, "echo b # c".toList, "ls".toList] =
    "echo a && echo b && # c\nls".toList := by decide

end WebSSH.Commands
