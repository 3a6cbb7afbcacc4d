import Mathlib
import WebSSH.Lib.Quoting
import WebSSH.Lib.Utf16

/-!
# Paths typed into a shell

`cdCommand` of `session-directory-sync.js` and `quotePath` of `terminal-file-bridge.js`: the two checks
of a path, and what is typed for it. A string is the list of its UTF-16 code units.
-/

namespace WebSSH.Terminal
open Lib Lib.Utf16

/-- The code unit of a character of ASCII. -/
def unit (c : Char) : UInt16 := .ofNat c.toNat

/-- `/[\x00-\x1f\x7f-\x9f]/` of one code unit -/
def isControl (u : UInt16) : Bool := u ≤ 0x1f || (0x7f ≤ u && u ≤ 0x9f)

/-- `new TextEncoder().encode(text).length`. A surrogate without its partner becomes U+FFFD. -/
def encodedLength : Units → Nat
  | [] => 0
  | u :: rest =>
    if u < 0x80 then 1 + encodedLength rest
    else if u < 0x800 then 2 + encodedLength rest
    else
      match rest with
      | v :: rest' =>
        if 0xd800 ≤ u ∧ u < 0xdc00 ∧ 0xdc00 ≤ v ∧ v < 0xe000 then 4 + encodedLength rest'
        else 3 + encodedLength (v :: rest')
      | [] => 3

/-- `text.replace(/c/g, replacement)`, of a replacement without `$`. -/
def replaceUnit (c : UInt16) (replacement text : Units) : Units :=
  text.flatMap fun u => if u = c then replacement else [u]

def quoteUnit : UInt16 := unit '\''
def backslashUnit : UInt16 := unit '\\'

/-! ## `session-directory-sync.js` -/

namespace DirectorySync

def validPath (path : Units) : Bool :=
  path.head? = some (unit '/') && encodedLength path ≤ 4096 && !path.any isControl

inductive Shell
  | sh
  | fish
  deriving DecidableEq

def cdCommand (path : Units) (shell : Shell) : Option Units :=
  if !validPath path then none
  else
    let escaped := match shell with
      | .fish =>
        replaceUnit quoteUnit (encode "\\'") (replaceUnit backslashUnit (encode "\\\\") path)
      | .sh => replaceUnit quoteUnit (encode "'\\''") path
    some (encode "cd -- '" ++ escaped ++ encode "'\r")

end DirectorySync

/-! ## `terminal-file-bridge.js` -/

namespace FileBridge

def validPath (path : Units) : Bool :=
  path.head? = some (unit '/') && path.length ≤ 4096 && !path.any isControl

def quotePath (path : Units) : Option Units :=
  if validPath path then
    some (encode "'" ++ replaceUnit quoteUnit (encode "'\"'\"'") path ++ encode "'")
  else none

end FileBridge

/-! ## The shells -/

/-- A letter, a digit, or one of `-`, `_`, `.` and `/`. -/
def isPlain (u : UInt16) : Bool :=
  (unit 'a' ≤ u && u ≤ unit 'z') || (unit 'A' ≤ u && u ≤ unit 'Z') ||
    (unit '0' ≤ u && u ≤ unit '9') || u = unit '-' || u = unit '_' || u = unit '.' || u = unit '/'

def shellAlphabet : Quoting.Alphabet UInt16 where
  quote := quoteUnit
  doubleQuote := unit '"'
  backslash := backslashUnit
  newline := unit '\n'
  blank u := u = unit ' ' || u = unit '\t'
  plain := isPlain
  expands u := u = unit '$' || u = unit (Char.ofNat 96)
  doubleQuote_ne_quote := by decide
  backslash_ne_quote := by decide
  backslash_ne_doubleQuote := by decide
  newline_ne_quote := by decide
  not_expands_quote := by decide
  not_blank_quote := by decide
  not_blank_doubleQuote := by decide
  not_blank_backslash := by decide

/-- The line editor acts on no character of the line. -/
def Quiet (line : Units) : Prop := ∀ u ∈ line, isControl u = false

/-! ## What is typed -/

variable {path : Units}

theorem replaceUnit_closeEscape :
    replaceUnit quoteUnit (encode "'\\''") path =
      path.flatMap (Quoting.closeEscape shellAlphabet) := rfl

/-- The second replacement leaves the backslashes of the first. -/
theorem replaceUnit_backslashed :
    replaceUnit quoteUnit (encode "\\'") (replaceUnit backslashUnit (encode "\\\\") path) =
      path.flatMap (Quoting.backslashed shellAlphabet) := by
  unfold replaceUnit
  rw [List.flatMap_assoc]
  apply List.flatMap_congr
  intro u _
  show _ = if u = backslashUnit then [backslashUnit, backslashUnit]
    else if u = quoteUnit then [backslashUnit, quoteUnit] else [u]
  split
  · rfl
  · rw [List.flatMap_singleton]
    rfl

/-- The words before the path. -/
theorem posix_cd (rest : Units) :
    Quoting.posix shellAlphabet (encode "cd -- " ++ rest) =
      (Quoting.posix shellAlphabet rest).map ([encode "cd", encode "--"] ++ ·) := by
  have h : Quoting.posix shellAlphabet (encode "cd -- " ++ rest) =
      ((Quoting.posix shellAlphabet rest).bind fun more => some ([encode "--"] ++ more)).bind
        fun more => some ([encode "cd"] ++ more) := rfl
  rw [h]
  cases Quoting.posix shellAlphabet rest with
  | none => rfl
  | some words => rfl

theorem fish_cd (rest : Units) :
    Quoting.fish shellAlphabet (encode "cd -- " ++ rest) =
      (Quoting.fish shellAlphabet rest).map ([encode "cd", encode "--"] ++ ·) := by
  have h : Quoting.fish shellAlphabet (encode "cd -- " ++ rest) =
      ((Quoting.fish shellAlphabet rest).bind fun more => some ([encode "--"] ++ more)).bind
        fun more => some ([encode "cd"] ++ more) := rfl
  rw [h]
  cases Quoting.fish shellAlphabet rest with
  | none => rfl
  | some words => rfl

/-- Replacing puts in no control character. -/
theorem quiet_replaceUnit {c : UInt16} {replacement text : Units} (hr : Quiet replacement)
    (h : Quiet text) : Quiet (replaceUnit c replacement text) := by
  intro u hu
  obtain ⟨v, hv, hu⟩ := List.mem_flatMap.mp hu
  split at hu
  · exact hr u hu
  · obtain rfl := List.mem_singleton.mp hu
    exact h u hv

theorem Quiet.append {line more : Units} (h : Quiet line) (h' : Quiet more) :
    Quiet (line ++ more) :=
  fun u hu => (List.mem_append.mp hu).elim (h u) (h' u)

theorem quiet_of_any {path : Units} (h : path.any isControl = false) : Quiet path :=
  fun u hu => Bool.eq_false_iff.mpr fun hc => Bool.eq_false_iff.mp h (List.any_eq_true.mpr ⟨u, hu, hc⟩)

theorem DirectorySync.quiet_of_validPath (h : DirectorySync.validPath path = true) : Quiet path := by
  unfold DirectorySync.validPath at h
  rw [Bool.and_eq_true, Bool.not_eq_true'] at h
  exact quiet_of_any h.2

theorem FileBridge.quiet_of_validPath (h : FileBridge.validPath path = true) : Quiet path := by
  unfold FileBridge.validPath at h
  rw [Bool.and_eq_true, Bool.not_eq_true'] at h
  exact quiet_of_any h.2

/-! ## The round trip -/

def carriageReturn : UInt16 := unit '\r'

/-- The line before the carriage return. -/
def cdLine (escaped : Units) : Units := encode "cd -- " ++ (quoteUnit :: escaped ++ [quoteUnit])

theorem cdCommand_eq (h : DirectorySync.validPath path = true) (shell : DirectorySync.Shell) :
    DirectorySync.cdCommand path shell = some (cdLine (match shell with
      | .fish => path.flatMap (Quoting.backslashed shellAlphabet)
      | .sh => path.flatMap (Quoting.closeEscape shellAlphabet)) ++ [carriageReturn]) := by
  have hprefix (escaped : Units) : encode "cd -- '" ++ escaped ++ encode "'\r" =
      cdLine escaped ++ [carriageReturn] := by
    show encode "cd -- " ++ [quoteUnit] ++ escaped ++ ([quoteUnit] ++ [carriageReturn]) =
      encode "cd -- " ++ ([quoteUnit] ++ escaped ++ [quoteUnit]) ++ [carriageReturn]
    simp only [List.append_assoc]
  unfold DirectorySync.cdCommand
  rw [h]
  cases shell with
  | sh =>
    rw [← replaceUnit_closeEscape, ← hprefix]
    rfl
  | fish =>
    rw [← replaceUnit_backslashed, ← hprefix]
    rfl

theorem quiet_cdLine {escaped : Units} (h : Quiet escaped) : Quiet (cdLine escaped) := by
  have hcd : Quiet (encode "cd -- ") := quiet_of_any rfl
  have hquote : Quiet [quoteUnit] := quiet_of_any rfl
  exact hcd.append ((hquote.append h).append hquote)

/-- What is typed for a path is read as the words it is meant for, and holds no control character
but the carriage return at the end of the command. -/
theorem shell_quoting_round_trip (path : Units) :
    (DirectorySync.validPath path = true →
      (∃ line, DirectorySync.cdCommand path .sh = some (line ++ [carriageReturn]) ∧ Quiet line ∧
        Quoting.posix shellAlphabet line = some [encode "cd", encode "--", path]) ∧
      ∃ line, DirectorySync.cdCommand path .fish = some (line ++ [carriageReturn]) ∧ Quiet line ∧
        Quoting.fish shellAlphabet line = some [encode "cd", encode "--", path]) ∧
    (FileBridge.validPath path = true →
      ∃ text, FileBridge.quotePath path = some text ∧ Quiet text ∧
        Quoting.posix shellAlphabet text = some [path]) := by
  refine ⟨fun h => ⟨⟨_, cdCommand_eq h .sh, ?_, ?_⟩, ⟨_, cdCommand_eq h .fish, ?_, ?_⟩⟩,
    fun h => ⟨_, if_pos h, ?_, ?_⟩⟩
  · have hreplacement : Quiet (encode "'\\''") := quiet_of_any rfl
    have hpath := DirectorySync.quiet_of_validPath h
    exact quiet_cdLine (replaceUnit_closeEscape ▸ quiet_replaceUnit hreplacement hpath)
  · show Quoting.posix shellAlphabet (encode "cd -- " ++ _) = _
    rw [posix_cd]
    exact congrArg _ (Quoting.posix_quoted (A := shellAlphabet)
      (fun _ _ => Quoting.posix_closeEscape) path)
  · have hreplacement : Quiet (encode "\\'") := quiet_of_any rfl
    have hdouble : Quiet (encode "\\\\") := quiet_of_any rfl
    have hpath := DirectorySync.quiet_of_validPath h
    exact quiet_cdLine (replaceUnit_backslashed ▸
      quiet_replaceUnit hreplacement (quiet_replaceUnit hdouble hpath))
  · show Quoting.fish shellAlphabet (encode "cd -- " ++ _) = _
    rw [fish_cd]
    exact congrArg _ (Quoting.fish_quoted (A := shellAlphabet) path)
  · have hreplacement : Quiet (encode "'\"'\"'") := quiet_of_any rfl
    have hquote : Quiet (encode "'") := quiet_of_any rfl
    have hpath := FileBridge.quiet_of_validPath h
    exact (hquote.append (quiet_replaceUnit hreplacement hpath)).append hquote
  · exact Quoting.posix_quoted (A := shellAlphabet) (fun _ _ => Quoting.posix_closeDouble) path

/-- A path with a quote, a backslash and a blank. -/
def oddPath : Units := encode "/it's a \\ \"path\" $(x)"

theorem shell_quoting_round_trip_odd :
    (∃ line, DirectorySync.cdCommand oddPath .sh = some (line ++ [carriageReturn]) ∧
      Quoting.posix shellAlphabet line = some [encode "cd", encode "--", oddPath]) ∧
    (∃ line, DirectorySync.cdCommand oddPath .fish = some (line ++ [carriageReturn]) ∧
      Quoting.fish shellAlphabet line = some [encode "cd", encode "--", oddPath]) ∧
    ∃ text, FileBridge.quotePath oddPath = some text ∧
      Quoting.posix shellAlphabet text = some [oddPath] := by
  obtain ⟨hcd, hbridge⟩ := shell_quoting_round_trip oddPath
  obtain ⟨⟨sh, hsh, -, hposix⟩, fish, hfish, -, hread⟩ := hcd (by decide +kernel)
  obtain ⟨text, htext, -, hquoted⟩ := hbridge (by decide +kernel)
  exact ⟨⟨sh, hsh, hposix⟩, ⟨fish, hfish, hread⟩, text, htext, hquoted⟩

end WebSSH.Terminal
