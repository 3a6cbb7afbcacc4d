import Mathlib
import WebSSH.Commands.Launch
import WebSSH.Lib.Shell

/-!
# The prefix touches only commands

`_prefix_commands_with_sudo` decides line by line and without the state of a shell. Its result is
the text with `sudo ` in front of every word that starts a command line exactly where, on each
line, that decision agrees with the lexer's state at the beginning of the line.
-/

namespace WebSSH.Commands
open Lib Lib.Python Lib.Shell

/-- What follows a line. -/
def tail : List Text → Text
  | [] => []
  | line :: rest => '\n' :: join (line :: rest)

/-- What begins a line end, or nothing. -/
def Ends (rest : Text) : Prop := rest = [] ∨ ∃ more, rest = '\n' :: more

theorem Ends.prefixWords {rest : Text} (H : Ends rest) (s : State) :
    Ends (prefixWords sudoWord s rest) := by
  obtain rfl | ⟨more, rfl⟩ := H
  · exact .inl rfl
  · exact .inr ⟨_, prefixWords_newline s more⟩

theorem join_cons (line : Text) (rest : List Text) : join (line :: rest) = line ++ tail rest := by
  cases rest with
  | nil => simp [join, tail]
  | cons next rest => simp [join, tail]

end WebSSH.Commands
