import TreeSync.Text

/-!
# TreeSync.CommandLine.Command

What a command line can ask for, and why one is refused.
-/

namespace TreeSync.CommandLine

/-- The shells that completions can be written for. -/
inductive Shell
  | bash
  | elvish
  | fish
  | powershell
  | zsh
  deriving DecidableEq, Repr

/-- The name of a shell. -/
def Shell.name : Shell → Text
  | .bash => "bash"
  | .elvish => "elvish"
  | .fish => "fish"
  | .powershell => "powershell"
  | .zsh => "zsh"

/-- All shells. -/
def Shell.all : List Shell := [.bash, .elvish, .fish, .powershell, .zsh]

/-- The shell of a name. -/
def Shell.ofName? (name : Text) : Option Shell := Shell.all.find? (·.name == name)

/-- A command with its arguments. -/
inductive Command
  | openSession
  | closeSession
  | status (json : Bool)
  | run (noTerminal : Bool) (words : List Text)
  | filters (json : Bool)
  | config
  | completions (shell : Shell)
  | transfer (lock rsync : Text) (arguments : List Text)
  deriving DecidableEq, Repr

/-- What a command line asks for; without a command it asks for a hint. -/
structure Request where
  verbose : Bool
  command : Option Command
  deriving DecidableEq, Repr

/-- Why a command line is answered otherwise than by a command. -/
inductive Refusal
  | unknownArgument
  | unknownCommand
  | missingArgument
  /-- An option without its value, or with one that it cannot have. -/
  | invalidValue
  /-- A value for a flag. -/
  | unexpectedValue
  /-- A flag or option that is given twice. -/
  | repeated
  | help
  | version
  deriving DecidableEq, Repr

end TreeSync.CommandLine
