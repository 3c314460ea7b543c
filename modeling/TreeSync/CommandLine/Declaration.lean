import TreeSync.CommandLine.Command

/-!
# TreeSync.CommandLine.Declaration

What the program declares of its command line, and what it makes of the matches.

The words themselves are read by a parser of declared command lines.  It is no part of
the program, so it is a function that is handed in (`Parser`): from a declaration and the
words to what has been matched, or to a refusal.  The program only asks the matches for
what it has declared.
-/

namespace TreeSync.CommandLine

/-! ## declarations -/

/-- What a value may be. -/
inductive ValueKind
  | text
  /-- A path, which is not empty. -/
  | path
  /-- One of some words. -/
  | oneOf (words : List Text)
  deriving DecidableEq, Repr

/-- True of the words that are such a value. -/
def ValueKind.accepts : ValueKind → Text → Bool
  | .text, _ => true
  | .path, word => word ≠ []
  | .oneOf words, word => words.contains word

/-- A flag or an option, which is given by a long name. -/
structure Argument where
  /-- The name that the matches know it by. -/
  name : Text
  long : Text
  letter : Option Char := none
  /-- What its value may be.  A flag has none. -/
  value : Option ValueKind := none
  required : Bool := false
  /-- Its value when it is not given. -/
  standard : Option Text := none
  /-- Every command knows it as well. -/
  isGlobal : Bool := false
  deriving DecidableEq, Repr

/-- What is given by its place. -/
structure Operand where
  name : Text
  value : ValueKind := .text
  required : Bool := false
  /-- It takes more than one word. -/
  many : Bool := false
  /-- It stands behind a word `--` only. -/
  last : Bool := false
  /-- Once it has begun every word belongs to it. -/
  trailing : Bool := false
  /-- It may begin with a dash. -/
  hyphens : Bool := false
  deriving DecidableEq, Repr

/-- A command of the program. -/
structure CommandDeclaration where
  name : Text
  arguments : List Argument := []
  operand : Option Operand := none
  deriving DecidableEq, Repr

/-- A program. -/
structure ProgramDeclaration where
  name : Text
  arguments : List Argument
  commands : List CommandDeclaration
  deriving DecidableEq, Repr

namespace CommandDeclaration

/-- The flag or option of a long name. -/
def argument? (command : CommandDeclaration) (long : Text) : Option Argument :=
  command.arguments.find? (·.long == long)

end CommandDeclaration

namespace ProgramDeclaration

/-- The command of a name. -/
def command? (program : ProgramDeclaration) (name : Text) : Option CommandDeclaration :=
  program.commands.find? (·.name == name)

/-- True of the names of arguments that every command knows. -/
def isGlobal (program : ProgramDeclaration) (name : Text) : Bool :=
  program.arguments.any fun argument => argument.isGlobal && argument.name == name

/-- A command with all arguments that it knows. -/
def scope (program : ProgramDeclaration) (command : CommandDeclaration) : CommandDeclaration :=
  { command with arguments := command.arguments ++ program.arguments.filter (·.isGlobal) }

end ProgramDeclaration

/-! ## matches -/

/-- What has been matched at one level of a command line, by name. -/
structure Matches where
  /-- True of the flags that are given. -/
  flag : Text → Bool := fun _ => false
  /-- The values of an option or operand, in order. -/
  values : Text → List Text := fun _ => []

namespace Matches

/-- A flag more. -/
def setFlag (found : Matches) (name : Text) : Matches :=
  { found with flag := fun other => other == name || found.flag other }

/-- A value more. -/
def add (found : Matches) (name value : Text) : Matches :=
  { found with
    values := fun other => if other = name then found.values name ++ [value] else found.values other }

/-- What is matched at one level, with the global arguments of another one. -/
def share (program : ProgramDeclaration) (found other : Matches) : Matches where
  flag name := found.flag name || (program.isGlobal name && other.flag name)
  values name :=
    if program.isGlobal name && found.values name = [] then other.values name
    else found.values name

/-- True when all that has to be given is. -/
def isComplete (found : Matches) (command : CommandDeclaration) : Bool :=
  (command.arguments.all fun argument => !argument.required || found.values argument.name ≠ []) &&
    command.operand.all fun operand => !operand.required || found.values operand.name ≠ []

/-- The standard values of what is not given. -/
def fill (found : Matches) (arguments : List Argument) : Matches :=
  { found with
    values := fun name =>
      if found.values name = [] then
        ((arguments.find? (·.name == name)).bind (·.standard)).toList
      else found.values name }

end Matches

/-- What has been matched of a whole command line. -/
structure Matched where
  program : Matches
  /-- The command, by its name. -/
  command : Option (Text × Matches)

/-- Something that reads command lines by their declaration; the name of the program is
not among the words. -/
abbrev Parser := ProgramDeclaration → List Text → Except Refusal Matched

/-! ## the declaration of this program -/

/-- A flag for output as JSON. -/
def jsonFlag : Argument := { name := "json", long := "json" }

/-- The words of a command to run elsewhere. -/
def remoteOperand : Operand :=
  { name := "command", required := true, many := true, trailing := true, hyphens := true }

/-- The command that runs them. -/
def runDeclaration : CommandDeclaration :=
  { name := "run", arguments := [{ name := "no_tty", long := "no-tty" }]
    operand := some remoteOperand }

/-- The shell to write completions for. -/
def shellOperand : Operand :=
  { name := "shell", value := .oneOf (Shell.all.map Shell.name), required := true }

/-- The lock of a transfer. -/
def lockOption : Argument :=
  { name := "lock", long := "lock", value := some .path, required := true }

/-- The program that makes a transfer. -/
def rsyncOption : Argument :=
  { name := "rsync", long := "rsync", value := some .text, standard := some "rsync" }

/-- The words that are passed on to it. -/
def transferOperand : Operand := { name := "args", many := true, last := true }

/-- The command that makes one transfer. -/
def transferDeclaration : CommandDeclaration :=
  { name := "transfer", arguments := [lockOption, rsyncOption], operand := some transferOperand }

/-- The command line of the program. -/
def declaration : ProgramDeclaration where
  name := "tether"
  arguments := [{ name := "verbose", long := "verbose", letter := some 'v', isGlobal := true }]
  commands := [
    { name := "open" },
    { name := "close" },
    { name := "status", arguments := [jsonFlag] },
    runDeclaration,
    { name := "filters", arguments := [jsonFlag] },
    { name := "config" },
    { name := "completions", operand := some shellOperand },
    transferDeclaration]

/-- The command of a name, from what is matched of it. -/
def commandOf (name : Text) (found : Matches) : Except Refusal Command :=
  if name = "open" then .ok .openSession
  else if name = "close" then .ok .closeSession
  else if name = "status" then .ok (.status (found.flag "json"))
  else if name = "run" then .ok (.run (found.flag "no_tty") (found.values "command"))
  else if name = "filters" then .ok (.filters (found.flag "json"))
  else if name = "config" then .ok .config
  else if name = "completions" then
    match (found.values "shell").head?.bind Shell.ofName? with
    | some shell => .ok (.completions shell)
    | none => .error .missingArgument
  else if name = "transfer" then
    match (found.values "lock").head?, (found.values "rsync").head? with
    | some lock, some rsync => .ok (.transfer lock rsync (found.values "args"))
    | _, _ => .error .missingArgument
  else .error .unknownCommand

/-- What the matches of a command line ask for. -/
def requestOf (matched : Matched) : Except Refusal Request :=
  let verbose := matched.program.flag "verbose"
  match matched.command with
  | none => .ok ⟨verbose, none⟩
  | some (name, found) => (commandOf name found).map fun command => ⟨verbose, some command⟩

/-- What a command line asks for, as some parser reads it. -/
def request (parse : Parser) (words : List Text) : Except Refusal Request :=
  (parse declaration words).bind requestOf

end TreeSync.CommandLine
