import TreeSync.CommandLine.Command
import TreeSync.Json.Pretty
import TreeSync.Session.Remote
import TreeSync.Session.Resolve
import TreeSync.Session.Transfer

/-!
# TreeSync.CommandLine.Run

Doing what a command line asks for: what is printed, and the code at the end.

A command that fails prints its error on the standard error, after whatever it
has printed already, and ends with code 1.
-/

namespace TreeSync.CommandLine

/-- A line of output. -/
def line (t : Text) : Text := t ++ ['\n']

/-! ## reports -/

/-- How much is reported when the user asks for reports. -/
inductive Verbosity
  | off
  | error
  | warn
  | info
  | debug
  | trace
  deriving DecidableEq, Repr

/-- The verbosity that a word stands for; everything up to debugging is reported
where no word is given. -/
def Verbosity.ofWord (word : Option Text) : Verbosity :=
  match word.map fun w => (w.map Char.toLower : Text) with
  | none => .debug
  | some word =>
      if word = "off" then .off
      else if word = "error" then .error
      else if word = "warn" then .warn
      else if word = "info" then .info
      else if word = "trace" then .trace
      else .debug

/-- True of the levels that a verbosity shows. -/
def Verbosity.shows : Verbosity → TreeSync.Level → Bool
  | .off, _ | .error, _ => false
  | .warn, level => level == .warn
  | .info, level => level != .debug
  | .debug, _ | .trace, _ => true

/-! ## the session of a directory -/

/-- A working tree and the configuration of its session. -/
structure Context where
  workspace : Workspace
  config : SessionConfig

/-- Find the working tree that the command is given in, and resolve its settings. -/
def context (cwd : Text) : Action SessionError Context := do
  let workspace ← (Workspace.discover cwd).mapError SessionError.git
  let config ← resolve workspace {}
  return { workspace, config }

/-! ## commands -/

/-- Open a session. -/
def runOpen (cwd : Text) : Action SessionError Nat := do
  let ctx ← context cwd
  Action.print (line ("=> " ++ ctx.config.root ++ " -> " ++ ctx.config.target))
  let pid ← Session.start ctx.config ctx.workspace.ignoreIndex (← get).environment.executable
  Action.print (line ("OK Session open (lsyncd pid " ++ Text.ofNat pid ++ ")"))
  Action.print (line ("   Log: " ++ ctx.config.logPath))
  pure 0

/-- Close the session. -/
def runClose (cwd : Text) : Action SessionError Nat := do
  let ctx ← context cwd
  match ← Session.close ctx.config with
  | some pid => Action.print (line ("OK Session closed (lsyncd pid " ++ Text.ofNat pid ++ ")"))
  | none => Action.print (line "No open session")
  pure 0

/-- A session state as JSON. -/
def stateJson : SessionState → JsonValue
  | .running pid => .object [("pid", .number pid), ("state", .text "open")]
  | .stale pid => .object [("pid", .number pid), ("state", .text "stale")]
  | .closed => .object [("state", .text "closed")]

/-- What is told of a session as JSON, by name. -/
def statusJson (config : SessionConfig) (state : SessionState) : JsonValue :=
  .object [
    ("lock_file", .text config.lockPath),
    ("log_file", .text config.logPath),
    ("pid_file", .text config.pidPath),
    ("root", .text config.root),
    ("session", stateJson state),
    ("target", .text config.target)]

/-- A session state in words. -/
def stateText : SessionState → Text
  | .running pid => "open (lsyncd pid " ++ Text.ofNat pid ++ ")"
  | .stale pid => "closed (lsyncd pid " ++ Text.ofNat pid ++ " is gone, PID file removed)"
  | .closed => "closed"

/-- What is told of a session, in lines. -/
def statusText (config : SessionConfig) (state : SessionState) : Text :=
  line "Session Status" ++ line []
    ++ line ("Root:   " ++ config.root)
    ++ line ("Target: " ++ config.target)
    ++ line ("State:  " ++ stateText state)
    ++ line ("Log:    " ++ config.logPath)

/-- Tell about the session, after clearing a stale one away. -/
def runStatus (cwd : Text) (json : Bool) : Action SessionError Nat := do
  let ctx ← context cwd
  let state ← Session.refresh ctx.config
  Action.print (if json then line ((statusJson ctx.config state).pretty 0)
    else statusText ctx.config state)
  pure 0

/-- What is printed before waiting for transfers. -/
def waitingNotice : Text := line ".. Waiting for in-flight transfers to finish..."

/-- Run a command in the remote copy.  The user is told if it has to wait. -/
def runRemote (cwd : Text) (words : List Text) (noTerminal : Bool) : Action SessionError Nat := do
  let ctx ← context cwd
  let terminal := !noTerminal && (← get).environment.terminal
  Remote.run ctx.config words terminal
    (modify fun machine => machine.printError waitingNotice)

/-- A filter rule as JSON. -/
def ruleJson (rule : FilterRule) : JsonValue :=
  .object [("sense", .text rule.sense.word), ("pattern", .text rule.pattern)]

/-- Print the filter rules of the session. -/
def runFilters (cwd : Text) (json : Bool) : Action SessionError Nat := do
  let ctx ← context cwd
  let set ← Session.filters ctx.config ctx.workspace.ignoreIndex
  Action.print (if json then line ((JsonValue.array (set.rules.map ruleJson)).pretty 0)
    else set.text)
  pure 0

/-- Print the configuration that the engine would be started with. -/
def runConfig (cwd : Text) : Action SessionError Nat := do
  let ctx ← context cwd
  let set ← Session.filters ctx.config ctx.workspace.ignoreIndex
  Action.print (Engine.configText ctx.config set)
  pure 0

/-! ## texts that need no session -/

/-- The names of the commands that the user gives. -/
def commandNames : List Text :=
  ["open", "close", "status", "run", "filters", "config", "completions", "help"]

/-- A completion script that offers the commands. -/
def completionScript (shell : Shell) : Text :=
  let names := Text.joinWith [' '] commandNames
  match shell with
  | .bash => line ("complete -W '" ++ names ++ "' tether")
  | .zsh => line "#compdef tether" ++ line ("compadd " ++ names)
  | .fish => line ("complete -c tether -f -a '" ++ names ++ "'")
  | .elvish =>
      line ("set edit:completion:arg-completer[tether] = \x7b|@words| put " ++ names ++ " \x7d")
  | .powershell =>
      line ("Register-ArgumentCompleter -Native -CommandName tether -ScriptBlock \x7b '"
        ++ names ++ "'.Split(' ') \x7d")

/-- What is printed when no command is given. -/
def hint : Text :=
  line "tether keeps a remote mirror in sync" ++ line []
    ++ line "Run tether --help for available commands."

/-- The name and version of the program. -/
def versionText : Text := line "tether 0.1.0"

/-- How the program is used. -/
def helpText : Text :=
  line "Usage: tether [OPTIONS] [COMMAND]" ++ line []
    ++ line ("Commands: " ++ Text.joinWith ", " commandNames) ++ line []
    ++ line "Options: -v, --verbose; -h, --help; -V, --version"

/-! ## the whole program -/

/-- Do what a command asks for; the answer is the code at the end. -/
def runCommand (cwd : Text) : Command → Action SessionError Nat
  | .openSession => runOpen cwd
  | .closeSession => runClose cwd
  | .status json => runStatus cwd json
  | .run noTerminal words => runRemote cwd words noTerminal
  | .filters json => runFilters cwd json
  | .config => runConfig cwd
  | .completions shell => do
      Action.print (completionScript shell)
      pure 0
  | .transfer lock rsync arguments => Transfer.run lock rsync arguments

/-- Do what a command line asks for. -/
def runRequest (cwd : Text) (request : Request) : Action SessionError Nat := do
  Action.report .debug
  match request.command with
  | none => do
      Action.print hint
      pure 0
  | some command => runCommand cwd command

/-- Do what a command line asks for, with its errors told; the answer is the code
at the end. -/
def run (cwd : Text) (request : Request) : StateM Machine Nat := do
  match ← (runRequest cwd request).run with
  | .ok code => pure code
  | .error error =>
      modify fun machine => machine.printError (line ("error: " ++ error.message))
      pure 1

/-- Answer a command line that asks for no command; the answer is the code. -/
def refuse (refusal : Refusal) : StateM Machine Nat := do
  match refusal with
  | .help =>
      modify fun machine => { machine with stdout := machine.stdout ++ helpText }
      pure 0
  | .version =>
      modify fun machine => { machine with stdout := machine.stdout ++ versionText }
      pure 0
  | _ =>
      modify fun machine => machine.printError (line "error: the arguments make no command")
      pure 2

end TreeSync.CommandLine
