import TreeSync.Machine

/-!
# TreeSync.Machine.Launch

Running installed programs.

A bare name is looked for in the directories of the search path, in order; a
name with a slash is a path.  Only files that can be run are run: a directory or
another file is refused, unless a later directory has the program.
-/

namespace TreeSync

/-- Why a program cannot be started. -/
inductive LaunchFault
  | disk (fault : DiskFault)
  /-- The name or an argument holds a character that none can hold. -/
  | invalidArgument
  deriving DecidableEq, Repr

/-- The words of the system for a fault. -/
def LaunchFault.message : LaunchFault → Text
  | .disk fault => fault.message
  | .invalidArgument => "nul byte found in provided data"

namespace Machine

/-- The program at a path. -/
def programAt (machine : Machine) (cwd : Option Location) (path : Text) :
    Except DiskFault (Location × Program) :=
  match machine.disk.lookup cwd path with
  | .error fault => .error fault
  | .ok (location, .file file) =>
      if file.executable then
        match machine.programs.find? (·.1 == location) with
        | some program => .ok program
        | none => .error .permissionDenied
      else .error .permissionDenied
  | .ok _ => .error .permissionDenied

/-- The first program of a name in some directories.  `fault` is what to report
when there is none. -/
def searchProgram (machine : Machine) (cwd : Option Location) (name : Text) (fault : DiskFault) :
    List Text → Except DiskFault (Location × Program)
  | [] => .error fault
  | directory :: rest =>
      match machine.programAt cwd (Path.join directory name) with
      | .ok found => .ok found
      | .error .permissionDenied => machine.searchProgram cwd name .permissionDenied rest
      | .error _ => machine.searchProgram cwd name fault rest

/-- The program that a name stands for. -/
def findProgram (machine : Machine) (cwd : Option Location) (name : Text) :
    Except DiskFault (Location × Program) :=
  if name = [] then .error .notFound
  else if name.contains '/' then machine.programAt cwd name
  else machine.searchProgram cwd name .notFound machine.environment.searchPath

/-- What a running program does to the machine, its error output apart. -/
def perform (machine : Machine) (program : Program) : Machine :=
  let disk := match program.writes with
    | none => machine.disk
    | some (path, content) =>
        match machine.disk.write none path content.bytes with
        | .ok disk => disk
        | .error _ => machine.disk
  program.starts.foldl (fun machine pid => machine.startProcess pid false) { machine with disk }

end Machine

/-- True when no text holds a character that a program's name and arguments cannot. -/
def canBePassed (texts : List Text) : Bool := texts.all fun text => !text.contains '\x00'

/-- Run a program to its end in a working directory.  `onStderr` is where its
error output goes. -/
def launch (cwd : Option Location) (name : Text) (arguments : List Text)
    (onStderr : Text → Machine → Machine) : Action LaunchFault Ending := do
  if !canBePassed (name :: arguments) then throw .invalidArgument
  match (← get).findProgram cwd name with
  | .error fault => throw (.disk fault)
  | .ok (location, program) =>
      let launched : Launch := ⟨location.getLast?.getD [], arguments⟩
      modify fun machine =>
        (onStderr program.stderr
          { machine with launches := machine.launches ++ [launched] }).perform program
      pure program.ending

/-- Run a program to its end in the working directory of a path, which has to be there. -/
def launchIn (directory name : Text) (arguments : List Text)
    (onStderr : Text → Machine → Machine) : Action LaunchFault Ending := do
  if !canBePassed (directory :: name :: arguments) then throw .invalidArgument
  let machine ← get
  match machine.disk.lookup machine.environment.cwd directory with
  | .ok (location, .directory) => launch (some location) name arguments onStderr
  | .ok _ => throw (.disk .notDirectory)
  | .error fault => throw (.disk fault)

end TreeSync
