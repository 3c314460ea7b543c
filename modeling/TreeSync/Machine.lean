import TreeSync.Libraries
import TreeSync.Machine.Lock

/-!
# TreeSync.Machine

The machine that a session runs on: a disk, locks, processes, installed
programs, a clock, and what has been printed and reported so far.

What the program does not do itself is a field as well: how its libraries decode and quote,
how `kill` answers, and where the device fails.

Everything that acts on the world is an `Action`: a function from a machine to an
outcome and a machine.  So what an operation leaves behind is a value that can
be compared, also when the operation fails.
-/

namespace TreeSync

/-! ## parts of a machine -/

/-- A live process. -/
structure Process where
  pid : Nat
  /-- It stays alive when it is asked to exit. -/
  stubborn : Bool := false
  deriving DecidableEq, Repr

/-- What `kill` does, which asks after processes and asks them to exit. -/
structure Kill where
  /-- The answer when it asks after the process of a number. -/
  probe : List Process → Nat → Bool := fun processes pid => processes.any (·.pid == pid)
  /-- The processes that are left when it has asked one to exit. -/
  signal : List Process → Nat → List Process := fun processes pid =>
    processes.filter fun process => process.pid != pid || process.stubborn

/-- How writing a file fails. -/
inductive WriteFailure
  /-- The file cannot be opened. -/
  | refused (fault : DiskFault)
  /-- Only some of the bytes get there, or all of them but not for good. -/
  | broken (kept : Nat) (fault : DiskFault)
  deriving DecidableEq, Repr

/-- Where a device fails, and where permissions are missing. -/
structure Device where
  /-- How writing some bytes to the file at a path fails, if it does. -/
  write : Disk → Text → ByteArray → Option WriteFailure := fun _ _ _ => none
  /-- How giving the file at a path another path fails, if it does. -/
  rename : Disk → Text → Text → Option DiskFault := fun _ _ _ => none

/-- How a program ends. -/
inductive Ending
  | exit (status : Nat)
  | signal (number : Nat)
  deriving DecidableEq, Repr

/-- The code that stands for an ending: the status, or 128 and the signal. -/
def Ending.code : Ending → Nat
  | .exit status => status
  | .signal number => 128 + number

/-- What an installed program does when it is run. -/
structure Program where
  /-- What it writes to its standard error. -/
  stderr : Text := []
  /-- A file that it writes, and the content. -/
  writes : Option (Text × Text) := none
  /-- The processes that it leaves running. -/
  starts : List Nat := []
  ending : Ending := .exit 0
  deriving DecidableEq, Repr

/-- One run of a program. -/
structure Launch where
  program : Text
  arguments : List Text
  deriving DecidableEq, Repr

/-- How grave a report is. -/
inductive Level
  | debug
  | info
  | warn
  deriving DecidableEq, Repr

/-- What a program finds around it. -/
structure Environment where
  /-- The working directory, `none` when it is not on the disk. -/
  cwd : Option Location := none
  home : Text := []
  /-- The directory with the settings of the user. -/
  configHome : Text := []
  /-- The directories that programs are looked for in. -/
  searchPath : List Text := []
  /-- What tells the temporary files of this process from those of others. -/
  processTag : Text := []
  /-- The standard input is a terminal. -/
  terminal : Bool := false
  /-- The path of this executable. -/
  executable : Text := []
  libraries : Libraries := {}

/-- A machine. -/
structure Machine where
  disk : Disk := {}
  locks : LockTable := {}
  processes : List Process := []
  kill : Kill := {}
  device : Device := {}
  programs : List (Location × Program) := []
  /-- Milliseconds. -/
  clock : Nat := 0
  environment : Environment := {}
  launches : List Launch := []
  reports : List Level := []
  stdout : Text := []
  stderr : Text := []

/-! ## actions -/

/-- Something done on a machine that may fail. -/
abbrev Action (ε α : Type) := ExceptT ε (StateM Machine) α

namespace Action

/-- Report something. -/
def report (level : Level) : Action ε Unit :=
  modify fun machine => { machine with reports := machine.reports ++ [level] }

/-- Print to the standard output. -/
def print (text : Text) : Action ε Unit :=
  modify fun machine => { machine with stdout := machine.stdout ++ text }

/-- Do something whose fault has to be put into other words. -/
def mapError (f : ε → ε') (action : Action ε α) : Action ε' α := do
  match ← (action.run : StateM Machine (Except ε α)) with
  | .ok value => pure value
  | .error fault => throw (f fault)

/-- Do something on the disk alone. -/
def onDisk (f : Disk → Option Location → Except DiskFault Disk) : Action DiskFault Unit := do
  let machine ← get
  match f machine.disk machine.environment.cwd with
  | .ok disk => set { machine with disk }
  | .error fault => throw fault

/-- Look at something on the disk that may not be there. -/
def seeDisk (f : Disk → Option Location → Except DiskFault α) : Action DiskFault α := do
  let machine ← get
  match f machine.disk machine.environment.cwd with
  | .ok value => pure value
  | .error fault => throw fault

end Action

/-! ## printing and processes -/

namespace Machine

/-- Print to the standard error. -/
def printError (machine : Machine) (text : Text) : Machine :=
  { machine with stderr := machine.stderr ++ text }

/-- True when a process is alive. -/
def isAlive (machine : Machine) (pid : Nat) : Bool :=
  machine.processes.any (·.pid == pid)

/-- True when `kill` finds a process. -/
def answers (machine : Machine) (pid : Nat) : Bool := machine.kill.probe machine.processes pid

/-- Start a process; one of that number that is there already is replaced. -/
def startProcess (machine : Machine) (pid : Nat) (stubborn : Bool) : Machine :=
  { machine with processes := machine.processes.filter (·.pid != pid) ++ [⟨pid, stubborn⟩] }

/-- Ask a process to exit. -/
def terminate (machine : Machine) (pid : Nat) : Machine :=
  { machine with processes := machine.kill.signal machine.processes pid }

end Machine

end TreeSync
