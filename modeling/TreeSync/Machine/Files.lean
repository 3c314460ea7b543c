import TreeSync.Machine

/-!
# TreeSync.Machine.Files

Reading and writing whole files, with the path in every error.

A file is written under a temporary name beside it and renamed, so nobody ever
reads half of it.
-/

namespace TreeSync

/-- What can go wrong with a file or with a lock on it. -/
inductive FileError
  | io (path : Text) (fault : DiskFault)
  /-- The lock file that a session makes is not there. -/
  | lockMissing (path : Text)
  deriving DecidableEq, Repr

/-- The text of a file error. -/
def FileError.message : FileError → Text
  | .io path fault => "I/O error at " ++ path ++ ": " ++ fault.message
  | .lockMissing path => "Transfer lock " ++ path ++ " does not exist. Is a session open?"

namespace Files

/-- The name that a file is written under first, in the same directory. -/
def temporaryPath (tag path : Text) : Text :=
  Path.withFileName path ("." ++ ((Path.fileName? path).getD []) ++ "." ++ tag ++ ".tmp")

/-- Name the path in the faults of an action. -/
def naming (path : Text) (action : Action DiskFault α) : Action FileError α :=
  action.mapError (.io path)

/-- Make a directory and its missing parents. -/
def makeDirectories (path : Text) : Action FileError Unit := do
  let machine ← get
  let (outcome, disk) := machine.disk.makeDirectories machine.environment.cwd path
  set { machine with disk }
  match outcome with
  | .ok () => pure ()
  | .error fault => throw (.io path fault)

/-- Make the directory that a path lies in. -/
def makeParent (path : Text) : Action FileError Unit :=
  match Path.parent? path with
  | none => pure ()
  | some parent => makeDirectories parent

/-- Let the file at a path hold some bytes, as far as the device goes along. -/
def store (path : Text) (content : ByteArray) : Action DiskFault Unit := do
  let machine ← get
  match machine.device.write machine.disk path content with
  | none => Action.onDisk fun disk cwd => disk.write cwd path content
  | some (.refused fault) => throw fault
  | some (.broken kept fault) => do
      Action.onDisk fun disk cwd => disk.write cwd path (content.extract 0 kept)
      throw fault

/-- Give a file another path, if the device goes along. -/
def move (source target : Text) : Action DiskFault Unit := do
  let machine ← get
  match machine.device.rename machine.disk source target with
  | none => Action.onDisk fun disk cwd => disk.rename cwd source target
  | some fault => throw fault

/-- Write a file, all of it or nothing: under the temporary name, then renamed. -/
def writeAtomic (path : Text) (content : ByteArray) : Action FileError Unit := do
  makeParent path
  let temporary := temporaryPath (← get).environment.processTag path
  naming temporary (store temporary content)
  naming path (move temporary path)

/-- Write a file that can be run. -/
def writeExecutable (path content : Text) : Action FileError Unit := do
  writeAtomic path content.bytes
  naming path (Action.onDisk fun disk cwd => disk.makeExecutable cwd path)

/-- Read the text in a file. -/
def readText (path : Text) : Action FileError Text :=
  naming path (Action.seeDisk fun disk cwd => disk.readText cwd path)

/-- Read the text in a file; a missing file has none. -/
def readOptionalText (path : Text) : Action FileError (Option Text) := do
  match (← get).disk.readText (← get).environment.cwd path with
  | .ok text => pure (some text)
  | .error .notFound => pure none
  | .error fault => throw (.io path fault)

/-- Remove a file if it is there, and tell whether it was. -/
def removeIfExists (path : Text) : Action FileError Bool := do
  let machine ← get
  match machine.disk.remove machine.environment.cwd path with
  | .ok disk =>
      set { machine with disk }
      pure true
  | .error .notFound => pure false
  | .error fault => throw (.io path fault)

end Files

end TreeSync
