import TreeSync.CommandLine.Reading
import TreeSync.CommandLine.Run

/-!
# TreeSync.Main

The command line.

The files that a command may look at are read into a machine, the command is run
there, and then its output is printed and the files that it changed are written
back.  No programs are installed on that machine: the commands that look at a
session or compile its filters are served, and a command that would launch a
program ends as it does where the program is missing.
-/

namespace TreeSync.Main

/-! ## reading files into a disk -/

/-- Files larger than this are read as empty. -/
def maxFileSize : UInt64 := 1048576

/-- Deeper directories are not looked into. -/
def maxDepth : Nat := 64

/-- The location of an absolute path. -/
def locationOf (path : String) : Location :=
  (Text.pieces '/' path.toList).filter (· ≠ [])

/-- Read a directory entry, with everything below it, into a disk.  What cannot be
read is left out. -/
def load : Nat → Disk → IO.FS.DirEntry → IO Disk
  | 0, disk, _ => pure disk
  | depth + 1, disk, entry => do
      let location := locationOf entry.path.toString
      try
        let link ← entry.path.symlinkMetadata
        match link.type with
        | .symlink =>
            let target ← IO.FS.realPath entry.path
            return disk.put location (.link target.toString.toList)
        | .dir =>
            let mut disk := disk.put location .directory
            for inner in ← entry.path.readDir do
              disk ← load depth disk inner
            return disk
        | .file =>
            let content ←
              if link.byteSize ≤ maxFileSize then IO.FS.readBinFile entry.path
              else pure ByteArray.empty
            return disk.putFile location content disk.newMode
        | .other => return disk
      catch _ => return disk

/-- The directories on the way from the root to a location, that one included. -/
def ancestors (location : Location) : List Location :=
  (List.range (location.length + 1)).map location.take

/-- A location as a directory entry. -/
def entryOf (location : Location) : IO.FS.DirEntry :=
  { root := String.ofList (Disk.pathOf location.dropLast)
    fileName := String.ofList (location.getLast?.getD []) }

/-- The disk with the working tree around a directory, and the settings of the
user. -/
def loadDisk (cwd home configHome : String) : IO Disk := do
  let directories := ancestors (locationOf cwd)
  let mut disk := directories.foldl (fun (disk : Disk) d => disk.put d .directory) {}
  let isTree (d : Location) : IO Bool := (entryOf (d ++ [".git".toList])).path.pathExists
  match ← directories.reverse.filterM isTree with
  | tree :: _ => disk ← load maxDepth disk (entryOf tree)
  | [] => pure ()
  for d in ancestors (locationOf home) do disk := disk.put d .directory
  disk ← load 1 disk { root := home, fileName := ".gitconfig" }
  for d in ancestors (locationOf configHome) do disk := disk.put d .directory
  disk ← load maxDepth disk { root := configHome, fileName := "git" }
  load maxDepth disk { root := configHome, fileName := "tether" }

/-- The live processes. -/
def loadProcesses : IO (List Process) := do
  try
    let entries ← ({ root := "/", fileName := "proc" } : IO.FS.DirEntry).path.readDir
    return entries.toList.filterMap fun entry => entry.fileName.toNat?.map (⟨·, false⟩)
  catch _ => return []

/-! ## writing changes back -/

/-- Three bits of a mode. -/
def rightOf (bits : Nat) : IO.AccessRight := ⟨bits.testBit 2, bits.testBit 1, bits.testBit 0⟩

/-- The rights of the owner, the group and all others. -/
def rightsOf (mode : Nat) : IO.FileRight :=
  ⟨rightOf (mode >>> 6), rightOf (mode >>> 3), rightOf mode⟩

/-- Write one entry of a disk. -/
def store (location : Location) : Entry → IO Unit
  | .directory => IO.FS.createDirAll (entryOf location).path
  | .file file => do
      IO.FS.writeBinFile (entryOf location).path file.content
      IO.setAccessRights (entryOf location).path (rightsOf file.mode)
  | .link _ => pure ()

/-- Write what differs between two disks. -/
def storeChanges (before after : Disk) : IO Unit := do
  for (location, entry) in after.entries do
    if before.get? location ≠ some entry then store location entry
  for (location, entry) in before.entries do
    if (after.get? location).isNone then
      match entry with
      | .file _ => IO.FS.removeFile (entryOf location).path
      | _ => pure ()

end TreeSync.Main

open TreeSync in
/-- Run the command line. -/
def main (arguments : List String) : IO UInt32 := do
  let cwd := (← IO.currentDir).toString
  let home := (← IO.getEnv "HOME").getD "/"
  let configHome := (← IO.getEnv "XDG_CONFIG_HOME").getD (home ++ "/.config")
  let machine : Machine :=
    { disk := ← Main.loadDisk cwd home configHome
      processes := ← Main.loadProcesses
      environment :=
        { cwd := some (Main.locationOf cwd)
          home := home.toList
          configHome := configHome.toList
          searchPath := Text.pieces ':' ((← IO.getEnv "PATH").getD "").toList
          processTag := Text.ofNat (← IO.monoNanosNow)
          terminal := ← (← IO.getStdin).isTty
          executable := (← IO.appPath).toString.toList } }
  let (code, after) := match CommandLine.read (arguments.map String.toList) with
    | .ok request => (CommandLine.run cwd.toList request).run machine
    | .error refusal => (CommandLine.refuse refusal).run machine
  IO.print (String.ofList after.stdout)
  IO.eprint (String.ofList after.stderr)
  Main.storeChanges machine.disk after.disk
  return UInt32.ofNat code
