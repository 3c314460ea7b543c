import TreeSync.Disk.Walk
import TreeSync.Disk.Path

/-!
# TreeSync.Disk.Operation

What the system does to a disk on behalf of a program: reading, creating,
renaming and removing files, and creating directories.

An operation that is refused leaves the disk as it was; only `makeDirectories`
keeps the parents that it made before.
-/

namespace TreeSync

/-- The end of a path, as the operations that make or remove names see it. -/
inductive PathEnd
  /-- A name in an existing directory; `slash` tells a slash after it. -/
  | name (directory : Location) (name : Text) (slash : Bool)
  /-- The root, or a final `.` or `..`, which are no names. -/
  | noName
  deriving DecidableEq

namespace Disk

/-! ## reading -/

/-- The bytes of the file at a path. -/
def readBytes (disk : Disk) (cwd : Option Location) (path : Text) : Except DiskFault ByteArray :=
  match disk.lookup cwd path with
  | .ok (_, .file file) => .ok file.content
  | .ok _ => .error .isDirectory
  | .error fault => .error fault

/-- The text in the file at a path. -/
def readText (disk : Disk) (cwd : Option Location) (path : Text) : Except DiskFault Text :=
  match disk.readBytes cwd path with
  | .ok bytes =>
      match Text.ofBytes? bytes with
      | some text => .ok text
      | none => .error .invalidText
  | .error fault => .error fault

/-! ## the end of a path -/

/-- Walk to the directory that a path's last name is in, or would be in. -/
def findEnd (disk : Disk) (cwd : Option Location) (path : Text) : Except DiskFault PathEnd :=
  let named := (Text.pieces '/' path).filter (· ≠ [])
  if path.contains '\x00' then .error .invalidPath
  else
    match named.getLast? with
    | none => if path = [] then .error .notFound else .ok .noName
    | some last =>
        -- The `.` asks for a directory.
        let before := Text.joinWith ['/'] (named.dropLast ++ [['.']])
        match disk.find cwd true (if path.head? = some '/' then '/' :: before else before) with
        | .ok (.found directory _) =>
            if last = "." ∨ last = ".." then .ok .noName
            else .ok (.name directory last (path.getLast? = some '/'))
        | .ok (.free ..) => .error .notFound
        | .error fault => .error fault

/-! ## files -/

/-- Find the file at a path, or make an empty one if its name is free. -/
def openOrCreate (disk : Disk) (cwd : Option Location) (path : Text) :
    Except DiskFault (Disk × Location × File) :=
  match disk.findEnd cwd path with
  | .error fault => .error fault
  | .ok .noName => .error .isDirectory
  | .ok (.name _ _ true) => .error .isDirectory
  | .ok (.name _ _ false) =>
      match disk.find cwd true path with
      | .error fault => .error fault
      | .ok (.found location (.file file)) => .ok (disk, location, file)
      | .ok (.found ..) => .error .isDirectory
      | .ok (.free directory name) =>
          .ok (disk.putFile (directory ++ [name]) ByteArray.empty disk.newMode, directory ++ [name],
            ⟨disk.nextId, ByteArray.empty, disk.newMode⟩)

/-- Let the file at a path hold some bytes, and make it if need be. -/
def write (disk : Disk) (cwd : Option Location) (path : Text) (content : ByteArray) :
    Except DiskFault Disk :=
  match disk.openOrCreate cwd path with
  | .error fault => .error fault
  | .ok (disk, location, file) => .ok (disk.put location (.file { file with content }))

/-- Let the file at a path end with some bytes more, and make it if need be. -/
def append (disk : Disk) (cwd : Option Location) (path : Text) (more : ByteArray) :
    Except DiskFault Disk :=
  match disk.openOrCreate cwd path with
  | .error fault => .error fault
  | .ok (disk, location, file) =>
      .ok (disk.put location (.file { file with content := file.content ++ more }))

/-- The mode of a file that everybody may read and run, and its owner may write. -/
def executableMode : Nat := 0o755

/-- Make the file at a path executable. -/
def makeExecutable (disk : Disk) (cwd : Option Location) (path : Text) : Except DiskFault Disk :=
  match disk.lookup cwd path with
  | .error fault => .error fault
  | .ok (location, .file file) => .ok (disk.put location (.file { file with mode := executableMode }))
  | .ok _ => .ok disk

/-- Remove the name of a file or link. -/
def remove (disk : Disk) (cwd : Option Location) (path : Text) : Except DiskFault Disk :=
  match disk.findEnd cwd path with
  | .error fault => .error fault
  | .ok .noName => .error .isDirectory
  | .ok (.name directory name slash) =>
      if isTooLong name then .error .nameTooLong
      else
        match disk.get? (directory ++ [name]) with
        | none => .error .notFound
        | some .directory => .error .isDirectory
        | some _ =>
            if slash then .error .notDirectory else .ok (disk.erase (directory ++ [name]))

/-- Give a file or link another name, in the place of the file or link that has
it. -/
def rename (disk : Disk) (cwd : Option Location) (source target : Text) : Except DiskFault Disk :=
  match disk.findEnd cwd source, disk.findEnd cwd target with
  | .error fault, _ => .error fault
  | _, .error fault => .error fault
  | .ok (.name directory name _), .ok (.name directory' name' slash) =>
      if isTooLong name ∨ isTooLong name' then .error .nameTooLong
      else
        match disk.get? (directory ++ [name]), disk.get? (directory' ++ [name']) with
        | none, _ => .error .notFound
        | some .directory, _ => .error .busy
        | some _, some .directory => if slash then .error .notDirectory else .error .isDirectory
        | some entry, _ =>
            if slash then .error .notDirectory
            else .ok ((disk.erase (directory ++ [name])).put (directory' ++ [name']) entry)
  | .ok _, .ok _ => .error .busy

/-! ## directories and links -/

/-- Put a new entry at a free name. -/
def make (disk : Disk) (cwd : Option Location) (path : Text) (entry : Entry) :
    Except DiskFault Disk :=
  match disk.findEnd cwd path with
  | .error fault => .error fault
  | .ok .noName => .error .alreadyExists
  | .ok (.name directory name _) =>
      if isTooLong name then .error .nameTooLong
      else
        match disk.get? (directory ++ [name]) with
        | some _ => .error .alreadyExists
        | none => .ok (disk.put (directory ++ [name]) entry)

/-- Make one directory. -/
def makeDirectory (disk : Disk) (cwd : Option Location) (path : Text) : Except DiskFault Disk :=
  disk.make cwd path .directory

/-- Make a directory and its missing parents, at most `depth` of them. -/
def makeDirectoriesWithin (cwd : Option Location) :
    Nat → Text → Disk → Except DiskFault Unit × Disk
  | 0, _, disk => (.error .notFound, disk)
  | depth + 1, path, disk =>
      if path = [] then (.ok (), disk)
      else
        match disk.makeDirectory cwd path with
        | .ok disk => (.ok (), disk)
        | .error .notFound =>
            match Path.parent? path with
            | none => (.error .notFound, disk)
            | some parent =>
                match makeDirectoriesWithin cwd depth parent disk with
                | (.error fault, disk) => (.error fault, disk)
                | (.ok (), disk) =>
                    match disk.makeDirectory cwd path with
                    | .ok disk => (.ok (), disk)
                    | .error fault =>
                        if disk.isDirectory cwd path then (.ok (), disk) else (.error fault, disk)
        | .error fault =>
            if disk.isDirectory cwd path then (.ok (), disk) else (.error fault, disk)

/-- Make a directory and its missing parents.  A directory that is there already
is fine, and so is the empty path. -/
def makeDirectories (disk : Disk) (cwd : Option Location) (path : Text) :
    Except DiskFault Unit × Disk :=
  makeDirectoriesWithin cwd (path.length + 1) path disk

end Disk

end TreeSync
