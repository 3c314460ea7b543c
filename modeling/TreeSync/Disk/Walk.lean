import TreeSync.Disk

/-!
# TreeSync.Disk.Walk

From a path to what it names.

A walk starts at the root, or at the working directory for a relative path, and
takes the names one after the other.  It goes through links; a path that needs
more than `maxLinks` of them is refused.  Every name but the last must lead to a
directory.  A slash at the end asks for a directory, too.
-/

namespace TreeSync

/-- Where a walk ends. -/
inductive Destination
  /-- At an entry. -/
  | found (location : Location) (entry : Entry)
  /-- At a name that is free in an existing directory. -/
  | free (directory : Location) (name : Text)
  deriving DecidableEq

namespace Disk

/-- Most links that a walk goes through. -/
def maxLinks : Nat := 40

/-- Most bytes of a name. -/
def maxNameSize : Nat := 255

/-- The names that a path asks for, in order; a slash at the end counts as `.`. -/
def namesOfPath (path : Text) : List Text :=
  let named := (Text.pieces '/' path).filter (· ≠ [])
  if path.getLast? = some '/' then named ++ [['.']] else named

/-- True of names that are too long for the disk. -/
def isTooLong (name : Text) : Bool := maxNameSize < name.bytes.size

/-- Take names from an existing directory on.  `follow` goes on from a link: it
is given the directory of the link and the names still to take, those of the
link's target first. -/
def walkWith (disk : Disk) (followLast : Bool)
    (follow : Location → List Text → Except DiskFault Destination) :
    Location → List Text → Except DiskFault Destination
  | here, [] => .ok (.found here .directory)
  | here, name :: rest =>
      if name = ['.'] then disk.walkWith followLast follow here rest
      else if name = ['.', '.'] then disk.walkWith followLast follow here.dropLast rest
      else if isTooLong name then .error .nameTooLong
      else
        match disk.get? (here ++ [name]) with
        | none => if rest = [] then .ok (.free here name) else .error .notFound
        | some .directory => disk.walkWith followLast follow (here ++ [name]) rest
        | some (.file file) =>
            if rest = [] then .ok (.found (here ++ [name]) (.file file))
            else .error .notDirectory
        | some (.link target) =>
            if rest = [] ∧ followLast = false then .ok (.found (here ++ [name]) (.link target))
            else
              follow (if target.head? = some '/' then [] else here) (namesOfPath target ++ rest)

/-- Take names, through at most `links` links. -/
def walk (disk : Disk) (followLast : Bool) :
    Nat → Location → List Text → Except DiskFault Destination
  | 0 => disk.walkWith followLast fun _ _ => .error .tooManyLinks
  | links + 1 => disk.walkWith followLast (disk.walk followLast links)

/-- What a path names.  `cwd` is the working directory, `none` when there is
none.  With `followLast` a link at the end is gone through as well. -/
def find (disk : Disk) (cwd : Option Location) (followLast : Bool) (path : Text) :
    Except DiskFault Destination :=
  if path.contains '\x00' then .error .invalidPath
  else if path = [] then .error .notFound
  else
    match (if path.head? = some '/' then some [] else cwd) with
    | none => .error .notFound
    | some start => disk.walk followLast maxLinks start (namesOfPath path)

/-- The entry that a path names, through all links. -/
def lookup (disk : Disk) (cwd : Option Location) (path : Text) :
    Except DiskFault (Location × Entry) := do
  match ← disk.find cwd true path with
  | .found location entry => pure (location, entry)
  | .free .. => throw .notFound

/-- True when a path names a directory. -/
def isDirectory (disk : Disk) (cwd : Option Location) (path : Text) : Bool :=
  match disk.lookup cwd path with
  | .ok (_, .directory) => true
  | _ => false

/-- A location as an absolute path. -/
def pathOf : Location → Text
  | [] => ['/']
  | names => names.flatMap ('/' :: ·)

/-- The absolute path without links, `.` and `..` of an existing entry. -/
def canonical (disk : Disk) (cwd : Option Location) (path : Text) : Except DiskFault Text := do
  let (location, _) ← disk.lookup cwd path
  return pathOf location

end Disk

end TreeSync
