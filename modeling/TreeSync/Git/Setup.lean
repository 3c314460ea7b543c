import TreeSync.Git.Repository

/-!
# TreeSync.Git.Setup

Making a repository, and putting settings and paths into it.
-/

namespace TreeSync.Git

/-- Write a file and make its directory if need be.  What cannot be written is
left out. -/
def place (disk : Disk) (path : Text) (content : ByteArray) : Disk :=
  let disk := match Path.parent? path with
    | some parent => (disk.makeDirectories none parent).2
    | none => disk
  match disk.write none path content with
  | .ok disk => disk
  | .error _ => disk

/-- Write a file unless there is one. -/
def placeMissing (disk : Disk) (path : Text) (content : Text) : Disk :=
  if isFile disk path then disk else place disk path content.bytes

/-- The configuration of a new repository. -/
def newConfig (bare : Bool) : Text :=
  let flag (b : Bool) : Text := if b then "true" else "false"
  "[core]\n\tbare = " ++ flag bare
    ++ "\n\trepositoryformatversion = 0\n\tfilemode = true\n\tlogallrefupdates = true\n"

/-- Make a repository in a directory.  What is there already stays. -/
def makeRepository (disk : Disk) (gitDirectory : Text) (bare : Bool) : Disk :=
  let directories := ["hooks", "info", "objects/info", "objects/pack", "refs/heads", "refs/tags"]
  let disk := directories.foldl
    (fun disk name => (disk.makeDirectories none (Path.join gitDirectory name.toList)).2) disk
  let disk := placeMissing disk (Path.join gitDirectory "HEAD") "ref: refs/heads/master\n"
  placeMissing disk (Path.join gitDirectory "config") (newConfig bare)

/-- The bytes of a file, none if it cannot be read. -/
def bytesAt (disk : Disk) (path : Text) : ByteArray :=
  match disk.readBytes none path with
  | .ok bytes => bytes
  | .error _ => ByteArray.empty

/-- Give a setting a value in the configuration of a repository. -/
def configure (disk : Disk) (gitDirectory name value : Text) : Disk :=
  let path := Path.join gitDirectory "config"
  place disk path (bytesAt disk path ++ (ConfigFile.write name value).bytes)

/-- Put an entry into the index of a repository. -/
def track (disk : Disk) (gitDirectory : Text) (entry : IndexEntry) : Disk :=
  match indexOf? Index.parse? disk gitDirectory with
  | none => disk
  | some entries =>
      place disk (Path.join gitDirectory "index") (Index.encode (Index.add entries entry))

end TreeSync.Git
