import TreeSync.Git.Setting
import TreeSync.Git.Index
import TreeSync.Machine.Files

/-!
# TreeSync.Git.Repository

Repositories on a disk: what makes a directory one, where the repository of a
directory is found, its configuration and its index.

1. A directory is a repository if it has a file `HEAD` and directories `objects`
   and `refs`.
2. The repository of a directory is looked for in `.git` inside it, then in the
   directory itself, then the same way in its parents.
3. A file `.git` is a link to a repository elsewhere.
-/

namespace TreeSync

/-- What can go wrong with git. -/
inductive GitError
  /-- Something in the repository cannot be read. -/
  | failed
  | notAWorkingTree (path : Text)
  | invalidSetting (key : Text) (fault : Git.SettingFault)
  | file (error : FileError)
  deriving DecidableEq, Repr

/-- The text of a git error. -/
def GitError.message : GitError → Text
  | .failed => "git failed"
  | .notAWorkingTree path => "Not inside a git working tree: " ++ path
  | .invalidSetting key fault =>
      "Invalid value for git config key '" ++ key ++ "': " ++ fault.message
  | .file error => "Filesystem error: " ++ error.message

namespace Git

/-! ## repositories -/

/-- True when a path names a regular file. -/
def isFile (disk : Disk) (path : Text) : Bool :=
  match disk.lookup none path with
  | .ok (_, .file _) => true
  | _ => false

/-- True of directories that are repositories. -/
def isRepository (disk : Disk) (path : Text) : Bool :=
  isFile disk (Path.join path "HEAD") && disk.isDirectory none (Path.join path "objects")
    && disk.isDirectory none (Path.join path "refs")

/-- What looking for a repository at one place leads to. -/
inductive Search
  | found (gitDirectory : Text)
  /-- There is a link, and it leads nowhere: nothing else is looked at. -/
  | nowhere
  | failed
  /-- There is none at this place. -/
  | none
  deriving DecidableEq, Repr

/-- The path that a link file names. -/
def linkTarget? (content : Text) : Option Text :=
  let content := Text.dropEndWhile ConfigFile.isSpace content
  match "gitdir:".toList.isPrefixOf? content with
  | some (c :: r) => some ((c :: r).dropWhile ConfigFile.isSpace)
  | _ => none

/-- Look for a repository in `.git` inside a directory, or behind a link of that
name. -/
def searchInside (disk : Disk) (directory : Text) : Search :=
  let path := Path.join directory ".git"
  match disk.lookup none path with
  | .ok (_, .directory) => if isRepository disk path then .found path else .none
  | .ok (_, .file file) =>
      match linkTarget? (Text.ofBytesLossy file.content) with
      | none => .failed
      | some target =>
          match disk.canonical none (Path.join directory target) with
          | .error .notFound | .error .notDirectory => .nowhere
          | .error _ => .failed
          | .ok target => if isRepository disk target then .found target else .nowhere
  | _ => .none

/-- Look for the repository of a directory, given by the names from the root. -/
def search (disk : Disk) : List Text → Search
  | [] => searchAt []
  | name :: names =>
      match searchAt (name :: names) with
      | .none => search disk names
      | found => found
where
  /-- Look at one directory; its names come last first. -/
  searchAt (names : List Text) : Search :=
    let directory := Disk.pathOf names.reverse
    match searchInside disk directory with
    | .none => if isRepository disk directory then .found directory else .none
    | found => found

/-! ## configuration -/

/-- The configuration of a repository, one list of variables for each file.  The first
file wins. -/
def configOf? (disk : Disk) (environment : Environment) (gitDirectory : Text) :
    Option (List (List Variable)) :=
  environment.libraries.gitConfig disk environment.home environment.configHome gitDirectory

/-- The newest format of repositories that is understood. -/
def newestFormat : Int := 1

/-- True of a configuration whose repository format is understood. -/
def hasKnownFormat (files : List (List Variable)) : Bool :=
  match lookup files "core.repositoryformatversion".toList with
  | none => true
  | some value =>
      match value.bind int32? with
      | some version => 0 ≤ version && version ≤ newestFormat
      | none => false

/-- The working tree of a repository: what its configuration says, or the
directory it lies in.  A bare repository has none. -/
def workTree? (disk : Disk) (files : List (List Variable)) (gitDirectory : Text) :
    Except GitError (Option Text) :=
  match (lookup files "core.bare".toList).map boolean? with
  | some none => .error .failed
  | some (some true) => .ok none
  | _ =>
      match lookup files "core.worktree".toList with
      | some (some value) =>
          match disk.canonical none (Path.join gitDirectory (Text.ofBytesLossy
              (Text.bytesOfOctets value))) with
          | .ok path => .ok (some (Text.endWith '/' path))
          | .error .notFound | .error .notDirectory => .ok none
          | .error _ => .error .failed
      | _ => .ok ((Path.parent? gitDirectory).map (Text.endWith '/'))

/-! ## the index -/

/-- The entries of the index of a repository, decoded in the way that is handed in. -/
def indexOf? (decode : ByteArray → Option (List IndexEntry)) (disk : Disk) (gitDirectory : Text) :
    Option (List IndexEntry) :=
  match disk.readBytes none (Path.join gitDirectory "index") with
  | .ok bytes => decode bytes
  | .error .notFound => some []
  | .error _ => none

end Git

end TreeSync
