import TreeSync.Git.Repository
import TreeSync.Session.Config
import TreeSync.Text.Shown
import TreeSync.Tree.Path

/-!
# TreeSync.Git.Workspace

The working tree that a session syncs, and what git knows about it.
-/

namespace TreeSync

/-- A working tree with its repository, both as canonical paths. -/
structure Workspace where
  root : Text
  gitDirectory : Text
  deriving DecidableEq, Repr

namespace Workspace

open Git

/-- The canonical path of a directory of a repository. -/
def canonical (path : Text) : Action GitError Text :=
  Action.mapError .file (Files.naming path (Action.seeDisk fun disk _ => disk.canonical none path))

/-- Find the working tree that a path lies in. -/
def discover (start : Text) : Action GitError Workspace := do
  let machine ← get
  let disk := machine.disk
  match disk.find machine.environment.cwd true start with
  | .ok (.found location _) =>
      match search disk location.reverse with
      | .failed => throw .failed
      | .nowhere | .none => throw (.notAWorkingTree start)
      | .found gitDirectory =>
          match configOf? disk machine.environment gitDirectory with
          | none => throw .failed
          | some files =>
              if !hasKnownFormat files then throw .failed
              match workTree? disk files gitDirectory with
              | .error error => throw error
              | .ok none => throw (.notAWorkingTree start)
              | .ok (some root) =>
                  let root ← canonical root
                  let gitDirectory ← canonical gitDirectory
                  return { root, gitDirectory }
  | .ok (.free ..) | .error .notFound | .error .notDirectory => throw (.notAWorkingTree start)
  | .error _ => throw .failed

/-- The directory of the session files. -/
def stateDirectory (workspace : Workspace) : Text :=
  Path.join workspace.gitDirectory SessionFile.stateDirectory.name

/-- A working tree as it is shown to programmers. -/
def shown (workspace : Workspace) : Text :=
  "GitWorkspace \x7b root: " ++ Text.shown workspace.root
    ++ ", git_dir: " ++ Text.shown workspace.gitDirectory ++ " \x7d"

/-! ## tracked ignore files -/

/-- Keep an element out if it equals the one before. -/
def dropRepeats [BEq α] : List α → List α
  | [] => []
  | [x] => [x]
  | x :: y :: r => if x == y then dropRepeats (y :: r) else x :: dropRepeats (y :: r)

/-- True of the paths of ignore files below the root. -/
def isNestedIgnoreFile (path : TreePath) : Bool :=
  path.fileName? = some SessionFile.ignoreFile.name && path.parent?.isSome

/-- The ignore files below the root that an index lists, in its order.  The sides
of a conflict are one file. -/
def ignoreFilesOf (entries : List IndexEntry) : List TreePath :=
  dropRepeats ((entries.map fun entry => TreePath.ofText entry.path).filter isNestedIgnoreFile)

/-- The entries of the index. -/
def entriesOn? (workspace : Workspace) (machine : Machine) : Option (List IndexEntry) :=
  indexOf? machine.environment.libraries.gitIndex machine.disk workspace.gitDirectory

/-- The tracked ignore files below the root. -/
def trackedIgnoreFiles (workspace : Workspace) : Action GitError (List TreePath) := do
  match workspace.entriesOn? (← get) with
  | some entries => pure (ignoreFilesOf entries)
  | none => throw .failed

/-! ## settings -/

/-- The configuration as it is now. -/
def configFiles (workspace : Workspace) : Action GitError (List (List Variable)) := do
  let machine ← get
  match configOf? machine.disk machine.environment workspace.gitDirectory with
  | some files => pure files
  | none => throw .failed

/-- The excludes file of the user, if one is configured. -/
def globalExcludes (workspace : Workspace) : Action GitError (Option Text) := do
  match lookup (← workspace.configFiles) "core.excludesfile".toList with
  | none => pure none
  | some none => throw .failed
  | some (some value) =>
      let path := Text.ofBytesLossy (Text.bytesOfOctets value)
      match expandPath? (← get).environment.home path with
      | some path => pure (some path)
      | none => throw .failed

/-- A setting as text. -/
def setting (workspace : Workspace) (key : Text) : Action GitError (Option Text) := do
  match textSetting (← workspace.configFiles) key with
  | .ok value => pure value
  | .error fault => throw (.invalidSetting key fault)

/-- A setting as a truth value. -/
def flag (workspace : Workspace) (key : Text) : Action GitError (Option Bool) := do
  match boolSetting (← workspace.configFiles) key with
  | .ok value => pure value
  | .error fault => throw (.invalidSetting key fault)

end Workspace

end TreeSync
