import TreeSync.Git.Workspace
import TreeSync.Ignore.Line
import TreeSync.Text.Lines

/-!
# TreeSync.Ignore.Compile

From the ignore files of a working tree to one filter set.

The sources are taken in their order, the files of a source in theirs, and the
lines of a file in theirs.  A file that has to be there and cannot be read ends
the compilation; a file that need not be there is passed over when it is missing.
-/

namespace TreeSync

/-- What can go wrong with the sources of ignore lines. -/
inductive SourceError
  | unreadable (source path : Text) (cause : FileError)
  | git (error : GitError)
  deriving DecidableEq, Repr

/-- The text of a source error. -/
def SourceError.message : SourceError → Text
  | .unreadable source path cause =>
      "Cannot read " ++ source ++ " ignore source " ++ path ++ ": " ++ cause.message
  | .git error => error.message

/-- What a working tree tells about its ignore files. -/
structure IgnoreIndex where
  /-- The absolute path of the tree. -/
  root : Text
  globalExcludes : Action GitError (Option Text)
  /-- The tracked ignore files below the root, relative to it. -/
  trackedIgnoreFiles : Action GitError (List TreePath)

/-- A working tree as an index of its ignore files. -/
def Workspace.ignoreIndex (workspace : Workspace) : IgnoreIndex :=
  ⟨workspace.root, workspace.globalExcludes, workspace.trackedIgnoreFiles⟩

/-- One file of ignore lines. -/
structure IgnoreFile where
  /-- What the file is called in an error. -/
  source : Text
  path : Text
  /-- The directory that its lines are relative to, the root of the tree if none. -/
  directory : Option Text
  /-- It has to be there. -/
  required : Bool
  deriving DecidableEq, Repr

namespace IgnoreFile

/-- The filter rules that the lines of a file stand for. -/
def rulesOfText (directory : Option Text) (content : Text) : List FilterRule :=
  (Text.lines content).flatMap fun line => rulesOfLine line directory

/-- How many lines of a file have rules that only approximate them. -/
def approximations (directory : Option Text) (content : Text) : Nat :=
  ((Text.lines content).filterMap fun line => IgnoreRule.parse line directory).countP
    IgnoreRule.isApproximate

/-- The text of a file, if it is there. -/
def read (file : IgnoreFile) : Action SourceError (Option Text) :=
  Action.mapError (.unreadable file.source file.path)
    (if file.required then do return some (← Files.readText file.path)
     else Files.readOptionalText file.path)

/-- The filter rules of a file. -/
def rules (file : IgnoreFile) : Action SourceError (List FilterRule) := do
  match ← file.read with
  | none => pure []
  | some content =>
      if 0 < approximations file.directory content then Action.report .warn
      pure (rulesOfText file.directory content)

/-- A tracked ignore file below the root.  It may have been removed since. -/
def ofTracked (root : Text) (path : TreePath) : IgnoreFile where
  source := RuleSource.subdirectories.name
  path := Path.join root path.text
  directory := path.parent?.map TreePath.anchored
  required := false

end IgnoreFile

/-- The files of a source. -/
def RuleSource.files (index : IgnoreIndex) : RuleSource → Action SourceError (List IgnoreFile)
  | .global => do
      match ← index.globalExcludes.mapError SourceError.git with
      | some path => pure [⟨RuleSource.global.name, path, none, true⟩]
      | none => pure []
  | .root =>
      pure [⟨RuleSource.root.name, Path.join index.root SessionFile.ignoreFile.name, none, false⟩]
  | .subdirectories => do
      let paths ← index.trackedIgnoreFiles.mapError SourceError.git
      pure (paths.map (IgnoreFile.ofTracked index.root))
  | .file path => pure [⟨"literal", Path.join index.root path, none, true⟩]

/-- The filter rules of a source. -/
def RuleSource.rules (index : IgnoreIndex) (source : RuleSource) :
    Action SourceError (List FilterRule) := do
  let files ← source.files index
  return (← files.mapM IgnoreFile.rules).flatten

/-- The filter set of some sources. -/
def compile (index : IgnoreIndex) (sources : List RuleSource) : Action SourceError FilterSet := do
  return FilterSet.empty.append (← sources.mapM (RuleSource.rules index)).flatten

end TreeSync
