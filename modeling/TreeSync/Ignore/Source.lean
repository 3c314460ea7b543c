import TreeSync.Text.Blank

/-!
# TreeSync.Ignore.Source

Where ignore lines are read from, and the comma-separated lists that settings
name them with.
-/

namespace TreeSync

/-- A place that ignore lines are read from. -/
inductive RuleSource
  /-- The excludes file of the user. -/
  | global
  /-- The ignore file at the root of the tree. -/
  | root
  /-- Every tracked ignore file below the root. -/
  | subdirectories
  /-- A file, relative to the root of the tree or absolute. -/
  | file (path : Text)
  deriving DecidableEq, Repr

namespace RuleSource

/-- The sources used when none are configured. -/
def defaults : List RuleSource := [.global, .root, .subdirectories]

/-- The source that a name without blanks around it stands for. -/
def ofName (name : Text) : RuleSource :=
  if name = "global" then .global
  else if name = "root" then .root
  else if name = "subdirs" || name = "subdirectories" then .subdirectories
  else .file name

/-- Read the name of one source; a blank name is none. -/
def ofText? (text : Text) : Option RuleSource :=
  if Text.trim text = [] then none else some (ofName (Text.trim text))

/-- Read a comma-separated list of sources.  Blank names are passed over. -/
def listOfText (text : Text) : List RuleSource :=
  (Text.pieces ',' text).filterMap ofText?

/-- The name of a source. -/
def name : RuleSource → Text
  | .global => "global"
  | .root => "root"
  | .subdirectories => "subdirs"
  | .file path => path

end RuleSource

end TreeSync
