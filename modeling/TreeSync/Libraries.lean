import TreeSync.Disk.Operation
import TreeSync.Git.ConfigFile
import TreeSync.Git.Index
import TreeSync.Shell.Word
import TreeSync.Toml.Document

/-!
# TreeSync.Libraries

What the program leaves to the libraries that it is built with.

Nothing is known of them but what is said where they are used.  The standard values are
this library's own readers and its own quoting, with which the program can be run; they
know the common forms only.
-/

namespace TreeSync

namespace Git

/-- The variables of a configuration file; a missing file has none. -/
def variablesOf? (disk : Disk) (path : Text) : Option (List Variable) :=
  match disk.readBytes none path with
  | .ok bytes => ConfigFile.parse? (Text.octets bytes)
  | .error .notFound | .error .notDirectory => some []
  | .error _ => none

/-- The configuration of a repository: its own file, then those of the user.  Files that
they include are not looked at. -/
def readConfig? (disk : Disk) (home configHome gitDirectory : Text) :
    Option (List (List Variable)) := do
  let own ← variablesOf? disk (Path.join gitDirectory "config")
  let user ← variablesOf? disk (Path.join home ".gitconfig")
  let shared ← variablesOf? disk (Path.join configHome "git/config")
  some [own, user, shared]

end Git

/-- The libraries of the program. -/
structure Libraries where
  /-- A word as it is written on the command line of a shell. -/
  quote : Text → Text := Shell.quote
  /-- The table that a TOML document spells. -/
  toml : Text → Option Toml.Table := Toml.parse?
  /-- The configuration of a repository, from the home directory, the directory with the
  settings of the user and the directory of the repository. -/
  gitConfig : Disk → Text → Text → Text → Option (List (List Git.Variable)) := Git.readConfig?
  /-- The entries of an index file. -/
  gitIndex : ByteArray → Option (List Git.IndexEntry) := Git.Index.parse?

end TreeSync
