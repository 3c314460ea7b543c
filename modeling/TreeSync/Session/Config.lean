import TreeSync.Settings
import TreeSync.Ignore.Source
import TreeSync.Disk.Path

/-!
# TreeSync.Session.Config

What a session needs to know, and where its files are.

All files of a session lie in one directory inside the git directory, so none of
them is ever part of a transfer.
-/

namespace TreeSync

/-- The files and directories of a session, by what they are for. -/
inductive SessionFile
  | stateDirectory
  /-- The ignore file at the root of the tree. -/
  | ignoreFile
  /-- The settings of the tree. -/
  | treeSettings
  | lock
  | pid
  | log
  | engineConfig
  /-- The script that the engine runs for every transfer. -/
  | transferShim
  deriving DecidableEq, Repr

/-- The name of a session file. -/
def SessionFile.name : SessionFile → Text
  | .stateDirectory => "tether"
  | .ignoreFile => ".gitignore"
  | .treeSettings => ".tether.toml"
  | .lock => "transfer.lock"
  | .pid => "lsyncd.pid"
  | .log => "lsyncd.log"
  | .engineConfig => "lsyncd.conf.lua"
  | .transferShim => "rsync-shim"

/-- No two session files share a name. -/
theorem SessionFile.name_injective {a b : SessionFile} (h : a.name = b.name) : a = b := by
  revert h
  cases a <;> cases b <;> decide

/-- Everything that a session needs to know. -/
structure SessionConfig where
  /-- The absolute path of the working tree. -/
  root : Text
  stateDirectory : Text
  host : Text
  /-- A path on the host, relative to the home directory there if not absolute. -/
  remotePath : Text
  sources : List RuleSource
  /-- Seconds that changes are collected for. -/
  delay : Double
  compress : Bool
  binaries : Binaries
  deriving DecidableEq, Repr

namespace SessionConfig

/-- Host and path, as transfers name their target. -/
def target (config : SessionConfig) : Text := config.host ++ ":" ++ config.remotePath

/-- The path of a file in the state directory. -/
def pathOf (config : SessionConfig) (file : SessionFile) : Text :=
  Path.join config.stateDirectory file.name

def lockPath (config : SessionConfig) : Text := config.pathOf .lock
def pidPath (config : SessionConfig) : Text := config.pathOf .pid
def logPath (config : SessionConfig) : Text := config.pathOf .log
def engineConfigPath (config : SessionConfig) : Text := config.pathOf .engineConfig
def shimPath (config : SessionConfig) : Text := config.pathOf .transferShim

end SessionConfig

end TreeSync
