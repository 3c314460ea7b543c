import TreeSync.Session.Error
import TreeSync.Settings.Reading
import TreeSync.Decimal.Reading

/-!
# TreeSync.Session.Resolve

From the layers of settings to what a session needs to know.

The layers are the settings file of the user, the one at the root of the tree,
and the git configuration; a later layer wins, field by field.  A missing file is
an empty layer.  Defaults come in only when all layers are together.
-/

namespace TreeSync.Resolve

/-- Where the layers are looked for, when not in the usual places. -/
structure Places where
  /-- The directory of the settings file of the user. -/
  settingsDirectory : Option Text := none
  home : Option Text := none
  deriving DecidableEq, Repr

/-! ## layers -/

/-- The layer in a file. -/
def fileLayer (path : Text) : Action SessionError Settings := do
  match ← (Files.readOptionalText path).mapError SessionError.file with
  | none => pure Settings.empty
  | some content =>
      match Settings.ofDocument? (← get).environment.libraries.toml content with
      | some layer => pure layer
      | none => throw .settings

/-- The path of the settings file of the user. -/
def userSettings (places : Places) : Action SessionError Text := do
  let directory := places.settingsDirectory.getD
    (Path.join (← get).environment.configHome SessionFile.stateDirectory.name)
  return Path.join directory "config.toml"

/-- A delay as git configuration holds it. -/
def delayOf (value : Text) : Except ConfigurationFault Double :=
  match Double.ofText? (Text.trim value) with
  | some delay => .ok delay
  | none => .error (.delayNotANumber value)

/-- The layer in the git configuration. -/
def gitLayer (workspace : Workspace) : Action SessionError Settings := do
  let text (key : Text) : Action SessionError (Option Text) :=
    (workspace.setting key).mapError SessionError.git
  let host ← text "tether.host"
  let remotePath ← text "tether.remotePath"
  let ignore ← text "tether.ignore"
  let compress ← (workspace.flag "tether.compress").mapError SessionError.git
  let delay ← match ← text "tether.delay" with
    | none => pure none
    | some value =>
        match delayOf value with
        | .ok delay => pure (some delay)
        | .error fault => throw (.configuration fault)
  let lsyncd ← text "tether.lsyncd"
  let rsync ← text "tether.rsync"
  let ssh ← text "tether.ssh"
  -- The whole list is one entry; it is split when its sources are read.
  return { host, remotePath, ignore := ignore.map ([·]), delay, compress, lsyncd, rsync, ssh }

/-! ## defaults and checks -/

/-- The delay when none is configured. -/
def defaultDelay : Double := .ofDecimal false 1 (-1)

/-- The remote path when none is configured: the path of the tree below the home
directory, or the whole path of a tree elsewhere. -/
def defaultRemotePath (root home : Text) : Text :=
  match Path.below? home root with
  | some [] => ['.']
  | some path => path.map fun c => if c = '\\' then '/' else c
  | none => root

/-- The sources that entries name, one after the other. -/
def sourcesOf (entries : List Text) : List RuleSource := entries.flatMap RuleSource.listOfText

/-- What a session needs to know, from all layers together. -/
def finish (workspace : Workspace) (home : Text) (settings : Settings) :
    Except SessionError SessionConfig := do
  let host ← match settings.host with
    | none => throw (.configuration .noHost)
    | some host => pure host
  if let some defect := Host.defect? host then throw (.invalidHost host defect)
  let remotePath ← match settings.remotePath with
    | none => pure (defaultRemotePath workspace.root home)
    | some path =>
        if Text.trim path = [] then throw (.configuration .emptyRemotePath) else pure path
  let sources := match settings.ignore with
    | none => RuleSource.defaults
    | some entries => sourcesOf entries
  let delay := settings.delay.getD defaultDelay
  if !delay.isFinite || delay.isBelowZero then throw (.configuration (.unusableDelay delay))
  return {
    root := workspace.root
    stateDirectory := workspace.stateDirectory
    host, remotePath, sources, delay
    compress := settings.compress.getD true
    binaries := settings.binaries }

/-- The home directory, by the same kind of path as the root of the tree. -/
def homeDirectory (places : Places) : Action SessionError Text := do
  let machine ← get
  let home := places.home.getD machine.environment.home
  match machine.disk.canonical machine.environment.cwd home with
  | .ok path => pure path
  | .error _ => pure home

end TreeSync.Resolve

namespace TreeSync

/-- Put all layers together for a working tree. -/
def resolve (workspace : Workspace) (places : Resolve.Places) : Action SessionError SessionConfig := do
  let user ← Resolve.fileLayer (← Resolve.userSettings places)
  let tree ← Resolve.fileLayer (Path.join workspace.root SessionFile.treeSettings.name)
  let git ← Resolve.gitLayer workspace
  match Resolve.finish workspace (← Resolve.homeDirectory places)
      (((Settings.empty.merge user).merge tree).merge git) with
  | .ok config => pure config
  | .error error => throw error

end TreeSync
