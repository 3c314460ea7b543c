import TreeSync.Ignore.Compile
import TreeSync.Decimal.Shortest
import TreeSync.Host
import TreeSync.Machine.Launch

/-!
# TreeSync.Session.Error

What can go wrong with a session, by cause, and the texts of it.
-/

namespace TreeSync

/-- What is wrong with the settings, or with what was asked for. -/
inductive ConfigurationFault
  | noHost
  | emptyRemotePath
  | delayNotANumber (value : Text)
  | unusableDelay (delay : Double)
  | noCommand
  deriving DecidableEq, Repr

/-- The text of a fault. -/
def ConfigurationFault.message : ConfigurationFault → Text
  | .noHost =>
      "no remote host configured (set tether.host in git config or host in .tether.toml)"
  | .emptyRemotePath => "remote_path must not be empty"
  | .delayNotANumber value => "tether.delay must be a number, got '" ++ value ++ "'"
  | .unusableDelay delay => "delay must be a non-negative number of seconds, got " ++ delay.text
  | .noCommand => "no remote command given"

/-- What the engine did wrong. -/
inductive EngineFault
  /-- It ended with a failure. -/
  | exited (code : Nat) (log : Text)
  /-- It never told of a running process. -/
  | silent (log : Text)
  /-- It went on running when it was asked to exit. -/
  | keptRunning (pid : Nat)
  deriving DecidableEq, Repr

/-- The text of a fault. -/
def EngineFault.message : EngineFault → Text
  | .exited code log => "lsyncd exited with status " ++ Text.ofNat code ++ "; see " ++ log
  | .silent log => "lsyncd did not report a running process; see " ++ log
  | .keptRunning pid => "lsyncd (pid " ++ Text.ofNat pid ++ ") did not exit after SIGTERM"

/-- What can go wrong with a session. -/
inductive SessionError
  | configuration (fault : ConfigurationFault)
  | invalidHost (host : Text) (defect : Host.Defect)
  | noSession (root : Text)
  | alreadyOpen (root : Text) (pid : Nat)
  | engine (fault : EngineFault)
  | launch (program : Text) (fault : LaunchFault)
  /-- A settings file cannot be understood. -/
  | settings
  | file (error : FileError)
  | git (error : GitError)
  | source (error : SourceError)
  deriving DecidableEq, Repr

/-- The text of a session error. -/
def SessionError.message : SessionError → Text
  | .configuration fault => "Configuration error: " ++ fault.message
  | .invalidHost host defect => "Invalid remote host '" ++ host ++ "': " ++ defect.message
  | .noSession root => "No open session for " ++ root ++ ". Run 'tether open' first."
  | .alreadyOpen root pid =>
      "A session is already open for " ++ root ++ " (lsyncd pid " ++ Text.ofNat pid ++ ")"
  | .engine fault => "lsyncd failed: " ++ fault.message
  | .launch program fault => "Failed to run '" ++ program ++ "': " ++ fault.message
  | .settings => "the settings cannot be understood"
  | .file error => error.message
  | .git error => error.message
  | .source error => error.message

end TreeSync
