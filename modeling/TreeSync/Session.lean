import TreeSync.Session.Error
import TreeSync.Engine.Config
import TreeSync.Machine.PidFile
import TreeSync.Machine.Polling
import TreeSync.Machine.TransferLock

/-!
# TreeSync.Session

Opening, probing and closing the session of a working tree.

The file with the process number of the engine is all that tells of a session: it
is open if the process is alive, and stale if it is not.  A session is opened only
if none is open; everything that the engine needs is written first, and it counts
as open when the engine has told of a live process.
-/

namespace TreeSync

/-- What the file with the process number tells. -/
inductive SessionState
  | running (pid : Nat)
  /-- The process is gone. -/
  | stale (pid : Nat)
  | closed
  deriving DecidableEq, Repr

namespace Session

/-! ## times, in milliseconds -/

/-- How long the engine may take to tell of a process. -/
def startTimeout : Nat := 10000

/-- How long the engine may take to exit. -/
def stopTimeout : Nat := 10000

/-- How long to wait before asking again. -/
def pollInterval : Nat := 50

/-- The clock of the machine. -/
def clock : Clock (StateM Machine) where
  now := do return (← get).clock
  sleep ms := modify fun machine => { machine with clock := machine.clock + max 1 ms }

/-! ## probing -/

/-- Look whether there is a session. -/
def status (config : SessionConfig) : Action SessionError SessionState := do
  match ← (PidFile.read config.pidPath).mapError SessionError.file with
  | none => pure .closed
  | some pid => pure (if (← get).answers pid then .running pid else .stale pid)

/-- Remove the file of a session whose process is gone. -/
def clearStale (config : SessionConfig) : Action SessionError Unit := do
  Action.report .warn
  let _ ← (Files.removeIfExists config.pidPath).mapError SessionError.file

/-- Look whether there is a session, and clear it away if it is stale.  The answer
is what it was before. -/
def refresh (config : SessionConfig) : Action SessionError SessionState := do
  let state ← status config
  match state with
  | .stale _ => clearStale config
  | _ => pure ()
  pure state

/-- The process of the open session. -/
def requireOpen (config : SessionConfig) : Action SessionError Nat := do
  match ← status config with
  | .running pid => pure pid
  | _ => throw (.noSession config.root)

/-! ## opening -/

/-- The filter set of a session. -/
def filters (config : SessionConfig) (index : IgnoreIndex) : Action SessionError FilterSet :=
  (compile index config.sources).mapError SessionError.source

/-- Write what the engine is started with. -/
def writeFiles (config : SessionConfig) (filters : FilterSet) (executable : Text) :
    Action SessionError Unit :=
  Action.mapError .file do
    Files.writeAtomic config.engineConfigPath (Engine.configText config filters).bytes
    let quote := (← get).environment.libraries.quote
    Files.writeExecutable config.shimPath (Engine.shimText config executable quote)

/-- Refuse if there is an open session, and clear a stale one away. -/
def makeWay (config : SessionConfig) : Action SessionError Unit := do
  match ← status config with
  | .running pid => throw (.alreadyOpen config.root pid)
  | .stale _ => clearStale config
  | .closed => pure ()

/-- Write all files that a session starts with. -/
def prepare (config : SessionConfig) (index : IgnoreIndex) (executable : Text) :
    Action SessionError Unit := do
  let set ← filters config index
  writeFiles config set executable
  (TransferLock.ensure config.lockPath).mapError SessionError.file

/-- Let the log end with a text. -/
def appendLog (config : SessionConfig) (text : Text) (machine : Machine) : Machine :=
  match machine.disk.append machine.environment.cwd config.logPath text.bytes with
  | .ok disk => { machine with disk }
  | .error _ => machine

/-- Open the log, and make it if it is not there. -/
def openLog (config : SessionConfig) : Action SessionError Unit :=
  Action.mapError SessionError.file (Files.naming config.logPath
    (Action.onDisk fun disk cwd => disk.append cwd config.logPath ByteArray.empty))

/-- Run the engine in the working tree, its output going to the log.  It puts itself
into the background, so what was run ends once it is up. -/
def runEngine (config : SessionConfig) : Action SessionError Unit := do
  let ending ← (launchIn config.root config.binaries.lsyncd [config.engineConfigPath]
    (appendLog config)).mapError (SessionError.launch config.binaries.lsyncd)
  if ending ≠ .exit 0 then throw (.engine (.exited ending.code config.logPath))

/-- Start the engine. -/
def startEngine (config : SessionConfig) : Action SessionError Unit := do
  openLog config
  runEngine config

/-- The live process that the engine tells of, if it does already.  A file that
cannot be read tells of none. -/
def reportedProcess (config : SessionConfig) : StateM Machine (Option Nat) := do
  match ← (PidFile.read config.pidPath).run with
  | .ok (some pid) => return if (← get).answers pid then some pid else none
  | _ => pure none

/-- Wait until the engine tells of a live process. -/
def awaitEngine (timer : Clock (StateM Machine)) (config : SessionConfig) :
    Action SessionError Nat := do
  match ← (timer.waitFor startTimeout pollInterval (reportedProcess config) :
      StateM Machine (Option Nat)) with
  | some pid => pure pid
  | none => throw (.engine (.silent config.logPath))

/-- Open a session with an engine that is started in some way, and that goes on with
its work while the timer sleeps. -/
def startBy (engine : Action SessionError Unit) (timer : Clock (StateM Machine))
    (config : SessionConfig) (index : IgnoreIndex) (executable : Text) :
    Action SessionError Nat := do
  makeWay config
  prepare config index executable
  engine
  let pid ← awaitEngine timer config
  Action.report .info
  pure pid

/-- Open a session; the answer is the process of the engine. -/
def start (config : SessionConfig) (index : IgnoreIndex) (executable : Text) :
    Action SessionError Nat :=
  startBy (startEngine config) clock config index executable

/-! ## closing -/

/-- Something, once a process is gone. -/
def gone (pid : Nat) : StateM Machine (Option Unit) := do
  return if (← get).answers pid then none else some ()

/-- Ask the engine to exit and wait until it has. -/
def stopEngine (timer : Clock (StateM Machine)) (pid : Nat) : Action SessionError Unit := do
  modify fun machine => machine.terminate pid
  match ← (timer.waitFor stopTimeout pollInterval (gone pid) : StateM Machine (Option Unit)) with
  | some () => pure ()
  | none => throw (.engine (.keptRunning pid))

/-- Close the session, while a timer tells the time; the answer is the process that was
stopped, if there was one. -/
def closeBy (timer : Clock (StateM Machine)) (config : SessionConfig) :
    Action SessionError (Option Nat) := do
  match ← status config with
  | .closed => pure none
  | .stale _ =>
      clearStale config
      pure none
  | .running pid =>
      stopEngine timer pid
      let _ ← (Files.removeIfExists config.pidPath).mapError SessionError.file
      Action.report .info
      pure (some pid)

/-- Close the session. -/
def close (config : SessionConfig) : Action SessionError (Option Nat) := closeBy clock config

end Session

end TreeSync
