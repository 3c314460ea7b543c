import TreeSync.Session

/-!
# TreeSync.Session.Remote

Running a command in the remote copy of the working tree.

The command is run only with an open session, and only after the barrier of the
transfer lock: every transfer that was in flight when it was asked for is done.
-/

namespace TreeSync.Remote

/-- The command line for the remote shell.  The remote path is quoted in the way that is
handed in; the words of the command are joined by blanks and not quoted, as `ssh` does with
its arguments. -/
def line (config : SessionConfig) (words : List Text) (quote : Text → Text := Shell.quote) :
    Text :=
  "cd " ++ quote config.remotePath ++ " && " ++ Text.joinWith [' '] words

/-- The arguments of `ssh`. -/
def sshArguments (config : SessionConfig) (words : List Text) (terminal : Bool)
    (quote : Text → Text := Shell.quote) : List Text :=
  (if terminal then ["-t".toList] else []) ++ [config.host, line config words quote]

/-- Run a command; the answer is its code.  `onWait` is done once if transfers are
in flight. -/
def run (config : SessionConfig) (words : List Text) (terminal : Bool)
    (onWait : StateM Machine Unit) : Action SessionError Nat := do
  if words = [] then throw (.configuration .noCommand)
  let _ ← Session.requireOpen config
  let pass ← (TransferLock.barrier config.lockPath onWait).mapError SessionError.file
  if pass = .waited then Action.report .info
  let environment := (← get).environment
  let arguments := sshArguments config words terminal environment.libraries.quote
  let ending ← (launch environment.cwd config.binaries.ssh arguments
    fun text machine => machine.printError text).mapError
      (SessionError.launch config.binaries.ssh)
  pure ending.code

end TreeSync.Remote
