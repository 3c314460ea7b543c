import TreeSync.Session.Error
import TreeSync.Machine.TransferLock

/-!
# TreeSync.Session.Transfer

One transfer, as the engine asks for it: the transfer program is run under a
shared hold of the transfer lock, which is given back whatever comes of it.
-/

namespace TreeSync.Transfer

/-- Run the transfer program under the lock; the answer is its code.  A missing
lock file is made. -/
def run (lockPath rsync : Text) (arguments : List Text) : Action SessionError Nat := do
  let cwd := (← get).environment.cwd
  let body : StateM Machine (Except LaunchFault Ending) :=
    (launch cwd rsync arguments fun text machine => machine.printError text).run
  match ← (TransferLock.withShared lockPath body).mapError SessionError.file with
  | .error fault => throw (.launch rsync fault)
  | .ok ending =>
      if ending.code ≠ 0 then Action.report .warn
      pure ending.code

end TreeSync.Transfer
