import TreeSync.Machine.Files

/-!
# TreeSync.Machine.TransferLock

The lock file between transfers and remote commands.

Transfers hold it shared while they run.  A remote command passes an exclusive
barrier: it takes the lock exclusively, waiting for every transfer in flight,
and gives it back at once.  So no command starts before the transfers that were
running when it was asked for are done, and none holds up a later transfer.
-/

namespace TreeSync

/-- How a barrier was passed. -/
inductive BarrierPass
  /-- No transfer was in flight. -/
  | immediate
  /-- The barrier waited for transfers in flight. -/
  | waited
  deriving DecidableEq, Repr

namespace TransferLock

/-- Open the lock file, and make it if it is not there.  Its bytes stay as they
are. -/
def openOrCreate (path : Text) : Action FileError File := do
  let machine ← get
  match machine.disk.openOrCreate machine.environment.cwd path with
  | .ok (disk, _, file) =>
      set { machine with disk }
      pure file
  | .error fault => throw (.io path fault)

/-- Make the lock file if it is not there. -/
def ensure (path : Text) : Action FileError Unit := do
  let _ ← openOrCreate path

/-- Wait for a lock on a file and take it.  The answer is its handle. -/
def await (file : Nat) (mode : LockMode) : StateM Machine Nat := do
  let machine ← get
  let free := if machine.locks.grants file mode then machine.locks else machine.locks.drain file
  set { machine with locks := free.acquire file mode }
  pure free.nextHandle

/-- Give a lock back. -/
def release (handle : Nat) : StateM Machine Unit :=
  modify fun machine => { machine with locks := machine.locks.release handle }

/-- Take a shared hold, and make the lock file if it is not there.  The answer is
the handle to give back. -/
def shared (path : Text) : Action FileError Nat := do
  let file ← openOrCreate path
  await file.id .shared

/-- Do something under a shared hold that is given back whatever comes of it. -/
def withShared (path : Text) (body : StateM Machine α) : Action FileError α := do
  let handle ← shared path
  let value ← body
  release handle
  pure value

/-- Pass the barrier of an open lock file.  `onWait` is done once if a transfer
is in flight. -/
def passFile (file : Nat) (onWait : StateM Machine Unit) : StateM Machine BarrierPass := do
  if (← get).locks.grants file .exclusive then
    release (← await file .exclusive)
    pure .immediate
  else
    onWait
    release (← await file .exclusive)
    pure .waited

/-- Pass the barrier.  The lock file has to be there; a directory in its place
has no holders. -/
def barrier (path : Text) (onWait : StateM Machine Unit) : Action FileError BarrierPass := do
  match (← get).disk.lookup (← get).environment.cwd path with
  | .error .notFound => throw (.lockMissing path)
  | .error fault => throw (.io path fault)
  | .ok (_, .file file) => passFile file.id onWait
  | .ok _ => pure .immediate

end TransferLock

end TreeSync
