import TreeSync.Session.Remote
import TreeSync.Session.Transfer
import TreeSync.Proofs.Machine.Action

/-!
# TreeSync.Proofs.Machine.Interleaving

Transfers and remote commands at one lock file, one step at a time.

1. A transfer takes the lock shared, runs its program, and gives the lock back.
2. A command calls the barrier and tries the lock exclusively.  When it is refused
   it tells the user and waits.  Once it has the lock it gives it back, and only
   then does it start its program.
3. A party that waits for the lock has no step until the lock is granted.
4. The parties take their steps in any order, and between the steps everything on
   the machine but the locks may change.

The steps are those of `Transfer.run` and `Remote.run`: a transfer that is not interrupted
does the former (`advance_transfer_run`), a command in an open session the latter, with its
program behind the barrier (`advance_command_run_of_grants`,
`advance_command_run_of_not_grants`).
-/

namespace TreeSync

/-! ## what a party does apart from locking -/

/-- Something done on a machine that leaves the locks alone. -/
structure Deed (α : Type) where
  act : StateM Machine α
  keeps : ∀ machine, (act.run machine).run.2.locks = machine.locks

/-- A running program takes no locks and gives none back. -/
theorem Machine.locks_perform (machine : Machine) (program : Program) :
    (machine.perform program).locks = machine.locks := by
  have hstarts : ∀ (pids : List Nat) (m : Machine),
      (pids.foldl (fun m pid => m.startProcess pid false) m).locks = m.locks := by
    intro pids
    induction pids with
    | nil => exact fun _ => rfl
    | cons pid pids ih => exact fun m => ih (m.startProcess pid false)
  rw [perform, hstarts]

theorem locks_launch (cwd : Option Location) (name : Text) (arguments : List Text)
    (machine : Machine) :
    ((launch cwd name arguments fun text machine => machine.printError text).on machine).2.locks =
      machine.locks := by
  rw [launch]
  split
  · rfl
  · simp only [Action.on_bind, Action.on_get]
    cases machine.findProgram cwd name with
    | error fault => rfl
    | ok found =>
        obtain ⟨location, program⟩ := found
        simp only [Action.on_bind, Action.on_modify, Action.on_pure]
        exact Machine.locks_perform _ program

namespace Deed

/-- Do it. -/
def on (deed : Deed α) (machine : Machine) : α × Machine := (deed.act.run machine).run

/-- Run a program, its error output shown. -/
def launch (cwd : Option Location) (name : Text) (arguments : List Text) :
    Deed (Except LaunchFault Ending) where
  act := (TreeSync.launch cwd name arguments fun text machine => machine.printError text).run
  keeps := locks_launch cwd name arguments

/-- Print to the standard error. -/
def notice (text : Text) : Deed Unit where
  act := modify fun machine => machine.printError text
  keeps := fun _ => rfl

end Deed

/-! ## the parties -/

/-- How far a transfer is. -/
inductive TransferStage
  | starting
  /-- It holds the lock, and its program runs. -/
  | running (handle : Nat)
  /-- Its program is done, or could not be started. -/
  | ended (handle : Nat) (outcome : Except LaunchFault Ending)
  /-- The lock is given back. -/
  | finished (handle : Nat) (outcome : Except LaunchFault Ending)

/-- How far a remote command is. -/
inductive CommandStage
  | starting
  /-- The barrier is called, the lock not tried yet. -/
  | asking
  | refused
  /-- The user is told, and the command waits for the lock. -/
  | waiting
  /-- It holds the lock. -/
  | passing (handle : Nat) (pass : BarrierPass)
  /-- The lock is given back, and the barrier has returned. -/
  | passed (handle : Nat) (pass : BarrierPass)
  /-- Its program was started. -/
  | launched (handle : Nat) (pass : BarrierPass) (outcome : Except LaunchFault Ending)

/-- A party at the lock.  A command counts how often it told its user to wait. -/
inductive Party
  | transfer (program : Deed (Except LaunchFault Ending)) (stage : TransferStage)
  | command (notice : Deed Unit) (program : Deed (Except LaunchFault Ending)) (told : Nat)
      (stage : CommandStage)

namespace Party

/-- The lock that a party holds on the file. -/
def hold? (file : Nat) : Party → Option Hold
  | .transfer _ (.running handle) => some ⟨file, .shared, handle⟩
  | .transfer _ (.ended handle _) => some ⟨file, .shared, handle⟩
  | .command _ _ _ (.passing handle _) => some ⟨file, .exclusive, handle⟩
  | _ => none

/-- The handle that a party was granted the lock with, also after it gave the lock
back. -/
def handle? : Party → Option Nat
  | .transfer _ .starting => none
  | .transfer _ (.running handle) => some handle
  | .transfer _ (.ended handle _) => some handle
  | .transfer _ (.finished handle _) => some handle
  | .command _ _ _ (.passing handle _) => some handle
  | .command _ _ _ (.passed handle _) => some handle
  | .command _ _ _ (.launched handle _ _) => some handle
  | .command _ _ _ _ => none

/-- True before the first step. -/
def isStarting : Party → Bool
  | .transfer _ .starting => true
  | .command _ _ 0 .starting => true
  | _ => false

/-- The next step of a party, `none` when it has none or has to wait for the lock. -/
def step (file : Nat) (machine : Machine) : Party → Option (Party × Machine)
  | .transfer program .starting =>
      if machine.locks.grants file .shared then
        let (handle, machine) := ((TransferLock.await file .shared).run machine).run
        some (.transfer program (.running handle), machine)
      else none
  | .transfer program (.running handle) =>
      let (outcome, machine) := program.on machine
      some (.transfer program (.ended handle outcome), machine)
  | .transfer program (.ended handle outcome) =>
      let (_, machine) := ((TransferLock.release handle).run machine).run
      some (.transfer program (.finished handle outcome), machine)
  | .transfer _ (.finished ..) => none
  | .command notice program told .starting => some (.command notice program told .asking, machine)
  | .command notice program told .asking =>
      if machine.locks.grants file .exclusive then
        let (handle, machine) := ((TransferLock.await file .exclusive).run machine).run
        some (.command notice program told (.passing handle .immediate), machine)
      else some (.command notice program told .refused, machine)
  | .command notice program told .refused =>
      let (_, machine) := notice.on machine
      some (.command notice program (told + 1) .waiting, machine)
  | .command notice program told .waiting =>
      if machine.locks.grants file .exclusive then
        let (handle, machine) := ((TransferLock.await file .exclusive).run machine).run
        some (.command notice program told (.passing handle .waited), machine)
      else none
  | .command notice program told (.passing handle pass) =>
      let (_, machine) := ((TransferLock.release handle).run machine).run
      some (.command notice program told (.passed handle pass), machine)
  | .command notice program told (.passed handle pass) =>
      let (outcome, machine) := program.on machine
      some (.command notice program told (.launched handle pass outcome), machine)
  | .command _ _ _ (.launched ..) => none

/-! ## steps and locks -/

theorem await_of_grants {file : Nat} {mode : LockMode} {machine : Machine}
    (h : machine.locks.grants file mode = true) :
    ((TransferLock.await file mode).run machine).run =
      (machine.locks.nextHandle, { machine with locks := machine.locks.acquire file mode }) := by
  show (let free := if machine.locks.grants file mode then machine.locks
      else machine.locks.drain file;
    (free.nextHandle, { machine with locks := free.acquire file mode })) = _
  rw [if_pos h]

theorem await_of_not_grants {file : Nat} {mode : LockMode} {machine : Machine}
    (h : machine.locks.grants file mode = false) :
    ((TransferLock.await file mode).run machine).run =
      ((TransferLock.await file mode).run
        { machine with locks := machine.locks.drain file }).run := by
  let drained : Machine := { machine with locks := machine.locks.drain file }
  have hdrained : drained.locks.grants file mode = true :=
    LockTable.grants_drain machine.locks file mode
  show _ = ((TransferLock.await file mode).run drained).run
  rw [await_of_grants hdrained]
  show (let free := if machine.locks.grants file mode then machine.locks
      else machine.locks.drain file;
    (free.nextHandle, { machine with locks := free.acquire file mode })) = _
  rw [h]
  rfl

/-- What a step does about the locks: nothing, or the party takes the lock, which
is granted to it, or it gives its own lock back. -/
inductive LockEffect (file : Nat) (p p' : Party) (locks locks' : LockTable) : Prop
  | nothing (hlocks : locks' = locks) (hhold : p'.hold? file = p.hold? file)
      (hhandle : p'.handle? = p.handle?)
  | take (mode : LockMode) (hgrants : locks.grants file mode = true)
      (hlocks : locks' = locks.acquire file mode) (hnone : p.handle? = none)
      (hhold : p'.hold? file = some ⟨file, mode, locks.nextHandle⟩)
  | give (hold : Hold) (hhold : p.hold? file = some hold)
      (hlocks : locks' = locks.release hold.handle) (hnone : p'.hold? file = none)
      (hhandle : p'.handle? = p.handle?)

theorem lockEffect_of_step {file : Nat} {p p' : Party} {machine machine' : Machine}
    (h : p.step file machine = some (p', machine')) :
    LockEffect file p p' machine.locks machine'.locks := by
  cases p with
  | transfer program stage =>
      cases stage with
      | starting =>
          by_cases hgrants : machine.locks.grants file .shared = true
          · rw [step, if_pos hgrants, await_of_grants hgrants] at h
            obtain ⟨rfl, rfl⟩ := Prod.mk.inj (Option.some.inj h)
            exact .take .shared hgrants rfl rfl rfl
          · rw [step, if_neg hgrants] at h
            contradiction
      | running handle =>
          obtain ⟨rfl, rfl⟩ := Prod.mk.inj (Option.some.inj h)
          exact .nothing (program.keeps machine) rfl rfl
      | ended handle outcome =>
          obtain ⟨rfl, rfl⟩ := Prod.mk.inj (Option.some.inj h)
          exact .give ⟨file, .shared, handle⟩ rfl rfl rfl rfl
      | finished handle outcome => contradiction
  | command notice program told stage =>
      cases stage with
      | starting =>
          obtain ⟨rfl, rfl⟩ := Prod.mk.inj (Option.some.inj h)
          exact .nothing rfl rfl rfl
      | asking =>
          by_cases hgrants : machine.locks.grants file .exclusive = true
          · rw [step, if_pos hgrants, await_of_grants hgrants] at h
            obtain ⟨rfl, rfl⟩ := Prod.mk.inj (Option.some.inj h)
            exact .take .exclusive hgrants rfl rfl rfl
          · rw [step, if_neg hgrants] at h
            obtain ⟨rfl, rfl⟩ := Prod.mk.inj (Option.some.inj h)
            exact .nothing rfl rfl rfl
      | refused =>
          obtain ⟨rfl, rfl⟩ := Prod.mk.inj (Option.some.inj h)
          exact .nothing (notice.keeps machine) rfl rfl
      | waiting =>
          by_cases hgrants : machine.locks.grants file .exclusive = true
          · rw [step, if_pos hgrants, await_of_grants hgrants] at h
            obtain ⟨rfl, rfl⟩ := Prod.mk.inj (Option.some.inj h)
            exact .take .exclusive hgrants rfl rfl rfl
          · rw [step, if_neg hgrants] at h
            contradiction
      | passing handle pass =>
          obtain ⟨rfl, rfl⟩ := Prod.mk.inj (Option.some.inj h)
          exact .give ⟨file, .exclusive, handle⟩ rfl rfl rfl rfl
      | passed handle pass =>
          obtain ⟨rfl, rfl⟩ := Prod.mk.inj (Option.some.inj h)
          exact .nothing (program.keeps machine) rfl rfl
      | launched handle pass outcome => contradiction

/-! ## a party that is not interrupted -/

/-- Some steps of one party in a row. -/
def advance (file : Nat) : Nat → Party → Machine → Option (Party × Machine)
  | 0, p, machine => some (p, machine)
  | n + 1, p, machine => (p.step file machine).bind fun (p, machine) => p.advance file n machine

/-- One step more. -/
theorem advance_add_one {file n : Nat} {p p' : Party} {machine machine' : Machine}
    (h : p.advance file n machine = some (p', machine')) :
    p.advance file (n + 1) machine = p'.step file machine' := by
  induction n generalizing p machine with
  | zero =>
      cases h
      exact Option.bind_fun_some _
  | succ n ih =>
      rw [advance] at h
      obtain ⟨⟨next, after⟩, hstep, hrest⟩ := Option.bind_eq_some_iff.mp h
      rw [advance, hstep]
      exact ih hrest

/-- **A transfer's steps are those of a shared hold**: take, run, give back. -/
theorem advance_transfer {path : Text} {machine : Machine} {location : Location} {file : File}
    (program : Deed (Except LaunchFault Ending))
    (hopen : machine.disk.openOrCreate machine.environment.cwd path =
      .ok (machine.disk, location, file))
    (hgrants : machine.locks.grants file.id .shared = true) :
    ∃ handle outcome after,
      (Party.transfer program .starting).advance file.id 3 machine =
        some (.transfer program (.finished handle outcome), after) ∧
      (TransferLock.withShared path program.act).on machine = (.ok outcome, after) := by
  have hshared : (TransferLock.shared path).on machine =
      (.ok machine.locks.nextHandle,
        { machine with locks := machine.locks.acquire file.id .shared }) := by
    simp [TransferLock.shared, TransferLock.openOrCreate, hopen, await_of_grants hgrants]
  -- The machine while the program runs, and once it is done.
  let held : Machine := { machine with locks := machine.locks.acquire file.id .shared }
  let ended : Machine := (program.on held).2
  refine ⟨machine.locks.nextHandle, (program.on held).1,
    { ended with locks := ended.locks.release machine.locks.nextHandle }, ?_, ?_⟩
  · rw [advance, step, if_pos hgrants, await_of_grants hgrants]
    rfl
  · rw [TransferLock.withShared, Action.on_bind, hshared]
    rfl

/-- The barrier of a file that is there. -/
theorem on_barrier {path : Text} {machine : Machine} {location : Location} {file : File}
    (onWait : StateM Machine Unit)
    (hopen : machine.disk.lookup machine.environment.cwd path = .ok (location, .file file)) :
    (TransferLock.barrier path onWait).on machine =
      (.ok ((TransferLock.passFile file.id onWait).run machine).run.1,
        ((TransferLock.passFile file.id onWait).run machine).run.2) := by
  simp [TransferLock.barrier, hopen]

/-- **A command's steps are those of the barrier**, when nobody holds the lock: take
and give back. -/
theorem advance_command_of_grants {path : Text} {machine : Machine} {location : Location}
    {file : File} (notice : Deed Unit) (program : Deed (Except LaunchFault Ending)) (told : Nat)
    (hopen : machine.disk.lookup machine.environment.cwd path = .ok (location, .file file))
    (hgrants : machine.locks.grants file.id .exclusive = true) :
    ∃ handle after,
      (Party.command notice program told .starting).advance file.id 3 machine =
        some (.command notice program told (.passed handle .immediate), after) ∧
      (TransferLock.barrier path notice.act).on machine = (.ok .immediate, after) ∧
      after.environment = machine.environment := by
  refine ⟨machine.locks.nextHandle, { machine with
    locks := (machine.locks.acquire file.id .exclusive).release machine.locks.nextHandle },
    ?_, ?_, rfl⟩
  · show advance file.id 2 (.command notice program told .asking) machine = _
    rw [advance, step, if_pos hgrants, await_of_grants hgrants]
    rfl
  · rw [on_barrier notice.act hopen]
    simp [TransferLock.passFile, hgrants]
    rw [await_of_grants hgrants]
    rfl

/-- When somebody does, a command tells its user and waits; the others give the lock
back meanwhile, and then it takes it and gives it back. -/
theorem advance_command_of_not_grants {path : Text} {machine : Machine} {location : Location}
    {file : File} (notice : Deed Unit) (program : Deed (Except LaunchFault Ending)) (told : Nat)
    (hopen : machine.disk.lookup machine.environment.cwd path = .ok (location, .file file))
    (hgrants : machine.locks.grants file.id .exclusive = false) :
    ∃ handle waiting after,
      (Party.command notice program told .starting).advance file.id 3 machine =
        some (.command notice program (told + 1) .waiting, waiting) ∧
      (Party.command notice program (told + 1) .waiting).advance file.id 2
          { waiting with locks := waiting.locks.drain file.id } =
        some (.command notice program (told + 1) (.passed handle .waited), after) ∧
      (TransferLock.barrier path notice.act).on machine = (.ok .waited, after) ∧
      after.environment = (notice.on machine).2.environment := by
  let waiting : Machine := (notice.on machine).2
  let drained : Machine := { waiting with locks := waiting.locks.drain file.id }
  have hwaiting : waiting.locks.grants file.id .exclusive = false := by
    have hlocks : waiting.locks = machine.locks := notice.keeps machine
    rw [hlocks]
    exact hgrants
  have hdrained : drained.locks.grants file.id .exclusive = true :=
    LockTable.grants_drain waiting.locks file.id .exclusive
  refine ⟨drained.locks.nextHandle, waiting, { drained with
    locks := (drained.locks.acquire file.id .exclusive).release drained.locks.nextHandle },
    ?_, ?_, ?_, rfl⟩
  · show advance file.id 2 (.command notice program told .asking) machine = _
    rw [advance, step, if_neg (Bool.eq_false_iff.mp hgrants)]
    rfl
  · show advance file.id 2 _ drained = _
    rw [advance, step, if_pos hdrained, await_of_grants hdrained]
    rfl
  · rw [on_barrier notice.act hopen]
    simp [TransferLock.passFile, hgrants]
    show ((TransferLock.release ((TransferLock.await file.id .exclusive).run waiting).run.1).run
      ((TransferLock.await file.id .exclusive).run waiting).run.2).run.2 = _
    rw [await_of_not_grants hwaiting, await_of_grants hdrained]
    rfl

/-! ## whole transfers and commands -/

/-- What comes of a program that was asked for by its name. -/
def outcomeOf (name : Text) : Except LaunchFault Ending → Except SessionError Nat
  | .ok ending => .ok ending.code
  | .error fault => .error (.launch name fault)

/-- **A transfer** that is not interrupted takes its three steps; a program that failed is
reported then. -/
theorem advance_transfer_run {path rsync : Text} {arguments : List Text} {machine : Machine}
    {location : Location} {file : File}
    (hopen : machine.disk.openOrCreate machine.environment.cwd path =
      .ok (machine.disk, location, file))
    (hgrants : machine.locks.grants file.id .shared = true) :
    ∃ handle outcome after reports,
      (Party.transfer (.launch machine.environment.cwd rsync arguments) .starting).advance
          file.id 3 machine =
        some (.transfer (.launch machine.environment.cwd rsync arguments)
          (.finished handle outcome), after) ∧
      (Transfer.run path rsync arguments).on machine =
        (outcomeOf rsync outcome, after.reporting reports) := by
  obtain ⟨handle, outcome, after, hsteps, hshared⟩ :=
    advance_transfer (.launch machine.environment.cwd rsync arguments) hopen hgrants
  have hbody : (TransferLock.withShared path (TreeSync.launch machine.environment.cwd rsync arguments
      fun text machine => machine.printError text).run).on machine = (.ok outcome, after) := hshared
  have hrun : ∃ reports, (Transfer.run path rsync arguments).on machine =
      (outcomeOf rsync outcome, after.reporting reports) := by
    simp only [Transfer.run, Action.on_bind, Action.on_get, Action.on_mapError, hbody,
      Action.mapError_ok]
    cases outcome with
    | error fault => exact ⟨[], by rw [Machine.reporting_nil]; rfl⟩
    | ok ending =>
        by_cases hcode : ending.code ≠ 0
        · exact ⟨[.warn], by simp only [if_pos hcode]; rfl⟩
        · exact ⟨[], by rw [Machine.reporting_nil]; simp only [if_neg hcode]; rfl⟩
  obtain ⟨reports, hrun⟩ := hrun
  exact ⟨handle, outcome, after, reports, hsteps, hrun⟩

/-- The remote shell with the words of a command, as something that is done. -/
def remoteShell (config : SessionConfig) (words : List Text) (terminal : Bool)
    (environment : Environment) : Deed (Except LaunchFault Ending) :=
  .launch environment.cwd config.binaries.ssh
    (Remote.sshArguments config words terminal environment.libraries.quote)

/-- What a command does behind the barrier: it runs the remote shell from where it is. -/
def pastBarrier (config : SessionConfig) (words : List Text) (terminal : Bool) :
    Action SessionError Nat := do
  let environment := (← get).environment
  let ending ← (TreeSync.launch environment.cwd config.binaries.ssh
    (Remote.sshArguments config words terminal environment.libraries.quote)
    fun text machine => machine.printError text).mapError
      (SessionError.launch config.binaries.ssh)
  pure ending.code

theorem on_pastBarrier {config : SessionConfig} {words : List Text} {terminal : Bool}
    {environment : Environment} {machine : Machine} (h : machine.environment = environment) :
    (pastBarrier config words terminal).on machine =
      (outcomeOf config.binaries.ssh
          ((remoteShell config words terminal environment).on machine).1,
        ((remoteShell config words terminal environment).on machine).2) := by
  subst h
  have hshell : (remoteShell config words terminal machine.environment).on machine =
      (TreeSync.launch machine.environment.cwd config.binaries.ssh
        (Remote.sshArguments config words terminal machine.environment.libraries.quote)
        fun text machine => machine.printError text).on machine := rfl
  simp only [pastBarrier, Action.on_bind, Action.on_get, Action.on_mapError, ← hshell]
  generalize (remoteShell config words terminal machine.environment).on machine = result
  obtain ⟨outcome, after⟩ := result
  cases outcome <;> rfl

/-- A command is the check, the barrier, a report if it had to wait, and what is behind. -/
theorem run_eq_pastBarrier {config : SessionConfig} {words : List Text} {terminal : Bool}
    {onWait : StateM Machine Unit} (h : words ≠ []) :
    Remote.run config words terminal onWait = (do
      let _ ← Session.requireOpen config
      let pass ← (TransferLock.barrier config.lockPath onWait).mapError SessionError.file
      if pass = .waited then Action.report .info
      pastBarrier config words terminal) := by
  rw [Remote.run, if_neg h]
  rfl

section
variable {config : SessionConfig} {words : List Text} {terminal : Bool} {text : Text}
  {machine : Machine} {location : Location} {file : File} {pid : Nat} (told : Nat)
  (hwords : words ≠ [])
  (hsession : (Session.requireOpen config).on machine = (.ok pid, machine))
  (hlock : machine.disk.lookup machine.environment.cwd config.lockPath =
    .ok (location, .file file))
include hwords hsession

/-- A command whose barrier was passed runs the remote shell. -/
theorem on_run_of_barrier {pass : BarrierPass} {after : Machine}
    (hbarrier : (TransferLock.barrier config.lockPath (Deed.notice text).act).on machine =
      (.ok pass, after))
    (henvironment : after.environment = machine.environment) {ready : Machine}
    (hready : ready = if pass = .waited then after.reporting [.info] else after) :
    (Remote.run config words terminal (Deed.notice text).act).on machine =
      (outcomeOf config.binaries.ssh
          ((remoteShell config words terminal machine.environment).on ready).1,
        ((remoteShell config words terminal machine.environment).on ready).2) := by
  rw [run_eq_pastBarrier hwords, Action.on_bind, hsession]
  dsimp only
  rw [Action.on_bind, Action.on_mapError, hbarrier]
  subst hready
  cases pass with
  | immediate => exact on_pastBarrier henvironment
  | waited =>
      rw [if_pos rfl]
      show (Action.report .info >>= fun _ => pastBarrier config words terminal).on after = _
      have hinformed : (after.reporting [.info]).environment = machine.environment := henvironment
      rw [Action.on_bind, ← on_pastBarrier hinformed]
      rfl

include hlock

/-- **A command** that meets no transfer passes the barrier in three steps, and its program
is run in the fourth. -/
theorem advance_command_run_of_grants
    (hgrants : machine.locks.grants file.id .exclusive = true) :
    ∃ handle outcome after,
      (Party.command (.notice text) (remoteShell config words terminal machine.environment) told
          .starting).advance file.id 4 machine =
        some (.command (.notice text) (remoteShell config words terminal machine.environment) told
          (.launched handle .immediate outcome), after) ∧
      (Remote.run config words terminal (Deed.notice text).act).on machine =
        (outcomeOf config.binaries.ssh outcome, after) := by
  obtain ⟨handle, passed, hsteps, hbarrier, henvironment⟩ := advance_command_of_grants
    (.notice text) (remoteShell config words terminal machine.environment) told hlock hgrants
  refine ⟨handle, _, _, ?_, on_run_of_barrier hwords hsession hbarrier henvironment rfl⟩
  rw [advance_add_one hsteps]
  rfl

/-- A command that meets a transfer waits until the lock is given back; then it passes the
barrier, the wait is reported, and its program is run. -/
theorem advance_command_run_of_not_grants
    (hgrants : machine.locks.grants file.id .exclusive = false) :
    ∃ handle waiting passed outcome after,
      (Party.command (.notice text) (remoteShell config words terminal machine.environment) told
          .starting).advance file.id 3 machine =
        some (.command (.notice text) (remoteShell config words terminal machine.environment)
          (told + 1) .waiting, waiting) ∧
      (Party.command (.notice text) (remoteShell config words terminal machine.environment)
          (told + 1) .waiting).advance file.id 2
            { waiting with locks := waiting.locks.drain file.id } =
        some (.command (.notice text) (remoteShell config words terminal machine.environment)
          (told + 1) (.passed handle .waited), passed) ∧
      (Party.command (.notice text) (remoteShell config words terminal machine.environment)
          (told + 1) (.passed handle .waited)).advance file.id 1 (passed.reporting [.info]) =
        some (.command (.notice text) (remoteShell config words terminal machine.environment)
          (told + 1) (.launched handle .waited outcome), after) ∧
      (Remote.run config words terminal (Deed.notice text).act).on machine =
        (outcomeOf config.binaries.ssh outcome, after) := by
  obtain ⟨handle, waiting, passed, hwait, hpass, hbarrier, henvironment⟩ :=
    advance_command_of_not_grants (.notice text)
      (remoteShell config words terminal machine.environment) told hlock hgrants
  exact ⟨handle, waiting, passed, _, _, hwait, hpass, rfl,
    on_run_of_barrier hwords hsession hbarrier henvironment rfl⟩

end

end Party

/-! ## all parties together -/

/-- A machine and the parties at one of its lock files. -/
structure World (ι : Type) where
  machine : Machine
  party : ι → Party

namespace World

variable {ι : Type} [DecidableEq ι]

/-- The world after a step of one party. -/
def after (w : World ι) (i : ι) (p : Party) (machine : Machine) : World ι where
  machine := machine
  party := fun j => if j = i then p else w.party j

/-- What can happen next. -/
inductive Next (file : Nat) (w : World ι) : World ι → Prop
  /-- One party takes its next step. -/
  | act (i : ι) (p : Party) (machine : Machine)
      (hstep : (w.party i).step file w.machine = some (p, machine)) :
      Next file w (w.after i p machine)
  /-- Something else happens on the machine, or nothing. -/
  | elsewhere (machine : Machine) (hlocks : machine.locks = w.machine.locks) :
      Next file w { w with machine := machine }

/-- True before anything has happened: nobody has taken a step, and nobody holds
the lock. -/
def IsStart (file : Nat) (w : World ι) : Prop :=
  (∀ i, (w.party i).isStarting = true) ∧ w.machine.locks.grants file .exclusive = true

/-- A run, as the worlds one after the other. -/
structure IsRun (file : Nat) (w : Nat → World ι) : Prop where
  start : (w 0).IsStart file
  next : ∀ n, Next file (w n) (w (n + 1))

@[simp] theorem party_after_self (w : World ι) (i : ι) (p : Party) (machine : Machine) :
    (w.after i p machine).party i = p := if_pos rfl

theorem party_after_of_ne (w : World ι) {i j : ι} (h : j ≠ i) (p : Party) (machine : Machine) :
    (w.after i p machine).party j = w.party j := if_neg h

/-- What a step does not change about its party it changes about none. -/
theorem map_party_after {α : Type} (f : Party → α) (w : World ι) {i : ι} {p : Party}
    (h : f p = f (w.party i)) (machine : Machine) (j : ι) :
    f ((w.after i p machine).party j) = f (w.party j) := by
  by_cases hji : j = i
  · subst hji
    rw [party_after_self, h]
  · rw [party_after_of_ne w hji]

/-- The worlds that a schedule leads to.  A party that is scheduled and has no step
stays where it is. -/
def play (file : Nat) (schedule : Nat → Option ι) (w : World ι) : Nat → World ι
  | 0 => w
  | n + 1 =>
      let now := play file schedule w n
      match (schedule n).bind fun i => ((now.party i).step file now.machine).map (i, ·) with
      | some (i, p, machine) => now.after i p machine
      | none => now

/-- Every schedule makes a run. -/
theorem isRun_play {file : Nat} {w : World ι} (h : w.IsStart file) (schedule : Nat → Option ι) :
    IsRun file (play file schedule w) where
  start := h
  next := by
    intro n
    rw [play]
    split
    · next i p machine hmove =>
        obtain ⟨j, -, hj⟩ := Option.bind_eq_some_iff.mp hmove
        obtain ⟨q, hstep, hq⟩ := Option.map_eq_some_iff.mp hj
        obtain ⟨rfl, rfl⟩ := Prod.mk.inj hq
        exact .act _ _ _ hstep
    · exact .elsewhere _ rfl

end World

end TreeSync
