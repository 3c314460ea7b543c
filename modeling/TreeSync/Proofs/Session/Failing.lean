import TreeSync.Proofs.Session.Refusing

/-!
# TreeSync.Proofs.Session.Failing

The processes that an opening leaves, when it fails as well.

1. What an opening does before it runs the engine starts and ends no process
   (`isAlive_advance`), and neither does what it does afterwards (`isAlive_conclude`).
2. The engine that is run leaves the processes that it has started, also when it ends
   with a failure (`on_runEngine_of_finds`).

Nothing takes them back.  So a failed opening leaves no process exactly if the engine
started none, and it can only leave one if it was the engine that failed
(`leftAlive_of_start`).
-/

namespace TreeSync

/-! ## processes -/

namespace Machine

/-- A process that is started is alive from then on, and no other changes. -/
theorem isAlive_startProcess {machine : Machine} {pid other : Nat} {stubborn : Bool} :
    (machine.startProcess other stubborn).isAlive pid = true ↔
      machine.isAlive pid = true ∨ pid = other := by
  simp only [isAlive, startProcess, List.any_append, List.any_filter, Bool.or_eq_true,
    List.any_eq_true, List.any_cons, List.any_nil, Bool.or_false, Bool.and_eq_true, bne_iff_ne,
    beq_iff_eq]
  grind

/-- **A program that is run** leaves the processes that it starts. -/
theorem isAlive_perform {machine : Machine} {program : Program} {pid : Nat} :
    (machine.perform program).isAlive pid = true ↔
      machine.isAlive pid = true ∨ pid ∈ program.starts := by
  have hstarts : ∀ (pids : List Nat) (m : Machine),
      (pids.foldl (fun m pid => m.startProcess pid false) m).isAlive pid = true ↔
        m.isAlive pid = true ∨ pid ∈ pids := by
    intro pids
    induction pids with
    | nil => simp
    | cons other pids ih =>
        intro m
        rw [List.foldl_cons, ih, isAlive_startProcess, List.mem_cons, or_assoc]
  exact hstarts program.starts (machine.withDisk (program.written machine.disk))

end Machine

namespace Session

open TreeSync.Action Disk

variable {config : SessionConfig} {index : IgnoreIndex} {executable : Text}
  {machine ready after : Machine} {error : SessionError} {outcome : Except SessionError Unit}
  {program : Program}

/-! ## before the engine is run -/

/-- What depends neither on the disk nor on reports. -/
structure Indifferent (holds : Machine → Prop) : Prop where
  withDisk : ∀ m disk, holds m → holds (m.withDisk disk)
  reporting : ∀ m reports, holds m → holds (m.reporting reports)

namespace Indifferent

variable {holds : Machine → Prop} (h : Indifferent holds)
include h

theorem onDisk (f : Disk → Option Location → Except DiskFault Disk) :
    (Action.onDisk f).Preserves holds :=
  preserves_onDisk fun m disk hm _ => h.withDisk m disk hm

theorem naming (path : Text) (f : Disk → Option Location → Except DiskFault Disk) :
    (Files.naming path (Action.onDisk f)).Preserves holds := (h.onDisk f).mapError _

theorem makeDirectories (path : Text) : (Files.makeDirectories path).Preserves holds := by
  refine preserves_get_bind fun m hm => ?_
  have hmade := h.withDisk m (m.disk.makeDirectories m.environment.cwd path).2 hm
  rw [on_bind, on_set]
  cases (m.disk.makeDirectories m.environment.cwd path).1 <;> exact hmade

theorem makeParent (path : Text) : (Files.makeParent path).Preserves holds := by
  rw [Files.makeParent]
  split
  · exact preserves_pure ()
  · exact h.makeDirectories _

theorem writeAtomic (path : Text) (content : ByteArray) :
    (Files.writeAtomic path content).Preserves holds :=
  (h.makeParent path).bind fun _ => preserves_get_bind fun m hm =>
    ((Files.preserves_store (fun _ => h.onDisk _) content).mapError _).bind
      (fun _ => (Files.preserves_move (h.onDisk _)).mapError _) m hm

theorem writeFiles (config : SessionConfig) (set : FilterSet) (executable : Text) :
    (Session.writeFiles config set executable).Preserves holds :=
  Preserves.mapError ((h.writeAtomic _ _).bind fun _ => preserves_get_bind fun m hm =>
    ((h.writeAtomic _ _).bind fun _ => h.naming _ _) m hm) _

theorem ensure (path : Text) : (TransferLock.ensure path).Preserves holds := by
  refine Preserves.bind (preserves_get_bind fun m hm => ?_) fun _ => preserves_pure ()
  split
  · next disk _ _ _ => exact h.withDisk m disk hm
  · exact hm

theorem clearStale (config : SessionConfig) : (Session.clearStale config).Preserves holds :=
  preserves_clearStale h.reporting fun m disk hm _ => h.withDisk m disk hm

theorem makeWay (config : SessionConfig) : (Session.makeWay config).Preserves holds :=
  preserves_makeWay h.reporting (h.clearStale config)

theorem prepare (hindex : ∀ m, index.OnlyReads m) (config : SessionConfig) (executable : Text) :
    (Session.prepare config index executable).Preserves holds :=
  (preserves_filters hindex h.reporting).bind fun set =>
    (h.writeFiles config set executable).bind fun _ => (h.ensure config.lockPath).mapError _

end Indifferent

/-- What an opening does before it runs the engine. -/
def advance (config : SessionConfig) (index : IgnoreIndex) (executable : Text) :
    Action SessionError Unit := do
  makeWay config
  prepare config index executable
  openLog config

theorem Indifferent.advance {holds : Machine → Prop} (h : Indifferent holds)
    (hindex : ∀ m, index.OnlyReads m) (config : SessionConfig) (executable : Text) :
    (Session.advance config index executable).Preserves holds :=
  (h.makeWay config).bind fun _ => (h.prepare hindex config executable).bind fun _ =>
    (h.naming config.logPath _).mapError _

/-- Nothing that is done before the launch starts or ends a process. -/
theorem isAlive_advance (hindex : ∀ m, index.OnlyReads m)
    (h : (advance config index executable).on machine = (outcome, after)) (pid : Nat) :
    after.isAlive pid = machine.isAlive pid := by
  have hsame : Indifferent (·.isAlive pid = machine.isAlive pid) :=
    ⟨fun _ _ h => h, fun _ _ h => h⟩
  have hkept := hsame.advance hindex config executable machine rfl
  rwa [h] at hkept

/-- What an opening does once the engine is run. -/
def conclude (config : SessionConfig) : Action SessionError Nat := do
  let pid ← awaitEngine clock config
  report .info
  pure pid

/-- Starting is preparing, running the engine and seeing what came of it. -/
theorem start_eq (config : SessionConfig) (index : IgnoreIndex) (executable : Text) :
    start config index executable = advance config index executable >>= fun _ =>
      runEngine config >>= fun _ => conclude config := by
  simp only [start, startBy, advance, startEngine, conclude, bind_assoc]

/-! ## the engine -/

/-- The installed program that is run as the engine: the working tree is there, and the
program is found from it. -/
def Finds (config : SessionConfig) (machine : Machine) (program : Program) : Prop :=
  canBePassed [config.root, config.binaries.lsyncd, config.engineConfigPath] = true ∧
    ∃ directory location,
      machine.disk.lookup machine.environment.cwd config.root = .ok (directory, .directory) ∧
        machine.findProgram (some directory) config.binaries.lsyncd = .ok (location, program)

theorem isAlive_appendLog (config : SessionConfig) (text : Text) (m : Machine) (pid : Nat) :
    (appendLog config text m).isAlive pid = m.isAlive pid := by
  rw [appendLog]
  split <;> rfl

/-- A launch finds the program first, where its arguments can be passed at all; then
the program does all of its work. -/
theorem on_launch (cwd : Option Location) (name : Text) (arguments : List Text)
    (onStderr : Text → Machine → Machine) (m : Machine) :
    (launch cwd name arguments onStderr).on m =
      if canBePassed (name :: arguments) then
        match m.findProgram cwd name with
        | .error fault => (.error (.disk fault), m)
        | .ok (location, program) =>
            (.ok program.ending, (onStderr program.stderr { m with
              launches := m.launches ++ [⟨location.getLast?.getD [], arguments⟩] }).perform
                program)
      else (.error .invalidArgument, m) := by
  rw [launch]
  cases canBePassed (name :: arguments) with
  | false => rfl
  | true =>
      simp only [Bool.not_true, Bool.false_eq_true, if_false, if_true, on_bind, on_get]
      cases m.findProgram cwd name with
      | error fault => rfl
      | ok found => rfl

/-- A launch in a directory looks for the directory before the program. -/
theorem on_launchIn (directory name : Text) (arguments : List Text)
    (onStderr : Text → Machine → Machine) (m : Machine) :
    (launchIn directory name arguments onStderr).on m =
      if canBePassed (directory :: name :: arguments) then
        match m.disk.lookup m.environment.cwd directory with
        | .ok (location, .directory) => (launch (some location) name arguments onStderr).on m
        | .ok _ => (.error (.disk .notDirectory), m)
        | .error fault => (.error (.disk fault), m)
      else (.error .invalidArgument, m) := by
  rw [launchIn]
  cases canBePassed (directory :: name :: arguments) with
  | false => rfl
  | true =>
      simp only [Bool.not_true, Bool.false_eq_true, if_false, if_true, on_bind, on_get]
      cases m.disk.lookup m.environment.cwd directory with
      | error fault => rfl
      | ok found =>
          obtain ⟨location, entry⟩ := found
          cases entry <;> rfl

/-- Arguments that can be passed can be without the first. -/
theorem canBePassed_of_cons {text : Text} {texts : List Text}
    (h : canBePassed (text :: texts) = true) : canBePassed texts = true := by
  rw [canBePassed, List.all_cons, Bool.and_eq_true] at h
  exact h.2

/-- Where there is no engine, or nowhere to run it, nothing is done. -/
theorem on_runEngine_of_not_finds (h : ∀ program, ¬ Finds config ready program) :
    ∃ fault, (runEngine config).on ready =
      (.error (.launch config.binaries.lsyncd fault), ready) := by
  rw [runEngine, on_bind, on_mapError, on_launchIn]
  cases hpassed : canBePassed [config.root, config.binaries.lsyncd, config.engineConfigPath] with
  | false => exact ⟨.invalidArgument, rfl⟩
  | true =>
      cases hroot : ready.disk.lookup ready.environment.cwd config.root with
      | error fault => exact ⟨.disk fault, rfl⟩
      | ok found =>
          obtain ⟨directory, entry⟩ := found
          cases entry with
          | file file => exact ⟨.disk .notDirectory, rfl⟩
          | link target => exact ⟨.disk .notDirectory, rfl⟩
          | directory =>
              rw [if_pos rfl]
              dsimp only
              rw [on_launch, if_pos (canBePassed_of_cons hpassed)]
              cases hfind : ready.findProgram (some directory) config.binaries.lsyncd with
              | error fault => exact ⟨.disk fault, rfl⟩
              | ok found => exact absurd ⟨hpassed, directory, found.1, hroot, hfind⟩ (h found.2)

/-- **The engine that is run** leaves the processes that it starts, whichever way it ends. -/
theorem on_runEngine_of_finds (h : Finds config ready program) :
    ∃ after, (runEngine config).on ready =
        (if program.ending = .exit 0 then .ok ()
          else .error (.engine (.exited program.ending.code config.logPath)), after) ∧
      ∀ pid, after.isAlive pid = true ↔ ready.isAlive pid = true ∨ pid ∈ program.starts := by
  obtain ⟨hpassed, directory, location, hroot, hfind⟩ := h
  rw [runEngine, on_bind, on_mapError, on_launchIn, if_pos hpassed, hroot]
  dsimp only
  rw [on_launch, if_pos (canBePassed_of_cons hpassed), hfind]
  refine ⟨(appendLog config program.stderr { ready with launches := ready.launches ++
    [⟨location.getLast?.getD [], [config.engineConfigPath]⟩] }).perform program, ?_, fun pid => ?_⟩
  · by_cases hending : program.ending = .exit 0 <;> simp [hending]
  · rw [Machine.isAlive_perform, isAlive_appendLog]
    rfl

/-- Waiting for the engine starts and ends no process. -/
theorem isAlive_conclude (config : SessionConfig) (pid : Nat) (alive : Bool) :
    (conclude config).Preserves (·.isAlive pid = alive) := by
  have hawait : (awaitEngine clock config).Preserves (·.isAlive pid = alive) :=
    preserves_awaitEngine (fun _ _ h => h) fun _ _ h => h
  have hreport : (report .info : Action SessionError PUnit).Preserves (·.isAlive pid = alive) :=
    fun _ h => h
  exact hawait.bind fun _ => hreport.bind fun _ => preserves_pure _

/-- What is seen after the launch is an error of the engine. -/
theorem failsOnly_conclude (config : SessionConfig) :
    (conclude config).FailsOnly fun error => ∃ fault, error = .engine fault :=
  (failsOnly_awaitEngine ⟨_, rfl⟩ clock).bind fun _ => (failsOnly_report .info).bind
    fun _ => failsOnly_pure _

/-! ## a whole opening -/

/-- The installed program that an opening runs as its engine, if it comes so far. -/
def Runs (config : SessionConfig) (index : IgnoreIndex) (executable : Text) (machine : Machine)
    (program : Program) : Prop :=
  ∃ ready, (advance config index executable).on machine = (.ok (), ready) ∧
    Finds config ready program

/-- An opening that does not run the engine leaves the processes as they are. -/
theorem isAlive_start_of_not_runs (hindex : ∀ m, index.OnlyReads m)
    (h : ∀ program, ¬ Runs config index executable machine program) (pid : Nat) :
    ((start config index executable).on machine).2.isAlive pid = machine.isAlive pid := by
  rw [start_eq, on_bind]
  split
  · next ready hadvance =>
      obtain ⟨fault, hrun⟩ := on_runEngine_of_not_finds fun program hfinds =>
        h program ⟨ready, hadvance, hfinds⟩
      rw [on_bind, hrun]
      exact isAlive_advance hindex hadvance pid
  · next error after hadvance => exact isAlive_advance hindex hadvance pid

/-- **An opening that runs the engine** leaves the processes that the engine has started,
and can only fail because of the engine. -/
theorem on_start_of_runs (hindex : ∀ m, index.OnlyReads m)
    (h : Runs config index executable machine program) :
    (∀ pid, ((start config index executable).on machine).2.isAlive pid = true ↔
      machine.isAlive pid = true ∨ pid ∈ program.starts) ∧
    ∀ error, ((start config index executable).on machine).1 = .error error →
      ∃ fault, error = .engine fault := by
  obtain ⟨ready, hadvance, hfinds⟩ := h
  obtain ⟨launched, hrun, halive⟩ := on_runEngine_of_finds hfinds
  simp only [isAlive_advance hindex hadvance] at halive
  rw [start_eq, on_bind, hadvance]
  dsimp only
  rw [on_bind, hrun]
  by_cases hending : program.ending = .exit 0
  · rw [if_pos hending]
    refine ⟨fun pid => ?_, failsOnly_conclude config launched⟩
    rw [isAlive_conclude config pid _ launched rfl, halive]
  · rw [if_neg hending]
    refine ⟨halive, ?_⟩
    rintro _ ⟨⟩
    exact ⟨_, rfl⟩

/-- **What a failed opening leaves.**  There is no new process exactly if the engine that
was run, if any, started none.  If it was not the engine that failed, the processes are as
they were. -/
theorem leftAlive_of_start (hindex : ∀ m, index.OnlyReads m)
    (h : (start config index executable).on machine = (.error error, after)) :
    ((∀ pid, after.isAlive pid = true → machine.isAlive pid = true) ↔
      ∀ program, Runs config index executable machine program →
        ∀ pid ∈ program.starts, machine.isAlive pid = true) ∧
    ((∀ fault, error ≠ .engine fault) → ∀ pid, after.isAlive pid = machine.isAlive pid) := by
  by_cases hruns : ∃ program, Runs config index executable machine program
  · obtain ⟨program, hprogram⟩ := hruns
    obtain ⟨halive, hfails⟩ := on_start_of_runs hindex hprogram
    rw [h] at halive hfails
    obtain ⟨fault, rfl⟩ := hfails error rfl
    refine ⟨⟨fun hleft other hother pid hpid => ?_, fun hstarts pid hpid => ?_⟩,
      fun hother => absurd rfl (hother fault)⟩
    · obtain ⟨halive', -⟩ := on_start_of_runs hindex hother
      rw [h] at halive'
      exact hleft pid ((halive' pid).mpr (.inr hpid))
    · exact ((halive pid).mp hpid).elim id (hstarts program hprogram pid)
  · have hsame := isAlive_start_of_not_runs hindex (not_exists.mp hruns)
    rw [h] at hsame
    refine ⟨⟨fun _ program hprogram => absurd ⟨program, hprogram⟩ hruns, fun _ pid hpid => ?_⟩,
      fun _ => hsame⟩
    rw [← hsame pid]
    exact hpid

/-- The machine of a stale session with another engine. -/
def engineMachine (engine : Program) : Machine :=
  { staleMachine with programs := [(["bin", "lsyncd"], engine)] }

/-- The engine that runs there is the one the machine was given. -/
theorem runs_engineMachine {engine : Program}
    (h : Runs plainSession plainIndex executable (engineMachine engine) program) :
    program = engine := by
  obtain ⟨ready, hadvance, -, directory, location, -, hfind⟩ := h
  have hprograms : Indifferent (·.programs = (engineMachine engine).programs) :=
    ⟨fun _ _ h => h, fun _ _ h => h⟩
  have hkept := hprograms.advance onlyReads_plainIndex plainSession executable
    (engineMachine engine) rfl
  rw [hadvance] at hkept
  have hinstalled := mem_of_findProgram hfind
  rw [hkept] at hinstalled
  exact congrArg Prod.snd (List.mem_singleton.mp hinstalled)

/-- An engine that fails before it starts anything leaves nothing. -/
theorem leftAlive_of_start_exited :
    let machine := engineMachine { ending := .exit 1 }
    ∃ after, (start plainSession plainIndex "/opt/tether").on machine =
        (.error (.engine (.exited 1 plainSession.logPath)), after) ∧
      ∀ pid, after.isAlive pid = true → machine.isAlive pid = true := by
  intro machine
  have hfails : ((start plainSession plainIndex "/opt/tether").on machine).1 =
      .error (.engine (.exited 1 plainSession.logPath)) := by decide +kernel
  refine ⟨_, on_eq_of_fst hfails, ?_⟩
  refine (leftAlive_of_start onlyReads_plainIndex (on_eq_of_fst hfails)).1.mpr
    fun program hruns pid hpid => ?_
  rw [runs_engineMachine hruns] at hpid
  cases hpid

/-- An engine that starts process 41 and tells of none: the opening fails, the process
goes on, and the next opening starts another one beside it. -/
theorem silent_engine_left :
    let machine := engineMachine { starts := [41] }
    ∃ after, (start plainSession plainIndex "/opt/tether").on machine =
        (.error (.engine (.silent plainSession.logPath)), after) ∧
      machine.isAlive 41 = false ∧ after.isAlive 41 = true ∧
      ∃ later, (start plainSession plainIndex "/opt/tether").on
          { after with programs := [(["bin", "lsyncd"],
            { writes := some (plainSession.pidPath, "42\n"), starts := [42] })] } =
          (.ok 42, later) ∧
        later.isAlive 41 = true ∧ later.isAlive 42 = true := by
  intro machine
  have hfails : ((start plainSession plainIndex "/opt/tether").on machine).1 =
      .error (.engine (.silent plainSession.logPath)) := by decide +kernel
  refine ⟨_, on_eq_of_fst hfails, rfl, by decide +kernel, _, on_eq_of_fst ?_, ?_, ?_⟩
  · decide +kernel
  · decide +kernel
  · decide +kernel

end Session

end TreeSync
