import TreeSync.Session.Transfer
import TreeSync.Proofs.Session.Writing

/-!
# TreeSync.Proofs.Session.LockFile

The lock file of a session is one and the same file for ever (`lock_stays`).

Locks belong to files and not to paths, so transfers and barriers meet only as long as
all of them open the same file.

1. Once it is there, the lock file stays as it is if the state directory is without links
   and no installed program touches the lock file (`Kept`).
2. Every operation on a session keeps that, whatever comes of it, and so does every
   single change that operations make (`Operation.preserves`).
3. Operations and single changes come in any order, and in between others change what
   they like but the lock file (`Step`, `kept_run_of_le`).
-/

namespace TreeSync.Session

open TreeSync.Action Disk

variable {config config' : SessionConfig} {m m' : Machine} {there location : Location}
  {file : File} {seen : Option (Location × File)}

/-! ## the lock file -/

/-- The lock file of a session is a file at a location. -/
def LockAt (config : SessionConfig) (m : Machine) (location : Location) (file : File) : Prop :=
  m.disk.lookup m.environment.cwd config.lockPath = .ok (location, .file file)

/-- A lock file that is found lies in the session directory. -/
theorem settles_of_lockAt (hfree : LinkFree config m) (h : LockAt config m location file) :
    ∃ there, Settles config m there ∧ location = placeIn there .lock ∧
      m.disk.get? location = some (.file file) := by
  have hopen := openOrCreate_of_lookup SessionFile.lock.isName h
  obtain ⟨there, hsettles, rfl⟩ :=
    Files.settles_of_openOrCreate SessionFile.lock.isName hfree hopen
  exact ⟨there, hsettles, rfl, (openOrCreate_ok hopen).1.self⟩

/-- A file of that name in the session directory is found as the lock file. -/
theorem lockAt_of_settles (h : Settles config m there)
    (hget : m.disk.get? (placeIn there .lock) = some (.file file)) :
    LockAt config m (placeIn there .lock) file := lookup_pathOf h .lock hget

/-- A program that leaves the lock file as it is, once it is there. -/
def SparesLock (config : SessionConfig) (cwd : Option Location) (program : Program) : Prop :=
  ∀ disk location file, disk.LinkFree cwd config.stateDirectory →
    disk.lookup cwd config.lockPath = .ok (location, .file file) →
    (program.written disk).lookup cwd config.lockPath = .ok (location, .file file)

/-- A program that writes files of the engine only does so. -/
theorem WritesOwn.sparesLock {program : Program} (h : WritesOwn config program)
    (cwd : Option Location) : SparesLock config cwd program := by
  intro disk location file hfree hlock
  let before : Machine := { disk, environment := { cwd } }
  have hfree : LinkFree config before := hfree
  have hlock : LockAt config before location file := hlock
  obtain ⟨there, hsettles, rfl, hget⟩ := settles_of_lockAt hfree hlock
  have hspared := spared_perform hsettles h
  obtain ⟨processes, heq⟩ := before.perform_eq program
  rw [heq] at hspared
  have hstays := hspared.builds.stays _ _ (mt placeIn_mem_enginePlaces.mp (by decide)) hget
  exact lockAt_of_settles (hsettles.of_spared hspared) hstays

theorem lock_ne_pid : SessionFile.lock ≠ .pid := nofun

theorem lock_ne_log : SessionFile.lock ≠ .log := nofun

/-! ## what is kept -/

/-- **What keeps the lock file safe.** -/
structure Guarded (config : SessionConfig) (m : Machine) : Prop where
  tag : IsName m.environment.processTag
  free : LinkFree config m
  programs : ∀ installed ∈ m.programs, SparesLock config m.environment.cwd installed.2

/-- **The lock file is as it was seen**, if it was. -/
structure Kept (config : SessionConfig) (seen : Option (Location × File)) (m : Machine) :
    Prop where
  guarded : Guarded config m
  lock : ∀ location file, seen = some (location, file) → LockAt config m location file

namespace Kept

/-- What is done to something else than files and programs. -/
theorem of_same (h : Kept config seen m) (hdisk : m'.disk = m.disk)
    (henvironment : m'.environment = m.environment) (hprograms : m'.programs = m.programs) :
    Kept config seen m' := by
  obtain ⟨⟨htag, hfree, hspares⟩, hlock⟩ := h
  refine ⟨⟨?_, ?_, ?_⟩, ?_⟩
  · rwa [henvironment]
  · rwa [LinkFree, hdisk, henvironment]
  · rwa [henvironment, hprograms]
  · simpa only [LockAt, hdisk, henvironment] using hlock

/-- Directories that are made change nothing about the lock file. -/
theorem of_grows {disk : Disk} (h : Kept config seen m) (hgrows : Grows m.disk disk) :
    Kept config seen (m.withDisk disk) where
  guarded := ⟨h.guarded.tag, Disk.LinkFree.of_grows h.guarded.free hgrows, h.guarded.programs⟩
  lock location file hseen := by
    obtain ⟨there, hsettles, rfl, hget⟩ :=
      settles_of_lockAt h.guarded.free (h.lock location file hseen)
    exact lockAt_of_settles (Disk.Settles.of_builds hsettles hgrows.builds)
      (hgrows.stays _ _ hget)

/-- What is written to other places changes nothing about the lock file. -/
theorem of_builds {disk : Disk} {places : List Location} (h : Kept config seen m)
    (hsettles : Settles config m there) (hbuilds : Builds places m.disk disk)
    (hplace : placeIn there .lock ∉ places) : Kept config seen (m.withDisk disk) := by
  have hsettles' : Settles config (m.withDisk disk) there :=
    Disk.Settles.of_builds hsettles hbuilds
  refine ⟨⟨h.guarded.tag, hsettles'.linkFree, h.guarded.programs⟩, fun location file hseen => ?_⟩
  obtain ⟨there', hthere', rfl, hget⟩ :=
    settles_of_lockAt h.guarded.free (h.lock location file hseen)
  obtain rfl := hsettles.unique hthere'
  exact lockAt_of_settles hsettles' (hbuilds.stays _ _ hplace hget)

/-- **Running an installed program.** -/
theorem perform (h : Kept config seen m) {installed : Location × Program}
    (hinstalled : installed ∈ m.programs) : Kept config seen (m.perform installed.2) := by
  obtain ⟨processes, heq⟩ := m.perform_eq installed.2
  have hwritten : Kept config seen (m.withDisk (installed.2.written m.disk)) := by
    refine ⟨⟨h.guarded.tag, installed.2.linkFree_written h.guarded.free, h.guarded.programs⟩, ?_⟩
    intro location file hseen
    exact h.guarded.programs installed hinstalled _ _ _ h.guarded.free
      (h.lock location file hseen)
  rw [heq]
  exact hwritten.of_same rfl rfl rfl

end Kept

/-- Writing and removing the other session files keeps the lock file. -/
theorem withstands_kept (config : SessionConfig) (seen : Option (Location × File)) :
    Withstands config .lock (Kept config seen) where
  undotted := by decide
  tag _ h := h.guarded.tag
  free _ h := h.guarded.free
  reporting _ _ h := h.of_same rfl rfl rfl
  grows _ _ h := h.of_grows
  builds _ _ _ _ h hsettles hbuilds := h.of_builds hsettles hbuilds

/-! ## the lock -/

/-- **Opening the lock file**: it is made if it is not there, and else left as it is. -/
theorem kept_openOrCreate :
    (TransferLock.openOrCreate config.lockPath).Preserves (Kept config seen) := by
  refine preserves_get_bind fun m h => ?_
  split
  · next disk location file hopen =>
      obtain ⟨there, hsettles, hputs⟩ :=
        Files.openOrCreate_settles SessionFile.lock.isName h.guarded.free hopen
      have hsettles' := hsettles.of_builds hputs.builds
      refine ⟨⟨h.guarded.tag, hsettles'.linkFree, h.guarded.programs⟩, fun location' file' hseen => ?_⟩
      have hlock := h.lock location' file' hseen
      have hfound := openOrCreate_of_lookup SessionFile.lock.isName hlock
      cases hopen.symm.trans hfound
      exact hlock
  · exact h

theorem kept_ensure : (TransferLock.ensure config.lockPath).Preserves (Kept config seen) :=
  kept_openOrCreate.bind fun _ => preserves_pure ()

theorem kept_shared : (TransferLock.shared config.lockPath).Preserves (Kept config seen) :=
  kept_openOrCreate.bind fun _ => preserves_liftM fun _ h => h.of_same rfl rfl rfl

/-- Something that only prints. -/
def Prints (action : StateM Machine Unit) : Prop :=
  ∀ m, ∃ stdout stderr, (action.run m).run.2 = { m with stdout, stderr }

/-- Passing a lock file changes locks and what is printed. -/
theorem run_passFile {onWait : StateM Machine Unit} (hwait : Prints onWait) (id : Nat)
    (m : Machine) : ∃ locks stdout stderr,
      ((TransferLock.passFile id onWait).run m).run.2 = { m with locks, stdout, stderr } := by
  simp only [TransferLock.passFile, StateT.run_bind, StateT.run_get, Id.run_bind]
  split
  · exact ⟨_, m.stdout, m.stderr, rfl⟩
  · obtain ⟨stdout, stderr, hprinted⟩ := hwait m
    simp only [StateT.run_bind, Id.run_bind, Id.run_pure, hprinted]
    exact ⟨_, stdout, stderr, rfl⟩

/-- **Passing the barrier** opens the lock file at most. -/
theorem kept_barrier {onWait : StateM Machine Unit} (hwait : Prints onWait) :
    (TransferLock.barrier config.lockPath onWait).Preserves (Kept config seen) := by
  intro m h
  simp only [TransferLock.barrier, on_bind, on_get]
  split
  · exact h
  · exact h
  · next location file hlookup =>
      obtain ⟨locks, stdout, stderr, hpassed⟩ := run_passFile hwait file.id m
      simp only [on_liftM, hpassed]
      exact h.of_same rfl rfl rfl
  · exact h

/-! ## programs -/

/-- A line of the log lies in another file. -/
theorem kept_appendLog (h : Kept config seen m) (text : Text) :
    Kept config seen (appendLog config text m) ∧
      (appendLog config text m).programs = m.programs := by
  have happend := (withstands_kept config seen).append lock_ne_log text.bytes m h
  simp only [onDisk, on_bind, on_get] at happend
  rw [appendLog]
  split
  · next disk hdisk =>
      rw [SessionConfig.logPath] at hdisk
      simp only [hdisk] at happend
      exact ⟨happend, rfl⟩
  · exact ⟨h, rfl⟩

/-- A program launched with its output in the log does not touch the lock file. -/
theorem kept_launchLogged (cwd : Option Location) (name : Text) (arguments : List Text) :
    (launch cwd name arguments (appendLog config)).Preserves (Kept config seen) :=
  preserves_launch (fun _ _ h => h.of_same rfl rfl rfl) (fun text _ h => kept_appendLog h text)
    (fun _ h _ hinstalled => h.perform hinstalled) cwd name arguments

/-- Nor does one whose output is printed. -/
theorem kept_launchPrinted (cwd : Option Location) (name : Text) (arguments : List Text) :
    (launch cwd name arguments fun text machine => machine.printError text).Preserves
      (Kept config seen) := by
  have hprinted : ∀ (text : Text) (m : Machine), Kept config seen m →
      Kept config seen (m.printError text) ∧ (m.printError text).programs = m.programs :=
    fun text m h => ⟨h.of_same rfl rfl rfl, rfl⟩
  exact preserves_launch (fun _ _ h => h.of_same rfl rfl rfl) hprinted
    (fun _ h _ hinstalled => h.perform hinstalled) cwd name arguments

/-! ## operations -/

section
variable (config seen)

theorem kept_requireOpen : (requireOpen config).Preserves (Kept config seen) := by
  refine (withstands_kept config seen).status.bind fun state => ?_
  cases state with
  | running pid => exact preserves_pure pid
  | stale pid => exact preserves_throw _
  | closed => exact preserves_throw _

theorem kept_clearStale : (clearStale config).Preserves (Kept config seen) :=
  (withstands_kept config seen).clearStale lock_ne_pid

theorem kept_refresh : (refresh config).Preserves (Kept config seen) := by
  refine (withstands_kept config seen).status.bind fun state => ?_
  cases state with
  | running pid => exact preserves_pure _
  | stale pid => exact (kept_clearStale config seen).bind fun _ => preserves_pure _
  | closed => exact preserves_pure _

theorem kept_makeWay : (makeWay config).Preserves (Kept config seen) :=
  preserves_makeWay (withstands_kept config seen).reporting (kept_clearStale config seen)

theorem kept_openLog : (openLog config).Preserves (Kept config seen) :=
  (((withstands_kept config seen).append lock_ne_log _).mapError _).mapError _

theorem kept_startEngine : (startEngine config).Preserves (Kept config seen) := by
  refine (kept_openLog config seen).bind fun _ => ?_
  refine ((preserves_launchIn (fun cwd => kept_launchLogged cwd _ _) _).mapError _).bind
    fun ending => ?_
  split
  · exact preserves_throw _
  · exact preserves_pure _

theorem kept_awaitEngine : (awaitEngine clock config).Preserves (Kept config seen) :=
  preserves_awaitEngine (fun _ _ h => h.of_same rfl rfl rfl) fun _ _ h => h.of_same rfl rfl rfl

/-- Starting an engine keeps the lock file, with any index that only looks. -/
theorem kept_start {index : IgnoreIndex} (hindex : ∀ m, index.OnlyReads m) (executable : Text) :
    (start config index executable).Preserves (Kept config seen) := by
  have hprepare := (withstands_kept config seen).prepare nofun nofun kept_openOrCreate hindex
    executable
  exact (kept_makeWay config seen).bind fun _ => hprepare.bind fun _ =>
    (kept_startEngine config seen).bind fun _ => (kept_awaitEngine config seen).bind fun _ =>
      ((withstands_kept config seen).report .info).bind fun _ => preserves_pure _

/-- Closing keeps it, whatever the timer does with waiting. -/
theorem kept_closeBy {timer : Clock (StateM Machine)} (htimer : OnlyWaits timer) :
    (closeBy timer config).Preserves (Kept config seen) := by
  have hstop : ∀ pid, (stopEngine timer pid).Preserves (Kept config seen) := by
    intro pid m h
    obtain ⟨time, processes, hon⟩ := on_stopEngine htimer pid m
    rw [hon]
    exact h.of_same rfl rfl rfl
  refine (withstands_kept config seen).status.bind fun state => ?_
  cases state with
  | running pid =>
      exact (hstop pid).bind fun _ =>
        (((withstands_kept config seen).removeIfExists lock_ne_pid).mapError _).bind fun _ =>
          ((withstands_kept config seen).report .info).bind fun _ => preserves_pure _
  | stale pid => exact (kept_clearStale config seen).bind fun _ => preserves_pure _
  | closed => exact preserves_pure _

/-- A remote command keeps it, granted or not. -/
theorem kept_run (words : List Text) (terminal : Bool) {onWait : StateM Machine Unit}
    (hwait : Prints onWait) :
    (Remote.run config words terminal onWait).Preserves (Kept config seen) := by
  have hlaunch : (do
      let environment := (← get).environment
      let ending ← (launch environment.cwd config.binaries.ssh
        (Remote.sshArguments config words terminal environment.libraries.quote)
        fun text machine => machine.printError text).mapError
          (SessionError.launch config.binaries.ssh)
      pure ending.code : Action SessionError Nat).Preserves (Kept config seen) :=
    preserves_get_bind fun m h =>
      ((kept_launchPrinted _ _ _).mapError _).bind (fun _ => preserves_pure _) m h
  unfold Remote.run
  split
  · exact fun m h => h
  · refine (kept_requireOpen config seen).bind fun _ =>
      ((kept_barrier hwait).mapError _).bind fun pass => ?_
    split
    · exact ((withstands_kept config seen).report .info).bind fun _ => hlaunch
    · exact hlaunch

/-- A transfer keeps it. -/
theorem kept_transfer (rsync : Text) (arguments : List Text) :
    (Transfer.run config.lockPath rsync arguments).Preserves (Kept config seen) := by
  refine preserves_get_bind fun m h => ?_
  have hbody : (TransferLock.withShared config.lockPath (launch m.environment.cwd rsync arguments
      fun text machine => machine.printError text).run).Preserves (Kept config seen) :=
    kept_shared.bind fun handle =>
      (preserves_liftM (kept_launchPrinted m.environment.cwd rsync arguments)).bind fun value =>
        (preserves_liftM fun _ h => h.of_same rfl rfl rfl).bind fun _ => preserves_pure value
  refine (hbody.mapError _).bind (fun outcome => ?_) m h
  cases outcome with
  | error fault => exact preserves_throw _
  | ok ending =>
      simp only
      split
      · exact ((withstands_kept config seen).report .warn).bind fun _ => preserves_pure _
      · exact preserves_pure _

end

/-- The files that are written whole when a session is prepared. -/
def preparedFiles : List SessionFile := [.engineConfig, .transferShim]

/-- **What is done with a session**: whole operations, and the single changes of files that
they are made of, so that others can come between these. -/
inductive Operation (config : SessionConfig) : {ε α : Type} → Action ε α → Prop
  | status : Operation config (Session.status config)
  | refresh : Operation config (Session.refresh config)
  | start {index : IgnoreIndex} (hindex : ∀ m, index.OnlyReads m) (executable : Text) :
      Operation config (Session.start config index executable)
  | close {timer : Clock (StateM Machine)} (htimer : OnlyWaits timer) :
      Operation config (Session.closeBy timer config)
  | run (words : List Text) (terminal : Bool) {onWait : StateM Machine Unit}
      (hwait : Prints onWait) : Operation config (Remote.run config words terminal onWait)
  | transfer (rsync : Text) (arguments : List Text) :
      Operation config (Transfer.run config.lockPath rsync arguments)
  | ensure : Operation config (TransferLock.ensure config.lockPath)
  | shared : Operation config (TransferLock.shared config.lockPath)
  | release (handle : Nat) :
      Operation config (liftM (TransferLock.release handle) : Action FileError Unit)
  | barrier {onWait : StateM Machine Unit} (hwait : Prints onWait) :
      Operation config (TransferLock.barrier config.lockPath onWait)
  | makeParent (file : SessionFile) : Operation config (Files.makeParent (config.pathOf file))
  /-- A file is written under the temporary name of some process. -/
  | write {tag : Text} (htag : IsName tag) (file : SessionFile) (content : ByteArray) :
      Operation config (onDisk fun disk cwd =>
        disk.write cwd (Files.temporaryPath tag (config.pathOf file)) content)
  | rename {tag : Text} (htag : IsName tag) {file : SessionFile} (hfile : file ∈ preparedFiles) :
      Operation config (onDisk fun disk cwd =>
        disk.rename cwd (Files.temporaryPath tag (config.pathOf file)) (config.pathOf file))
  | makeExecutable {file : SessionFile} (hfile : file ∈ preparedFiles) :
      Operation config (onDisk fun disk cwd => disk.makeExecutable cwd (config.pathOf file))
  | removePid : Operation config (Files.removeIfExists config.pidPath)
  | openLog : Operation config (Session.openLog config)
  /-- A program is run, its error output going to the log. -/
  | launchLogged (cwd : Option Location) (name : Text) (arguments : List Text) :
      Operation config (launch cwd name arguments (appendLog config))
  | launchPrinted (cwd : Option Location) (name : Text) (arguments : List Text) :
      Operation config (launch cwd name arguments fun text machine => machine.printError text)

/-- **Whatever is done with a session**, and whatever comes of it, the lock file is kept. -/
theorem Operation.preserves {ε α : Type} {action : Action ε α} (h : Operation config action)
    (seen : Option (Location × File)) : action.Preserves (Kept config seen) := by
  have hother : ∀ file ∈ preparedFiles, SessionFile.lock ≠ file := by decide
  have hwithstands := withstands_kept config seen
  cases h with
  | status => exact hwithstands.status
  | refresh => exact kept_refresh config seen
  | start hindex executable => exact kept_start config seen hindex executable
  | close htimer => exact kept_closeBy config seen htimer
  | run words terminal hwait => exact kept_run config seen words terminal hwait
  | transfer rsync arguments => exact kept_transfer config seen rsync arguments
  | ensure => exact kept_ensure
  | shared => exact kept_shared
  | release handle => exact preserves_liftM fun _ h => h.of_same rfl rfl rfl
  | barrier hwait => exact kept_barrier hwait
  | makeParent file => exact hwithstands.makeParent file
  | write htag file content => exact hwithstands.write htag file content
  | rename htag hfile => exact hwithstands.rename (hother _ hfile) htag
  | makeExecutable hfile => exact hwithstands.makeExecutable (hother _ hfile)
  | removePid => exact hwithstands.removeIfExists lock_ne_pid
  | openLog => exact kept_openLog config seen
  | launchLogged cwd name arguments => exact kept_launchLogged cwd name arguments
  | launchPrinted cwd name arguments => exact kept_launchPrinted cwd name arguments

/-! ## runs -/

/-- **One step of a run.** -/
inductive Step (config : SessionConfig) : Machine → Machine → Prop
  /-- Something is done with the session, whose other settings may have changed. -/
  | act {config' : SessionConfig} (hsame : config'.stateDirectory = config.stateDirectory)
      {ε α : Type} {action : Action ε α} (hoperation : Operation config' action) (m : Machine) :
      Step config m (action.on m).2
  /-- Others change something, and leave the lock file alone. -/
  | outside {m m' : Machine} (hguarded : Guarded config m → Guarded config m')
      (hlock : ∀ location file, LockAt config m location file → LockAt config m' location file) :
      Step config m m'

/-- Only the state directory tells where the lock file is. -/
theorem Kept.of_directory (hsame : config'.stateDirectory = config.stateDirectory)
    (h : Kept config seen m) : Kept config' seen m := by
  have hpath : config'.lockPath = config.lockPath := by
    rw [SessionConfig.lockPath, SessionConfig.pathOf, hsame]
    rfl
  obtain ⟨⟨htag, hfree, hspares⟩, hlock⟩ := h
  refine ⟨⟨htag, ?_, ?_⟩, ?_⟩
  · rwa [LinkFree, hsame]
  · simpa only [SparesLock, hsame, hpath] using hspares
  · simpa only [LockAt, hpath] using hlock

/-- **A step keeps the lock file.** -/
theorem kept_step (h : Step config m m') (hkept : Kept config seen m) : Kept config seen m' := by
  cases h with
  | act hsame hoperation =>
      have hbefore : Kept _ seen m := hkept.of_directory hsame
      exact (hoperation.preserves seen m hbefore).of_directory hsame.symm
  | outside hguarded hlock =>
      exact ⟨hguarded hkept.guarded, fun location file hseen => hlock _ _ (hkept.lock _ _ hseen)⟩

/-- **A run keeps the lock file**, from any time on. -/
theorem kept_run_of_le {run : Nat → Machine} (hrun : ∀ k, Step config (run k) (run (k + 1)))
    {n k : Nat} (hle : n ≤ k) (h : Kept config seen (run n)) : Kept config seen (run k) := by
  induction hle with
  | refl => exact h
  | step _ ih => exact kept_step (hrun _) ih

/-- Something is done under a shared hold of an open file. -/
def underHold {α : Type} (id : Nat) (body : StateM Machine α) : StateM Machine α := do
  let handle ← TransferLock.await id .shared
  let value ← body
  TransferLock.release handle
  pure value

/-- With a lock file in place nothing is made: the body runs under a hold of that
file. -/
theorem on_withShared {α : Type} (h : LockAt config m location file) (body : StateM Machine α) :
    (TransferLock.withShared config.lockPath body).on m =
      (liftM (underHold file.id body) : Action FileError α).on m := by
  have hopen := openOrCreate_of_lookup SessionFile.lock.isName h
  have hopened : (TransferLock.openOrCreate config.lockPath).on m = (.ok file, m) := by
    rw [SessionConfig.lockPath, SessionConfig.pathOf]
    simp only [TransferLock.openOrCreate, on_bind, on_get, hopen, on_set, on_pure]
  simp only [TransferLock.withShared, TransferLock.shared, on_bind, hopened, on_liftM, on_pure]
  rfl

/-- **The lock file stays.**  Once there is a lock file, it is the same file with the same
bytes for ever, whatever is done with the session in whatever order, and every transfer
and every barrier locks it. -/
theorem lock_stays {run : Nat → Machine} (hguarded : Guarded config (run 0))
    (hrun : ∀ k, Step config (run k) (run (k + 1))) {n : Nat}
    (hlock : LockAt config (run n) location file) :
    ∀ k, n ≤ k → LockAt config (run k) location file ∧
      (∀ {α : Type} (body : StateM Machine α),
        (TransferLock.withShared config.lockPath body).on (run k) =
          (liftM (underHold file.id body) : Action FileError α).on (run k)) ∧
      ∀ onWait, (TransferLock.barrier config.lockPath onWait).on (run k) =
        (liftM (TransferLock.passFile file.id onWait) : Action FileError BarrierPass).on (run k) := by
  have hfirst : Kept config none (run 0) := ⟨hguarded, nofun⟩
  have hseen : Kept config (some (location, file)) (run n) := by
    refine ⟨(kept_run_of_le hrun (Nat.zero_le n) hfirst).guarded, ?_⟩
    rintro _ _ ⟨⟩
    exact hlock
  intro k hle
  have hstays := (kept_run_of_le hrun hle hseen).lock location file rfl
  exact ⟨hstays, on_withShared hstays, fun onWait => Party.on_barrier onWait hstays⟩

/-- What is done with the session of a tree at `/t`: it is opened, a transfer is asked
for, it is closed, and from then on one only looks. -/
def plainRun : Nat → Machine
  | 0 => staleMachine
  | 1 => ((start plainSession plainIndex "/opt/tether").on (plainRun 0)).2
  | 2 => ((Transfer.run plainSession.lockPath "rsync" []).on (plainRun 1)).2
  | 3 => ((close plainSession).on (plainRun 2)).2
  | n + 4 => ((status plainSession).on (plainRun (n + 3))).2

/-- A session directory with a lock file in it, and a run that opens and closes a
session. -/
theorem lock_stays_plain :
    LockAt plainSession (plainRun 1) ["t", "s", SessionFile.lock.name] ⟨5, ByteArray.empty, 0o644⟩ ∧
      ∀ k, 1 ≤ k →
        LockAt plainSession (plainRun k) ["t", "s", SessionFile.lock.name]
          ⟨5, ByteArray.empty, 0o644⟩ := by
  have hguarded : Guarded plainSession (plainRun 0) := by
    refine ⟨⟨by decide, by decide, by decide, by decide, by decide⟩,
      linkFree_of_entries (by simp [plainRun, staleMachine]), fun installed hinstalled => ?_⟩
    refine WritesOwn.sparesLock (fun path content hwrites => ?_) _
    obtain rfl := List.mem_singleton.mp hinstalled
    cases hwrites
    exact ⟨.pid, by decide, rfl⟩
  have hindex : ∀ m, plainIndex.OnlyReads m := fun m => ⟨onlyReads_pure none, onlyReads_pure []⟩
  have hrun : ∀ k, Step plainSession (plainRun k) (plainRun (k + 1)) := by
    intro k
    obtain _ | _ | _ | k := k
    · exact .act rfl (.start hindex "/opt/tether") staleMachine
    · exact .act rfl (.transfer "rsync" []) (plainRun 1)
    · exact .act rfl (.close onlyWaits_clock) (plainRun 2)
    · exact .act rfl .status (plainRun (k + 3))
  have hlock : LockAt plainSession (plainRun 1) ["t", "s", SessionFile.lock.name]
      ⟨5, ByteArray.empty, 0o644⟩ := by
    rw [LockAt]
    decide +kernel
  exact ⟨hlock, fun k hle => (lock_stays hguarded hrun hlock k hle).1⟩

end TreeSync.Session
