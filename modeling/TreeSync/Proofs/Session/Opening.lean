import TreeSync.Session.Remote
import TreeSync.Proofs.Session.Closing
import TreeSync.Proofs.Session.Engine
import TreeSync.Proofs.Machine.Interleaving
import TreeSync.Proofs.Ignore.Concatenation

/-!
# TreeSync.Proofs.Session.Opening

A session that was opened can be used (`usable_of_startBy`).

1. Before the engine is started its files are in the state directory, which holds no
   link (`prepare_ok`).
2. They stay whatever the engine does with its process file and its log, when it is
   started and while it is waited for (`Confined`).
3. What is open is told by a process file, so every later look finds the same
   (`on_startBy_of_tells`, `on_run_of_tells`).
-/

namespace TreeSync.Session

open TreeSync.Action Disk

variable {config : SessionConfig} {index : IgnoreIndex} {executable shim : Text}
  {machine after : Machine} {there : Location} {set : FilterSet} {pid : Nat}

/-! ## the files of a session -/

/-- A temporary name begins with a dot. -/
theorem placeIn_ne_temporary {file : SessionFile} (h : file.name.head? ≠ some '.') (tag name : Text) :
    placeIn there file ≠ there ++ [Files.temporaryName tag name] := by
  intro heq
  obtain ⟨-, hname⟩ := List.append_inj' heq rfl
  rw [(List.cons.inj hname).1] at h
  exact h rfl

/-- A session file is not at the place of another one. -/
theorem not_mem_place {file file' : SessionFile} (h : file ≠ file') :
    placeIn there file ∉ ([there ++ [file'.name]] : List Location) := by
  rw [List.mem_singleton]
  exact mt placeIn_injective h

/-- Writing a file replaces that file and its temporary one only. -/
theorem not_mem_replaced {file file' : SessionFile} {tag : Text} (hdot : file.name.head? ≠ some '.')
    (h : file ≠ file') :
    placeIn there file ∉
      ([there ++ [Files.temporaryName tag file'.name], there ++ [file'.name]] : List Location) := by
  rw [List.mem_cons, not_or]
  exact ⟨placeIn_ne_temporary hdot tag _, not_mem_place h⟩

/-- What a session starts with is in a directory. -/
structure Equipped (config : SessionConfig) (set : FilterSet) (shim : Text)
    (there : Location) (disk : Disk) : Prop where
  engineConfig : ∃ file, file.content = (Engine.configText config set).bytes ∧
    disk.get? (placeIn there .engineConfig) = some (.file file)
  shim : ∃ file, file.content = shim.bytes ∧ file.mode = 0o755 ∧
    disk.get? (placeIn there .transferShim) = some (.file file)
  lock : ∃ file, disk.get? (placeIn there .lock) = some (.file file)

/-- What builds in the places of the engine leaves the shim and the lists. -/
theorem Equipped.of_builds {disk disk' : Disk} (h : Equipped config set shim there disk)
    (hbuilds : Builds (enginePlaces there) disk disk') :
    Equipped config set shim there disk' := by
  have hstays : ∀ file entry, file ∉ engineFiles →
      disk.get? (placeIn there file) = some entry → disk'.get? (placeIn there file) = some entry :=
    fun file entry hfile => hbuilds.stays _ entry (mt placeIn_mem_enginePlaces.mp hfile)
  obtain ⟨configFile, hconfig, hconfigGet⟩ := h.engineConfig
  obtain ⟨shimFile, hshim, hmode, hshimGet⟩ := h.shim
  obtain ⟨lockFile, hlockGet⟩ := h.lock
  exact ⟨⟨configFile, hconfig, hstays _ _ (by decide) hconfigGet⟩,
    ⟨shimFile, hshim, hmode, hstays _ _ (by decide) hshimGet⟩,
    ⟨lockFile, hstays _ _ (by decide) hlockGet⟩⟩

/-! ## before the engine is started -/

/-- **An open session** makes no way. -/
theorem on_makeWay_of_alive (htells : Tells config machine pid)
    (halive : machine.answers pid = true) :
    (makeWay config).on machine = (.error (.alreadyOpen config.root pid), machine) := by
  simp only [makeWay, on_bind, on_status_of_tells htells, stateOf, halive, if_true, on_throw]

/-- What depends neither on reports nor on the process file. -/
theorem preserves_clearStale {holds : Machine → Prop}
    (hreports : ∀ m reports, holds m → holds (m.reporting reports))
    (hremove : ∀ m disk, holds m → m.disk.remove m.environment.cwd config.pidPath = .ok disk →
      holds (m.withDisk disk)) : (clearStale config).Preserves holds := by
  have hreport : (report .warn : Action SessionError PUnit).Preserves holds :=
    fun m h => hreports m [.warn] h
  have hremoved : (Files.removeIfExists config.pidPath).Preserves holds := by
    refine preserves_get_bind fun m h => ?_
    split
    · next disk hdisk => exact hremove m disk h hdisk
    · exact h
    · exact h
  exact hreport.bind fun _ => (hremoved.mapError _).bind fun _ => preserves_pure ()

/-- Making way keeps what reporting and clearing keep. -/
theorem preserves_makeWay {holds : Machine → Prop}
    (hreports : ∀ m reports, holds m → holds (m.reporting reports))
    (hclear : (clearStale config).Preserves holds) : (makeWay config).Preserves holds := by
  refine (preserves_of_onlyReads (reads_status config) hreports).bind fun state => ?_
  cases state with
  | running pid => exact preserves_throw _
  | stale pid => exact hclear
  | closed => exact preserves_pure _

/-- Making way for a session leaves the state directory without links. -/
theorem makeWay_ok (hfree : LinkFree config machine)
    (h : (makeWay config).on machine = (.ok (), after)) :
    after.environment = machine.environment ∧ after.programs = machine.programs ∧
      LinkFree config after := by
  have hpreserves : (makeWay config).Preserves fun m => m.environment = machine.environment ∧
      m.programs = machine.programs ∧ LinkFree config m := by
    refine preserves_makeWay (fun _ _ h => h) (preserves_clearStale (fun _ _ h => h) ?_)
    intro m disk h hremove
    obtain ⟨there, hsettles, -, hbuilds⟩ :=
      Files.remove_settles SessionFile.pid.isName h.2.2 hremove
    exact ⟨h.1, h.2.1, (hsettles.of_builds hbuilds).linkFree⟩
  have hafter := hpreserves machine ⟨rfl, rfl, hfree⟩
  rwa [h] at hafter

/-- Compiling the filters leaves nothing but reports. -/
theorem compiled_of_filters (hindex : index.OnlyReads machine)
    (h : (filters config index).on machine = (.ok set, after)) :
    ∃ reports, after = machine.reporting reports := by
  obtain ⟨reports, hon⟩ :=
    ((reads_compile hindex config.sources).mapError SessionError.source).on_eq
  rw [← filters, h] at hon
  exact ⟨reports, (Prod.mk.inj hon).2⟩

/-- What does not depend on reports is kept by compiling the filter set. -/
theorem preserves_filters {holds : Machine → Prop} (hindex : ∀ m, index.OnlyReads m)
    (hreports : ∀ m reports, holds m → holds (m.reporting reports)) :
    (filters config index).Preserves holds :=
  preserves_of_onlyReads
    (fun m => ((reads_compile (hindex m) config.sources).mapError SessionError.source).onlyReads)
    hreports

/-- The script that a session starts with, in the words of the machine. -/
def shimOf (config : SessionConfig) (executable : Text) (machine : Machine) : Text :=
  Engine.shimText config executable machine.environment.libraries.quote

/-- **Preparing a session**: its files are in the state directory, with the filter set
of the ignore files.  Nothing but these files and their temporary ones is replaced. -/
theorem prepare_ok (hindex : index.OnlyReads machine) (hfree : LinkFree config machine)
    (htag : IsName machine.environment.processTag)
    (h : (prepare config index executable).on machine = (.ok (), after)) :
    ∃ set there, ((filters config index).on machine).1 = .ok set ∧
      after.environment = machine.environment ∧ after.programs = machine.programs ∧
      Settles config after there ∧
      Equipped config set (shimOf config executable machine) there after.disk := by
  simp only [prepare, on_bind_eq_ok, writeFiles, on_mapError_eq_ok, on_get] at h
  obtain ⟨set, compiled, hset, _, shimmed,
    ⟨_, configured, hconfig, _, _, ⟨⟩, hshim⟩, hlock⟩ := h
  obtain ⟨reports, rfl⟩ := compiled_of_filters hindex hset
  have hfree : LinkFree config (machine.reporting reports) := hfree
  obtain ⟨there, hthere, hconfigured, -, hengineConfig⟩ :=
    Files.writeAtomic_ok SessionFile.engineConfig.isName hfree htag hconfig
  obtain ⟨configuredDisk, rfl⟩ : ∃ disk, configured = (machine.reporting reports).withDisk disk :=
    ⟨_, hconfigured⟩
  obtain ⟨there', hthere', hshimmed, hbuilds, hshimFile⟩ :=
    Files.writeExecutable_ok SessionFile.transferShim.isName hthere.linkFree
      htag hshim
  obtain rfl := (hthere.of_builds hbuilds).unique hthere'
  obtain ⟨shimmedDisk, rfl⟩ : ∃ disk, shimmed = (machine.reporting reports).withDisk disk :=
    ⟨_, hshimmed⟩
  obtain ⟨there', hthere'', hlocked, hbuilds', hlockFile⟩ :=
    Files.ensure_ok SessionFile.lock.isName hthere'.linkFree hlock
  obtain rfl := (hthere'.of_builds hbuilds').unique hthere''
  obtain ⟨configFile, hconfigContent, hconfigGet⟩ := hengineConfig
  obtain ⟨shimFile, hshimContent, hexecutable, hshimGet⟩ := hshimFile
  have hshimmedConfig := hbuilds.stays (placeIn there .engineConfig) _
    (not_mem_replaced (by decide) nofun) hconfigGet
  have hconfigStays := hbuilds'.stays (placeIn there .engineConfig) _ (not_mem_place nofun)
    hshimmedConfig
  have hshimStays := hbuilds'.stays (placeIn there .transferShim) _ (not_mem_place nofun) hshimGet
  refine ⟨set, there, by rw [hset], ?_, ?_, ?_, ⟨configFile, hconfigContent, hconfigStays⟩,
    ⟨shimFile, hshimContent, hexecutable, hshimStays⟩, hlockFile⟩
  · rw [hlocked]
    rfl
  · rw [hlocked]
    rfl
  · rw [Settles, hlocked]
    exact hthere''

/-! ## while the engine is at work -/

/-- What holds from the start of the engine on. -/
structure Working (config : SessionConfig) (set : FilterSet) (shim : Text)
    (machine : Machine) (there : Location) (m : Machine) : Prop where
  environment : m.environment = machine.environment
  programs : m.programs = machine.programs
  settles : Settles config m there
  equipped : Equipped config set shim there m.disk

/-- Work that spares the session keeps it working. -/
theorem Working.of_spares {m : Machine} {work : Machine → Machine}
    (h : Working config set shim machine there m) (hspares : Spares config work m) :
    Working config set shim machine there (work m) := by
  have hspared := hspares there h.settles
  exact ⟨hspared.environment.trans h.environment, hspared.programs.trans h.programs,
    h.settles.of_spared hspared, h.equipped.of_builds hspared.builds⟩

/-- One look at the process file while the engine is waited for. -/
theorem run_reportedProcess (config : SessionConfig) (m : Machine) :
    ((reportedProcess config).run m).run =
      match (PidFile.read config.pidPath).on m with
      | (.ok (some pid), after) => (if after.answers pid then some pid else none, after)
      | (_, after) => (none, after) := by
  have hread : ((PidFile.read config.pidPath).run.run m).run = (PidFile.read config.pidPath).on m :=
    rfl
  rw [reportedProcess, StateT.run_bind, Id.run_bind, hread]
  obtain ⟨outcome, after⟩ := (PidFile.read config.pidPath).on m
  cases outcome with
  | error fault => rfl
  | ok pid? => cases pid? <;> rfl

/-- A look tells of a live process in the process file, or of none. -/
theorem reportedProcess_cases (config : SessionConfig) (m : Machine) :
    (∃ pid, Tells config m pid ∧ m.answers pid = true ∧
      ((reportedProcess config).run m).run = (some pid, m)) ∨
    ∃ reports, ((reportedProcess config).run m).run = (none, m.reporting reports) := by
  rw [run_reportedProcess, on_readPid]
  cases hread : m.disk.readText m.environment.cwd config.pidPath with
  | error fault =>
      refine Or.inr ⟨[], ?_⟩
      cases fault <;> simp
  | ok text =>
      cases hpid : PidFile.ofText? text with
      | none => exact Or.inr ⟨[.warn], by simp only [hpid]⟩
      | some pid =>
          cases halive : m.answers pid with
          | true => exact Or.inl ⟨pid, ⟨text, hread, hpid⟩, halive, by simp [hpid, halive]⟩
          | false => exact Or.inr ⟨[], by simp [hpid, halive]⟩

/-- Waiting for the engine takes time, and may add reports. -/
theorem preserves_awaitEngine {holds : Machine → Prop}
    (hreports : ∀ m reports, holds m → holds (m.reporting reports))
    (htime : ∀ m time, holds m → holds (atTime m time)) :
    (awaitEngine clock config).Preserves holds := by
  have hlook : ∀ m, holds m → holds ((reportedProcess config).run m).run.2 := by
    intro m hm
    obtain ⟨pid, -, -, hrun⟩ | ⟨reports, hrun⟩ := reportedProcess_cases config m
    · rwa [hrun]
    · rw [hrun]
      exact hreports m reports hm
  have hkeeps : clock.Keeps (reportedProcess config) holds :=
    ⟨fun _ hm => hm, fun ms m hm => htime m (m.clock + max 1 ms) hm, fun m hm _ => hlook m hm⟩
  refine Preserves.bind (preserves_liftM fun m hm => ?_) fun pid? => ?_
  · exact (Clock.ends_waitFor hkeeps startTimeout pollInterval hm).kept hlook
  · cases pid? with
    | some pid => exact preserves_pure _
    | none => exact preserves_throw _

/-- **Waiting for the engine** ends with the process that the process file tells of. -/
theorem awaitEngine_ok {engine : Action SessionError Unit} {timer : Clock (StateM Machine)}
    (hconfined : Confined config machine engine timer) {launched : Machine}
    (hlaunched : Working config set shim machine there launched)
    (h : (awaitEngine timer config).on launched = (.ok pid, after)) :
    Working config set shim machine there after ∧ Tells config after pid ∧
      after.answers pid = true := by
  have hkeeps : timer.Keeps (reportedProcess config)
      (Working config set shim machine there) := by
    refine ⟨fun m hm => hm.of_spares (hconfined.asked m hm.environment hm.programs),
      fun ms m hm => hm.of_spares (hconfined.slept ms m hm.environment hm.programs),
      fun m hm hnone => ?_⟩
    obtain ⟨pid, -, -, hrun⟩ | ⟨reports, hrun⟩ := reportedProcess_cases config m
    · rw [hrun] at hnone
      cases hnone
    · rw [hrun]
      exact ⟨hm.environment, hm.programs, hm.settles, hm.equipped⟩
  have hends := Clock.ends_waitFor hkeeps startTimeout pollInterval hlaunched
  simp only [awaitEngine, on_bind, on_liftM] at h
  generalize ((timer.waitFor startTimeout pollInterval (reportedProcess config)).run
    launched).run = ending at hends h
  cases hends with
  | refused => cases h
  | @answered asked _ _ hasked hanswer =>
      obtain ⟨pid', htells, halive, hrun⟩ | ⟨reports, hrun⟩ := reportedProcess_cases config asked
      · rw [hrun] at hanswer
        cases hanswer
        cases h
        exact ⟨hasked, htells, halive⟩
      · rw [hrun] at hanswer
        cases hanswer

/-! ## a session that is open -/

section
variable (htells : Tells config machine pid) (halive : machine.answers pid = true)
include htells halive

/-- An open session is not opened again. -/
theorem on_startBy_of_tells (engine : Action SessionError Unit) (timer : Clock (StateM Machine))
    (index : IgnoreIndex) (executable : Text) :
    (startBy engine timer config index executable).on machine =
      (.error (.alreadyOpen config.root pid), machine) := by
  simp only [startBy, on_bind, on_makeWay_of_alive htells halive]

/-- A session whose process answers is open. -/
theorem on_requireOpen_of_tells : (requireOpen config).on machine = (.ok pid, machine) := by
  simp only [requireOpen, on_bind, on_status_of_tells htells, stateOf, halive, if_true, on_pure]

/-- A command in an open session fails only when the remote shell cannot be run. -/
theorem on_run_of_tells {location : Location} {file : File} {words : List Text}
    (hlock : machine.disk.lookup machine.environment.cwd config.lockPath =
      .ok (location, .file file)) (hwords : words ≠ []) (terminal : Bool)
    (onWait : StateM Machine Unit) {error : SessionError}
    (h : ((Remote.run config words terminal onWait).on machine).1 = .error error) :
    ∃ fault, error = .launch config.binaries.ssh fault := by
  simp only [Remote.run, if_neg hwords, on_bind, on_requireOpen_of_tells htells halive,
    on_mapError, Party.on_barrier onWait hlock, mapError_ok] at h
  have hlaunch : ∀ action : Action LaunchFault Ending, (action.mapError (SessionError.launch config.binaries.ssh) >>=
      fun ending => (pure ending.code : Action SessionError Nat)).FailsOnly
      fun error => ∃ fault, error = .launch config.binaries.ssh fault := fun action =>
    (failsOnly_mapError action fun fault => ⟨fault, rfl⟩).bind fun _ => failsOnly_pure _
  split at h
  · exact hlaunch _ _ error h
  · exact hlaunch _ _ error h

end

/-! ## opening -/

/-- What is in the state directory can be read there. -/
theorem lookup_pathOf {m : Machine} (h : Settles config m there) (file : SessionFile) {found : File}
    (hget : m.disk.get? (placeIn there file) = some (.file found)) :
    m.disk.lookup m.environment.cwd (config.pathOf file) = .ok (placeIn there file, .file found) := by
  obtain ⟨links, henters⟩ := h.enters
  exact lookup_name file.isName file.isTooLong_name henters hget

/-- Opening goes from way to prepared files to a working engine. -/
theorem startBy_ok {engine : Action SessionError Unit} {timer : Clock (StateM Machine)}
    (hindex : ∀ m, index.OnlyReads m) (htag : IsName machine.environment.processTag)
    (hfree : LinkFree config machine) (hconfined : Confined config machine engine timer)
    (h : (startBy engine timer config index executable).on machine = (.ok pid, after)) :
    ∃ cleared set there, (makeWay config).on machine = (.ok (), cleared) ∧
      ((filters config index).on cleared).1 = .ok set ∧
      Working config set (shimOf config executable machine) machine there after ∧
      Tells config after pid ∧ after.answers pid = true := by
  simp only [startBy, on_bind_eq_ok] at h
  obtain ⟨_, cleared, hmakeWay, _, ready, hprepare, _, launched, hengine, pid', waited, hawait,
    _, reported, hreport, hpid⟩ := h
  obtain ⟨henvironment, hprograms, hclearedFree⟩ := makeWay_ok hfree hmakeWay
  obtain ⟨set, there, hset, henvironment', hprograms', hsettles, hequipped⟩ :=
    prepare_ok (hindex cleared) hclearedFree (henvironment ▸ htag) hprepare
  rw [shimOf, henvironment] at hequipped
  have hready : Working config set (shimOf config executable machine) machine there ready :=
    ⟨henvironment'.trans henvironment, hprograms'.trans hprograms, hsettles, hequipped⟩
  have hlaunched := hready.of_spares (hconfined.started ready hready.environment hready.programs)
  rw [hengine] at hlaunched
  obtain ⟨hworking, htells, halive⟩ := awaitEngine_ok hconfined hlaunched hawait
  cases hreport
  cases hpid
  exact ⟨cleared, set, there, hmakeWay, hset,
    ⟨hworking.environment, hworking.programs, hworking.settles, hworking.equipped⟩, htells, halive⟩

/-- **A session that was opened can be used.**  It is open with the process that the
opening told of, the engine was started with the filter set of the ignore files, the
script and the lock file are there, it cannot be opened a second time, and a command
passes the check and the barrier. -/
theorem usable_of_startBy {engine : Action SessionError Unit} {timer : Clock (StateM Machine)}
    (hindex : ∀ m, index.OnlyReads m) (htag : IsName machine.environment.processTag)
    (hfree : LinkFree config machine) (hconfined : Confined config machine engine timer)
    (h : (startBy engine timer config index executable).on machine = (.ok pid, after)) :
    (status config).on after = (.ok (.running pid), after) ∧
    (∃ cleared set, (makeWay config).on machine = (.ok (), cleared) ∧
      ((filters config index).on cleared).1 = .ok set ∧
      after.disk.readBytes after.environment.cwd config.engineConfigPath =
        .ok (Engine.configText config set).bytes) ∧
    (∃ location id, after.disk.lookup after.environment.cwd config.shimPath =
      .ok (location, .file ⟨id,
        (Engine.shimText config executable machine.environment.libraries.quote).bytes, 0o755⟩)) ∧
    (∃ location file, after.disk.lookup after.environment.cwd config.lockPath =
      .ok (location, .file file)) ∧
    (∀ engine' timer' index' executable',
      (startBy engine' timer' config index' executable').on after =
        (.error (.alreadyOpen config.root pid), after)) ∧
    ∀ words terminal onWait, words ≠ [] →
      (requireOpen config).on after = (.ok pid, after) ∧
      (∃ pass, ((TransferLock.barrier config.lockPath onWait).on after).1 = .ok pass) ∧
      ∀ error, ((Remote.run config words terminal onWait).on after).1 = .error error →
        ∃ fault, error = .launch config.binaries.ssh fault := by
  obtain ⟨cleared, set, there, hmakeWay, hset, hworking, htells, halive⟩ :=
    startBy_ok hindex htag hfree hconfined h
  obtain ⟨configFile, hconfig, hconfigGet⟩ := hworking.equipped.engineConfig
  obtain ⟨⟨id, content, mode⟩, hshim, hmode, hshimGet⟩ := hworking.equipped.shim
  obtain ⟨lockFile, hlockGet⟩ := hworking.equipped.lock
  have hconfigFound := lookup_pathOf hworking.settles .engineConfig hconfigGet
  have hshimFound := lookup_pathOf hworking.settles .transferShim hshimGet
  have hlockFound := lookup_pathOf hworking.settles .lock hlockGet
  obtain rfl : content = _ := hshim
  obtain rfl : mode = 0o755 := hmode
  refine ⟨status_running_iff.mpr ⟨htells, halive, rfl⟩, ⟨cleared, set, hmakeWay, hset, ?_⟩,
    ⟨_, id, hshimFound⟩, ⟨_, lockFile, hlockFound⟩, on_startBy_of_tells htells halive, ?_⟩
  · rw [← hconfig, readBytes, SessionConfig.engineConfigPath, hconfigFound]
  · intro words terminal onWait hwords
    exact ⟨on_requireOpen_of_tells htells halive, ⟨_, by rw [SessionConfig.lockPath,
      Party.on_barrier onWait hlockFound]⟩,
      fun error => on_run_of_tells htells halive hlockFound hwords terminal onWait⟩

/-- An index of a tree at `/t` that git knows nothing of. -/
def plainIndex : IgnoreIndex := ⟨"/t", pure none, pure []⟩

theorem onlyReads_plainIndex (m : Machine) : plainIndex.OnlyReads m :=
  ⟨onlyReads_pure none, onlyReads_pure []⟩

/-- A machine with that tree, the process file of a dead engine in it, and an engine
that tells of process 41. -/
def staleMachine : Machine where
  disk :=
    { entries :=
        [(["t"], .directory), (["t", ".gitignore"], .file ⟨0, Text.bytes "*.o\n", 0o644⟩),
         (["t", "s"], .directory), (["t", "s", SessionFile.pid.name], .file ⟨1, Text.bytes "7\n", 0o644⟩),
         (["bin"], .directory), (["bin", "lsyncd"], .file ⟨2, ByteArray.empty, 0o755⟩)]
      nextId := 3 }
  programs := [(["bin", "lsyncd"], { writes := some (plainSession.pidPath, "41\n"), starts := [41] })]
  environment := { searchPath := ["/bin"], processTag := "100" }

/-- A stale session is started, is running, and is not started again. -/
theorem usable_of_startBy_stale :
    ∃ after, (start plainSession plainIndex "/opt/tether").on staleMachine = (.ok 41, after) ∧
      (status plainSession).on after = (.ok (.running 41), after) ∧
      (start plainSession plainIndex "/opt/tether").on after =
        (.error (.alreadyOpen plainSession.root 41), after) := by
  have hstart : ((start plainSession plainIndex "/opt/tether").on staleMachine).1 = .ok 41 := by
    decide +kernel
  have hindex : ∀ m, plainIndex.OnlyReads m := fun m => ⟨onlyReads_pure none, onlyReads_pure []⟩
  have htag : IsName staleMachine.environment.processTag :=
    ⟨by decide, by decide, by decide, by decide, by decide⟩
  have hfree : LinkFree plainSession staleMachine :=
    linkFree_of_entries (by simp [staleMachine])
  have hconfined : Confined plainSession staleMachine (startEngine plainSession) clock := by
    refine confined_startEngine fun installed hinstalled path content hwrites => ?_
    obtain rfl := List.mem_singleton.mp hinstalled
    cases hwrites
    exact ⟨.pid, by decide, rfl⟩
  obtain ⟨hopen, -, -, -, hsecond, -⟩ :=
    usable_of_startBy hindex htag hfree hconfined (on_eq_of_fst hstart)
  exact ⟨_, on_eq_of_fst hstart, hopen, hsecond _ _ _ _⟩

end TreeSync.Session
