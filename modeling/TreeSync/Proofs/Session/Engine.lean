import TreeSync.Proofs.Session.Status
import TreeSync.Proofs.Machine.Files

/-!
# TreeSync.Proofs.Session.Engine

What the engine may do to the files of a session, as a change of machines.

1. An engine is confined if it writes nothing but its process file and its log, when
   it is started and while it is waited for (`Confined`); what processes it starts or
   ends is left open.
2. The engine of a session is confined if no installed program writes another file
   (`confined_startEngine`).
-/

namespace TreeSync

/-! ## running a program -/

/-- The disk after a program has run. -/
def Program.written (program : Program) (disk : Disk) : Disk :=
  match program.writes with
  | none => disk
  | some (path, content) =>
      match disk.write none path content.bytes with
      | .ok disk => disk
      | .error _ => disk

/-- Running a program opens no way to a link. -/
theorem Program.linkFree_written {disk : Disk} {cwd : Option Location} {base : Text}
    (h : disk.LinkFree cwd base) (program : Program) :
    (program.written disk).LinkFree cwd base := by
  rw [written]
  split
  · exact h
  · split
    · next hwrite =>
        obtain ⟨opened, location, file, -, hputs⟩ := Disk.write_ok hwrite
        exact h.of_putsFile hputs
    · exact h

/-- A running program changes the disk and the processes. -/
theorem Machine.perform_eq (machine : Machine) (program : Program) :
    ∃ processes, machine.perform program =
      { machine.withDisk (program.written machine.disk) with processes } := by
  have hstarts : ∀ (pids : List Nat) (m : Machine), ∃ processes,
      pids.foldl (fun m pid => m.startProcess pid false) m = { m with processes } := by
    intro pids
    induction pids with
    | nil => exact fun m => ⟨m.processes, rfl⟩
    | cons pid pids ih =>
        intro m
        obtain ⟨processes, heq⟩ := ih (m.startProcess pid false)
        exact ⟨processes, heq⟩
  exact hstarts program.starts (machine.withDisk (program.written machine.disk))

section
variable {machine : Machine} {cwd : Option Location} {found : Location × Program}

/-- A program that is found is installed. -/
theorem mem_of_programAt {path : Text} (h : machine.programAt cwd path = .ok found) :
    found ∈ machine.programs := by
  rw [Machine.programAt] at h
  split at h
  · contradiction
  · split at h
    · split at h
      · next hfind =>
          cases h
          exact List.mem_of_find?_eq_some hfind
      · contradiction
    · contradiction
  · contradiction

/-- A program that is found in a directory is one of the machine. -/
theorem mem_of_searchProgram {name : Text} {fault : DiskFault} {directories : List Text}
    (h : machine.searchProgram cwd name fault directories = .ok found) :
    found ∈ machine.programs := by
  induction directories generalizing fault with
  | nil => contradiction
  | cons directory directories ih =>
      rw [Machine.searchProgram] at h
      split at h
      · next hat =>
          cases h
          exact mem_of_programAt hat
      · exact ih h
      · exact ih h

/-- A program that is found is one of the machine. -/
theorem mem_of_findProgram {name : Text} (h : machine.findProgram cwd name = .ok found) :
    found ∈ machine.programs := by
  rw [Machine.findProgram] at h
  split at h
  · contradiction
  · split at h
    · exact mem_of_programAt h
    · exact mem_of_searchProgram h

end

/-- **Running a program** keeps what the error output and the installed programs keep. -/
theorem preserves_launch {holds : Machine → Prop} {onStderr : Text → Machine → Machine}
    (hlaunches : ∀ m launches, holds m → holds { m with launches })
    (hstderr : ∀ text m, holds m →
      holds (onStderr text m) ∧ (onStderr text m).programs = m.programs)
    (hperform : ∀ m, holds m → ∀ installed ∈ m.programs, holds (m.perform installed.2))
    (cwd : Option Location) (name : Text) (arguments : List Text) :
    (launch cwd name arguments onStderr).Preserves holds := by
  rw [launch]
  split
  · exact Action.preserves_throw _
  · refine Action.preserves_get_bind fun m hm => ?_
    cases hfind : m.findProgram cwd name with
    | error fault => exact hm
    | ok found =>
        obtain ⟨location, program⟩ := found
        have hinstalled := mem_of_findProgram hfind
        simp only [Action.on_bind, Action.on_modify, Action.on_pure]
        -- The launch is noted, then the error output goes where it has to.
        obtain ⟨hlogged, hsame⟩ := hstderr program.stderr _ (hlaunches m _ hm)
        exact hperform _ hlogged (location, program) (by rw [hsame]; exact hinstalled)

/-- Running a program in a directory keeps what running it anywhere does. -/
theorem preserves_launchIn {holds : Machine → Prop} {onStderr : Text → Machine → Machine}
    {name : Text} {arguments : List Text}
    (h : ∀ cwd, (launch cwd name arguments onStderr).Preserves holds) (directory : Text) :
    (launchIn directory name arguments onStderr).Preserves holds := by
  rw [launchIn]
  split
  · exact Action.preserves_throw _
  · refine Action.preserves_get_bind fun m hm => ?_
    cases m.disk.lookup m.environment.cwd directory with
    | error fault => exact hm
    | ok found =>
        obtain ⟨location, entry⟩ := found
        cases entry with
        | directory => exact h (some location) m hm
        | file file => exact hm
        | link target => exact hm

namespace Session

open TreeSync.Action Disk

variable {config : SessionConfig} {machine m m' m'' : Machine} {there : Location}

/-! ## the state directory -/

/-- No link is in the state directory, or will be when it is made. -/
def LinkFree (config : SessionConfig) (machine : Machine) : Prop :=
  machine.disk.LinkFree machine.environment.cwd config.stateDirectory

/-- The state directory is there and holds no link. -/
def Settles (config : SessionConfig) (machine : Machine) (there : Location) : Prop :=
  machine.disk.Settles machine.environment.cwd config.stateDirectory there

/-- Where a file of a session is. -/
def placeIn (there : Location) (file : SessionFile) : Location := there ++ [file.name]

/-- Session files lie in different places. -/
theorem placeIn_injective {file file' : SessionFile} (h : placeIn there file = placeIn there file') :
    file = file' := by
  obtain ⟨-, hname⟩ := List.append_inj' h rfl
  exact SessionFile.name_injective (List.cons.inj hname).1

/-- The files that the engine writes. -/
def engineFiles : List SessionFile := [.pid, .log]

/-- Where they are. -/
def enginePlaces (there : Location) : List Location := engineFiles.map (placeIn there)

/-- The places of the engine are those of its files. -/
theorem placeIn_mem_enginePlaces {file : SessionFile} :
    placeIn there file ∈ enginePlaces there ↔ file ∈ engineFiles := by
  constructor
  · intro hmem
    obtain ⟨file', hfile', heq⟩ := List.mem_map.mp hmem
    rwa [← placeIn_injective heq]
  · exact fun hmem => List.mem_map.mpr ⟨file, hmem, rfl⟩

/-! ## what the engine leaves alone -/

/-- Nothing was written but files of the engine. -/
structure Spared (there : Location) (m m' : Machine) : Prop where
  environment : m'.environment = m.environment
  programs : m'.programs = m.programs
  builds : Builds (enginePlaces there) m.disk m'.disk

theorem Spared.of_disk (henvironment : m'.environment = m.environment)
    (hprograms : m'.programs = m.programs) (hdisk : m'.disk = m.disk) : Spared there m m' :=
  ⟨henvironment, hprograms, by rw [hdisk]; exact (Builds.refl m.disk).mono nofun⟩

theorem Spared.trans (h : Spared there m m') (h' : Spared there m' m'') : Spared there m m'' where
  environment := h'.environment.trans h.environment
  programs := h'.programs.trans h.programs
  builds := (h.builds.trans h'.builds).mono fun _ hmem => (List.mem_append.mp hmem).elim id id

/-- What is spared still has its session directory. -/
theorem Settles.of_spared (h : Settles config m there) (hspared : Spared there m m') :
    Settles config m' there := by
  rw [Settles, hspared.environment]
  exact Disk.Settles.of_builds h hspared.builds

/-- Some work writes nothing but files of the engine, where no link leads elsewhere. -/
def Spares (config : SessionConfig) (work : Machine → Machine) (m : Machine) : Prop :=
  ∀ there, Settles config m there → Spared there m (work m)

/-- **An engine that writes its own files only**, when it is started and while it is
waited for, on every machine with these programs and this environment. -/
structure Confined (config : SessionConfig) (machine : Machine)
    (engine : Action SessionError Unit) (timer : Clock (StateM Machine)) : Prop where
  started : ∀ m, m.environment = machine.environment → m.programs = machine.programs →
    Spares config (fun m => (engine.on m).2) m
  asked : ∀ m, m.environment = machine.environment → m.programs = machine.programs →
    Spares config (fun m => (timer.now.run m).run.2) m
  slept : ∀ ms m, m.environment = machine.environment → m.programs = machine.programs →
    Spares config (fun m => ((timer.sleep ms).run m).run.2) m

/-! ## installed programs -/

/-- A file of the engine that is opened and put. -/
theorem spared_put (hsettles : Settles config m there) {file : SessionFile}
    (hfile : file ∈ engineFiles) {location : Location} {opened : Disk} {found put : File}
    (hopen : m.disk.openOrCreate m.environment.cwd (config.pathOf file) =
      .ok (opened, location, found)) (hputs : PutsFile location put m.disk disk) :
    Spared there m (m.withDisk disk) := by
  obtain ⟨links, henters⟩ := hsettles.enters
  obtain rfl := openOrCreate_name file.isName henters (hsettles.plain _) hopen
  refine ⟨rfl, rfl, hputs.builds.mono fun location hmem => ?_⟩
  rw [List.mem_singleton.mp hmem]
  exact placeIn_mem_enginePlaces.mpr hfile

/-- Adding to the log spares the other files. -/
theorem spared_append (hsettles : Settles config m there) {more : ByteArray}
    (happend : m.disk.append m.environment.cwd config.logPath more = .ok disk) :
    Spared there m (m.withDisk disk) := by
  obtain ⟨opened, location, file, hopen, hputs⟩ := append_ok happend
  exact spared_put hsettles (by decide) hopen hputs

/-- Whether or not the log can be written. -/
theorem spared_appendLog (hsettles : Settles config m there) (text : Text) :
    Spared there m (appendLog config text m) := by
  rw [appendLog]
  split
  · next disk happend => exact spared_append hsettles happend
  · exact .of_disk rfl rfl rfl

/-- The programs of a machine write no files but those of the engine. -/
def WritesOwn (config : SessionConfig) (program : Program) : Prop :=
  ∀ path content, program.writes = some (path, content) →
    ∃ file ∈ engineFiles, path = config.pathOf file

/-- So does a program that writes to its own files only. -/
theorem spared_perform (hsettles : Settles config m there) {program : Program}
    (hwrites : WritesOwn config program) : Spared there m (m.perform program) := by
  obtain ⟨processes, heq⟩ := m.perform_eq program
  rw [heq]
  have hwritten : Spared there m (m.withDisk (program.written m.disk)) := by
    rw [Program.written]
    split
    · exact .of_disk rfl rfl rfl
    · next path content hpath =>
        obtain ⟨file, hfile, rfl⟩ := hwrites path content hpath
        split
        · next disk hwrite =>
            obtain ⟨opened, location, found, hopen, hputs⟩ := write_ok hwrite
            exact spared_put hsettles hfile (openOrCreate_of_none hopen) hputs
        · exact .of_disk rfl rfl rfl
  exact ⟨hwritten.environment, hwritten.programs, hwritten.builds⟩

section
variable (hsettles : Settles config machine there)
  (hprograms : ∀ installed ∈ machine.programs, WritesOwn config installed.2)
include hsettles

theorem preserves_openLog : (openLog config).Preserves (Spared there machine) := by
  refine Preserves.mapError (Preserves.mapError (preserves_onDisk fun m disk h hdisk => ?_) _) _
  exact h.trans (spared_append (hsettles.of_spared h) hdisk)

include hprograms

/-- A launch with its output in the log spares them. -/
theorem preserves_launchLogged (cwd : Option Location) (name : Text) (arguments : List Text) :
    (launch cwd name arguments (appendLog config)).Preserves (Spared there machine) := by
  refine preserves_launch (fun m launches h => ⟨h.environment, h.programs, h.builds⟩)
    (fun text m h => ?_) (fun m h installed hinstalled => ?_) cwd name arguments
  · have hlog := spared_appendLog (hsettles.of_spared h) text
    exact ⟨h.trans hlog, hlog.programs⟩
  · rw [h.programs] at hinstalled
    exact h.trans (spared_perform (hsettles.of_spared h) (hprograms installed hinstalled))

/-- And so does running the engine. -/
theorem preserves_runEngine : (runEngine config).Preserves (Spared there machine) := by
  refine Preserves.bind (Preserves.mapError (preserves_launchIn
    (fun cwd => preserves_launchLogged hsettles hprograms cwd _ _) _) _) fun ending => ?_
  split
  · exact preserves_throw _
  · exact preserves_pure _

end

/-- **The engine is confined** if no installed program writes other files. -/
theorem confined_startEngine
    (hprograms : ∀ installed ∈ machine.programs, WritesOwn config installed.2) :
    Confined config machine (startEngine config) clock where
  started m _ hsame there hsettles := by
    have hwrites := hsame.symm ▸ hprograms
    exact (preserves_openLog hsettles).bind (fun _ => preserves_runEngine hsettles hwrites) m
      (.of_disk rfl rfl rfl)
  asked _ _ _ _ _ := .of_disk rfl rfl rfl
  slept _ _ _ _ _ _ := .of_disk rfl rfl rfl

end Session

end TreeSync
