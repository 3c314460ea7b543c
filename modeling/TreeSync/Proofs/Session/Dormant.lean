import TreeSync.Proofs.Session.Writing

/-!
# TreeSync.Proofs.Session.Dormant

A session that is not open does not open by itself.

1. When directories are made, a process file may come into reach whose path leads through
   one of them and back.  So a session is called dormant if it is not open whatever
   directories are made (`Dormant`).
2. Whatever an opening does before it launches the engine leaves the session dormant, also
   when it fails (`dormant_clearStale`, `dormant_prepare`).
-/

namespace TreeSync.Session

open TreeSync.Action Disk

variable {config : SessionConfig} {index : IgnoreIndex} {executable : Text}
  {m machine after : Machine} {there : Location} {pid : Nat} {disk : Disk}

/-- What the process file tells in a state directory without links. -/
theorem tells_iff_of_settles (h : Settles config m there) :
    Tells config m pid ↔ ∃ file text, m.disk.get? (placeIn there .pid) = some (.file file) ∧
      Text.ofBytes? file.content = some text ∧ PidFile.ofText? text = some pid := by
  obtain ⟨links, henters⟩ := h.enters
  have hread : ∀ text, m.disk.readText m.environment.cwd config.pidPath = .ok text ↔
      ∃ file, m.disk.get? (placeIn there .pid) = some (.file file) ∧
        Text.ofBytes? file.content = some text := fun _ =>
    readText_name_eq_ok_iff SessionFile.pid.isName SessionFile.pid.isTooLong_name henters
      (h.plain _)
  constructor
  · rintro ⟨text, htext, hpid⟩
    obtain ⟨file, hget, hbytes⟩ := (hread text).mp htext
    exact ⟨file, text, hget, hbytes, hpid⟩
  · rintro ⟨file, text, hget, hbytes, hpid⟩
    exact ⟨text, (hread text).mpr ⟨file, hget, hbytes⟩, hpid⟩

/-- Where no file is new, nothing new is told. -/
theorem tells_of_settles (h : Settles config m there) (h' : Settles config after there)
    (hfile : ∀ file, after.disk.get? (placeIn there .pid) = some (.file file) →
      m.disk.get? (placeIn there .pid) = some (.file file)) (htells : Tells config after pid) :
    Tells config m pid := by
  obtain ⟨file, text, hget, hread⟩ := (tells_iff_of_settles h').mp htells
  exact (tells_iff_of_settles h).mpr ⟨file, text, hfile file hget, hread⟩

/-- **No session is open**, and none will be when missing directories are made. -/
structure Dormant (config : SessionConfig) (m : Machine) : Prop where
  tag : IsName m.environment.processTag
  free : LinkFree config m
  quiet : ∀ disk, Grows m.disk disk → ∀ pid, Tells config (m.withDisk disk) pid →
    m.answers pid = false

namespace Dormant

theorem not_running (h : Dormant config m) (pid : Nat) :
    ((status config).on m).1 ≠ .ok (.running pid) := by
  intro hstatus
  obtain ⟨htells, halive, -⟩ := status_running_iff.mp (on_eq_of_fst hstatus)
  have hdead := h.quiet m.disk (.refl _) pid htells
  rw [halive] at hdead
  contradiction

theorem of_grows (h : Dormant config m) (hgrows : Grows m.disk disk) :
    Dormant config (m.withDisk disk) where
  tag := h.tag
  free := Disk.LinkFree.of_grows h.free hgrows
  quiet disk' hgrows' pid htells := h.quiet disk' (hgrows.trans hgrows') pid htells

theorem settles (h : Dormant config m) {links : Nat}
    (henters : m.disk.Enters m.environment.cwd config.stateDirectory links there) :
    Settles config m there :=
  h.free.settles (.refl _) henters

/-- Where the state directory is, the process file decides. -/
theorem of_settles (htag : IsName m.environment.processTag) (h : Settles config m there)
    (hdead : ∀ pid, Tells config m pid → m.answers pid = false) : Dormant config m where
  tag := htag
  free := h.linkFree
  quiet disk hgrows pid htells := by
    have h' : Settles config (m.withDisk disk) there := Disk.Settles.of_builds h hgrows.builds
    refine hdead pid (tells_of_settles h h' (fun file hget => ?_) htells)
    exact (hgrows.new _ _ hget).resolve_right nofun

/-- What is built elsewhere opens no session. -/
theorem of_builds (h : Dormant config m) (hsettles : Settles config m there)
    {places : List Location} (hbuilds : Builds places m.disk disk)
    (hpid : placeIn there .pid ∉ places) : Dormant config (m.withDisk disk) := by
  have hsettles' : Settles config (m.withDisk disk) there :=
    Disk.Settles.of_builds hsettles hbuilds
  refine .of_settles h.tag hsettles' fun pid htells => h.quiet m.disk (.refl _) pid ?_
  refine tells_of_settles hsettles hsettles' (fun file hget => ?_) htells
  exact (hbuilds.new _ _ hpid hget).resolve_right nofun

/-- Removing the process file opens no session. -/
theorem of_remove (h : Dormant config m)
    (hremove : m.disk.remove m.environment.cwd config.pidPath = .ok disk) :
    Dormant config (m.withDisk disk) := by
  obtain ⟨there, hsettles, hgone, hbuilds⟩ :=
    Files.remove_settles SessionFile.pid.isName h.free hremove
  have hsettles' : Settles config (m.withDisk disk) there := hsettles.of_builds hbuilds
  refine .of_settles h.tag hsettles' fun pid htells => ?_
  obtain ⟨file, -, hfile, -⟩ := (tells_iff_of_settles hsettles').mp htells
  exact nomatch hgone.symm.trans hfile

theorem reporting (h : Dormant config m) (reports : List Level) :
    Dormant config (m.reporting reports) := ⟨h.tag, h.free, h.quiet⟩

end Dormant

/-! ## what an opening does before it starts the engine -/

/-- **Clearing a stale session away** opens none. -/
theorem dormant_clearStale : (clearStale config).Preserves (Dormant config) :=
  preserves_clearStale (fun _ reports h => h.reporting reports) fun _ _ h => h.of_remove

theorem withstands_dormant : Withstands config .pid (Dormant config) where
  undotted := by decide
  tag _ h := h.tag
  free _ h := h.free
  reporting _ reports h := h.reporting reports
  grows _ _ h := h.of_grows
  builds _ _ _ _ h hsettles hbuilds := h.of_builds hsettles hbuilds

/-- **Preparing a session** does not open it, also when it fails on the way. -/
theorem dormant_prepare (hindex : ∀ m, index.OnlyReads m) (executable : Text) :
    (prepare config index executable).Preserves (Dormant config) :=
  withstands_dormant.prepare nofun nofun (withstands_dormant.openOrCreate nofun) hindex executable

end TreeSync.Session
