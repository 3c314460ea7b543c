import TreeSync.Proofs.Session.Opening

/-!
# TreeSync.Proofs.Session.Writing

What stays while the files of a session are written.

1. Something withstands all changes but those of one file if directories may be made
   anywhere, and files be put and removed at other places of a state directory without
   links (`Withstands`).
2. Then it stays whenever another file is written, appended to, opened or removed, also
   when that fails on the way.
3. Preparing a session keeps it as well, if opening the lock file does
   (`Withstands.prepare`).
-/

namespace TreeSync.Session

open TreeSync.Action Disk

variable {config : SessionConfig} {index : IgnoreIndex} {file other : SessionFile}
  {holds : Machine → Prop}

/-- **What withstands all changes but those of one file** of a session. -/
structure Withstands (config : SessionConfig) (file : SessionFile) (holds : Machine → Prop) :
    Prop where
  /-- The file has no temporary name. -/
  undotted : file.name.head? ≠ some '.'
  tag : ∀ m, holds m → IsName m.environment.processTag
  free : ∀ m, holds m → LinkFree config m
  reporting : ∀ m reports, holds m → holds (m.reporting reports)
  grows : ∀ m disk, holds m → Grows m.disk disk → holds (m.withDisk disk)
  builds : ∀ m disk there places, holds m → Settles config m there → Builds places m.disk disk →
    placeIn there file ∉ places → holds (m.withDisk disk)

namespace Withstands

variable (h : Withstands config file holds)
include h

theorem report {ε : Type} (level : Level) :
    (Action.report level : Action ε PUnit).Preserves holds := fun m hm => h.reporting m [level] hm

theorem status : (Session.status config).Preserves holds :=
  preserves_of_onlyReads (reads_status config) h.reporting

/-! ## single changes -/

/-- A change of the disk that builds elsewhere in the session directory keeps the
file. -/
theorem onDisk {f : Disk → Option Location → Except DiskFault Disk}
    (hbuild : ∀ m disk, holds m → f m.disk m.environment.cwd = .ok disk →
      ∃ there places, Settles config m there ∧ placeIn there file ∉ places ∧
        Builds places m.disk disk) : (Action.onDisk f).Preserves holds := by
  refine preserves_onDisk fun m disk hm hdisk => ?_
  obtain ⟨there, places, hsettles, hplace, hbuilds⟩ := hbuild m disk hm hdisk
  exact h.builds m disk there places hm hsettles hbuilds hplace

/-- Making the session directory keeps the file. -/
theorem makeParent (other : SessionFile) :
    (Files.makeParent (config.pathOf other)).Preserves holds := by
  intro m hm
  obtain ⟨disk, hgrows, hmade⟩ := Files.makeParent_grows (config.pathOf other) m
  rw [hmade]
  exact h.grows m disk hm hgrows

/-- So does writing a temporary file, which has a name of its own. -/
theorem write {tag : Text} (htag : IsName tag) (other : SessionFile) (content : ByteArray) :
    (Action.onDisk fun disk cwd =>
      disk.write cwd (Files.temporaryPath tag (config.pathOf other)) content).Preserves holds := by
  refine h.onDisk fun m disk hm hdisk => ?_
  obtain ⟨there, found, hsettles, -, hputs⟩ :=
    Files.write_settles other.isName (h.free m hm) htag hdisk
  refine ⟨there, _, hsettles, ?_, hputs.builds⟩
  rw [List.mem_singleton]
  exact placeIn_ne_temporary h.undotted _ _

variable (hother : file ≠ other)
include hother

/-- Moving a temporary file to its place keeps every other file. -/
theorem rename {tag : Text} (htag : IsName tag) :
    (Action.onDisk fun disk cwd => disk.rename cwd
      (Files.temporaryPath tag (config.pathOf other)) (config.pathOf other)).Preserves holds := by
  refine h.onDisk fun m disk hm hdisk => ?_
  obtain ⟨there, found, hsettles, -, -, hbuilds⟩ :=
    Files.rename_settles other.isName (h.free m hm) htag hdisk
  exact ⟨there, _, hsettles, not_mem_replaced h.undotted hother, hbuilds⟩

theorem makeExecutable :
    (Action.onDisk fun disk cwd => disk.makeExecutable cwd (config.pathOf other)).Preserves
      holds := by
  refine h.onDisk fun m disk hm hdisk => ?_
  obtain ⟨there, hsettles, ⟨-, rfl⟩ | ⟨found, -, hputs⟩⟩ :=
    Files.makeExecutable_settles other.isName (h.free m hm) hdisk
  · exact ⟨there, [], hsettles, List.not_mem_nil, .refl _⟩
  · exact ⟨there, _, hsettles, not_mem_place hother, hputs.builds⟩

theorem append (more : ByteArray) :
    (Action.onDisk fun disk cwd => disk.append cwd (config.pathOf other) more).Preserves
      holds := by
  refine h.onDisk fun m disk hm hdisk => ?_
  obtain ⟨there, found, hsettles, hputs⟩ :=
    Files.append_settles other.isName (h.free m hm) hdisk
  exact ⟨there, _, hsettles, not_mem_place hother, hputs.builds⟩

theorem openOrCreate :
    (TransferLock.openOrCreate (config.pathOf other)).Preserves holds := by
  refine preserves_get_bind fun m hm => ?_
  split
  · next disk location found hopen =>
      obtain ⟨there, hsettles, hputs⟩ :=
        Files.openOrCreate_settles other.isName (h.free m hm) hopen
      exact h.builds m disk there _ hm hsettles hputs.builds (not_mem_place hother)
  · exact hm

theorem removeIfExists :
    (Files.removeIfExists (config.pathOf other)).Preserves holds := by
  refine preserves_get_bind fun m hm => ?_
  split
  · next disk hremove =>
      obtain ⟨there, hsettles, -, hbuilds⟩ :=
        Files.remove_settles other.isName (h.free m hm) hremove
      exact h.builds m disk there _ hm hsettles hbuilds (not_mem_place hother)
  · exact hm
  · exact hm

/-! ## whole files and operations -/

/-- **Replacing another session file** keeps the file, however far it comes. -/
theorem writeAtomic (content : ByteArray) :
    (Files.writeAtomic (config.pathOf other) content).Preserves holds := by
  refine (h.makeParent other).bind fun _ => preserves_get_bind fun m hm => ?_
  have htag := h.tag m hm
  exact ((Files.preserves_store (h.write htag other) content).mapError _).bind
    (fun _ => (Files.preserves_move (h.rename hother htag)).mapError _) m hm

/-- So does writing the shim. -/
theorem writeExecutable (content : Text) :
    (Files.writeExecutable (config.pathOf other) content).Preserves holds :=
  (h.writeAtomic hother _).bind fun _ => (h.makeExecutable hother).mapError _

omit hother

/-- **Clearing a stale session away** keeps what withstands it. -/
theorem clearStale (hpid : file ≠ .pid) : (Session.clearStale config).Preserves holds :=
  (h.report .warn).bind fun _ => ((h.removeIfExists hpid).mapError _).bind fun _ => preserves_pure ()

/-- **Preparing a session** keeps what withstands it and the opening of the lock file,
also when it fails on the way. -/
theorem prepare (hconfig : file ≠ .engineConfig) (hshim : file ≠ .transferShim)
    (hlock : (TransferLock.openOrCreate config.lockPath).Preserves holds)
    (hindex : ∀ m, index.OnlyReads m) (executable : Text) :
    (Session.prepare config index executable).Preserves holds := by
  have hfiles : ∀ set, (writeFiles config set executable).Preserves holds := fun set =>
    ((h.writeAtomic hconfig _).bind fun _ => preserves_get_bind fun m hm =>
      h.writeExecutable hshim _ m hm).mapError _
  have hensure : (TransferLock.ensure config.lockPath).Preserves holds :=
    hlock.bind fun _ => preserves_pure ()
  exact (preserves_filters hindex h.reporting).bind fun set => (hfiles set).bind
    fun _ => hensure.mapError _

end Withstands

end TreeSync.Session
