import TreeSync.Proofs.Machine.Action
import TreeSync.Proofs.Disk.Operation
import TreeSync.Machine.TransferLock

/-!
# TreeSync.Proofs.Machine.Files

What writing whole files leaves behind.

A file that is joined to a path is written in the directory that the path enters,
which is made if it is missing: under its temporary name, and then renamed.  If no
link is in that directory, it holds the file afterwards, and the disk was only built
on (`writeAtomic_ok`, `writeExecutable_ok`, `ensure_ok`).
-/

namespace TreeSync

open TreeSync.Action

namespace Disk

variable {disk disk' : Disk} {cwd : Option Location} {base : Text} {links : Nat}
  {there : Location}

/-- A path enters a directory with no link in it. -/
structure Settles (disk : Disk) (cwd : Option Location) (base : Text) (there : Location) : Prop where
  enters : ∃ links, disk.Enters cwd base links there
  plain : ∀ name target, disk.get? (there ++ [name]) ≠ some (.link target)

/-- A directory stays settled when something is built next to it. -/
theorem Settles.of_builds {places : List Location} (h : disk.Settles cwd base there)
    (hbuilds : Builds places disk disk') : disk'.Settles cwd base there where
  enters := by
    obtain ⟨links, henters⟩ := h.enters
    exact ⟨links, henters.mono hbuilds.keeps⟩
  plain name target hget := h.plain name target (hbuilds.links _ target hget)

/-- There is one place that a directory settles at. -/
theorem Settles.unique {there' : Location} (h : disk.Settles cwd base there)
    (h' : disk.Settles cwd base there') : there = there' := by
  obtain ⟨links, henters⟩ := h.enters
  obtain ⟨links', henters'⟩ := h'.enters
  exact henters.unique henters'

/-- No link is in the directory that a path enters once missing directories are
made. -/
def LinkFree (disk : Disk) (cwd : Option Location) (base : Text) : Prop :=
  ∀ disk' links there, Grows disk disk' → disk'.Enters cwd base links there →
    ∀ name target, disk.get? (there ++ [name]) ≠ some (.link target)

/-- A settled directory has no links in it. -/
theorem Settles.linkFree (h : disk.Settles cwd base there) : disk.LinkFree cwd base := by
  intro disk' links' there' hgrows henters'
  obtain ⟨links, henters⟩ := h.enters
  obtain rfl := (henters.mono hgrows.builds.keeps).unique henters'
  exact h.plain

/-- Making directories settles the path in the one that it enters. -/
theorem LinkFree.settles (h : disk.LinkFree cwd base) (hgrows : Grows disk disk')
    (henters : disk'.Enters cwd base links there) : disk'.Settles cwd base there where
  enters := ⟨links, henters⟩
  plain name target hget :=
    h disk' links there hgrows henters name target (hgrows.builds.links _ target hget)

/-- Growing makes no links. -/
theorem LinkFree.of_grows (h : disk.LinkFree cwd base) (hgrows : Grows disk disk') :
    disk'.LinkFree cwd base := fun disk'' links there hgrows' henters name target hget =>
  h disk'' links there (hgrows.trans hgrows') henters name target
    (hgrows.builds.links _ target hget)

/-- A path that enters a directory is settled there, whatever is built. -/
theorem LinkFree.of_builds {places : List Location} (h : disk.LinkFree cwd base)
    (henters : disk.Enters cwd base links there) (hbuilds : Builds places disk disk') :
    disk'.LinkFree cwd base :=
  ((h.settles (.refl disk) henters).of_builds hbuilds).linkFree

/-- A disk without links has none in any directory. -/
theorem linkFree_of_entries (h : ∀ e ∈ disk.entries, ∀ target, e.2 ≠ .link target) :
    disk.LinkFree cwd base := by
  intro _ _ there _ _ name target hget
  rw [get?_of_ne_nil disk (by simp), entryIn, Option.map_eq_some_iff] at hget
  obtain ⟨e, hfind, hlink⟩ := hget
  exact h e (List.mem_of_find?_eq_some hfind) target hlink

/-- A file that is put somewhere puts no link into the directory, and opens no other
way to it. -/
theorem LinkFree.of_putsFile {location : Location} {file : File} (h : disk.LinkFree cwd base)
    (hputs : PutsFile location file disk disk') : disk'.LinkFree cwd base := by
  intro grown links there hgrows henters name target hget
  obtain ⟨without, hwithout, hkeeps⟩ := hputs.exists_grows hgrows
  exact h without links there hwithout (henters.mono hkeeps) name target
    (hputs.builds.links _ target hget)

/-- A file takes the place of another one, or of nothing. -/
theorem builds_rename {source target : Location} {file : File} (hsource : source ≠ [])
    (htarget : target ≠ []) (hget : disk.get? source = some (.file file))
    (hdirectory : disk.get? target ≠ some .directory)
    (hlink : ∀ text, disk.get? target ≠ some (.link text)) :
    Builds [source, target] disk ((disk.erase source).put target (.file file)) := by
  have hoff : AgreesOff [source, target] disk ((disk.erase source).put target (.file file)) := by
    intro location hnot
    have hne : location ≠ source ∧ location ≠ target := by simpa using hnot
    rw [get?_put _ htarget, if_neg hne.2, get?_erase _ hsource, if_neg hne.1]
  refine hoff.builds (fun place hplace entry hentry => ?_) (fun place hplace text htext => ?_)
  · obtain rfl | rfl : place = source ∨ place = target := by simpa using hplace
    · rw [← Option.some.inj (hget.symm.trans hentry)]
      rfl
    · cases entry with
      | file file => rfl
      | directory => exact absurd hentry hdirectory
      | link text => exact absurd hentry (hlink text)
  · rw [get?_put _ htarget] at htext
    split at htext
    · cases htext
    · next hat =>
        obtain rfl : place = source := by simpa [hat] using hplace
        rw [get?_erase _ hsource, if_pos rfl] at htext
        cases htext

end Disk

namespace Files

open Disk

variable {base name : Text} {content : ByteArray} {machine after : Machine} {there : Location}

/-! ## directories -/

/-- Making directories changes nothing else, also when it fails on the way. -/
theorem makeDirectories_grows (path : Text) (machine : Machine) :
    ∃ disk, Grows machine.disk disk ∧
      ((makeDirectories path).on machine).2 = machine.withDisk disk := by
  refine ⟨(machine.disk.makeDirectories machine.environment.cwd path).2,
    grows_makeDirectories machine.disk path, ?_⟩
  simp only [makeDirectories, on_bind, on_get, on_set]
  split <;> rfl

/-- Making a parent only makes directories. -/
theorem makeParent_grows (path : Text) (machine : Machine) :
    ∃ disk, Grows machine.disk disk ∧ ((makeParent path).on machine).2 = machine.withDisk disk := by
  rw [makeParent]
  split
  · exact ⟨machine.disk, .refl _, rfl⟩
  · exact makeDirectories_grows _ machine

/-! ## the temporary name -/

/-- The name that a file is written under first. -/
def temporaryName (tag name : Text) : Text := "." ++ name ++ "." ++ tag ++ ".tmp"

theorem isName_temporaryName_of_not_mem {tag : Text} (htag : IsName tag) (hslash : '/' ∉ name)
    (hnul : '\x00' ∉ name) : IsName (temporaryName tag name) := by
  have hfree : ∀ c, c ∉ (".".toList ++ ".tmp".toList) → c ∉ name → c ∉ tag →
      c ∉ temporaryName tag name := by
    intro c hrest hcname hctag
    simp only [temporaryName, List.mem_append] at hrest ⊢
    rintro ((((h | h) | h) | h) | h)
    · exact hrest (.inl h)
    · exact hcname h
    · exact hrest (.inl h)
    · exact hctag h
    · exact hrest (.inr h)
  have hlength : 2 < (temporaryName tag name).length := by
    have htail : ".tmp".toList.length = 4 := by decide
    simp only [temporaryName, List.length_append, htail]
    omega
  refine ⟨?_, hfree '/' (by decide) hslash htag.slash,
    hfree '\x00' (by decide) hnul htag.nul, ?_, ?_⟩ <;>
    · intro heq
      rw [heq] at hlength
      contradiction

/-- A temporary name is a name. -/
theorem isName_temporaryName {tag : Text} (htag : IsName tag) (hname : IsName name) :
    IsName (temporaryName tag name) :=
  isName_temporaryName_of_not_mem htag hname.slash hname.nul

/-- The temporary path of a name in a directory is next to it. -/
theorem temporaryPath_join {parent : Text} (tag : Text) (h : IsName name)
    (hparent : Path.parent? (Path.join base name) = some parent) :
    temporaryPath tag (Path.join base name) = Path.join parent (temporaryName tag name) := by
  rw [temporaryPath, Path.fileName?_join base h, Path.withFileName_join base h hparent]
  rfl

/-! ## one change in a directory without links -/

section
variable {disk disk' : Disk} {cwd : Option Location} {tag : Text} (hname : IsName name)
  (hfree : disk.LinkFree cwd base)
include hname hfree

/-- A directory without links is settled once a file in it could be opened. -/
theorem settles_of_openOrCreate {location : Location} {file : File}
    (hopen : disk.openOrCreate cwd (Path.join base name) = .ok (disk', location, file)) :
    ∃ there, disk.Settles cwd base there ∧ location = there ++ [name] := by
  obtain ⟨links, there, henters⟩ := exists_enters_of_openOrCreate hname hopen
  have hsettles := hfree.settles (.refl disk) henters
  exact ⟨there, hsettles, openOrCreate_name hname henters (hsettles.plain _) hopen⟩

/-- A file that is opened is at its name. -/
theorem openOrCreate_settles {location : Location} {file : File}
    (hopen : disk.openOrCreate cwd (Path.join base name) = .ok (disk', location, file)) :
    ∃ there, disk.Settles cwd base there ∧ PutsFile (there ++ [name]) file disk disk' := by
  obtain ⟨there, hsettles, rfl⟩ := settles_of_openOrCreate hname hfree hopen
  exact ⟨there, hsettles, (openOrCreate_ok hopen).1⟩

/-- A file that gets more bytes is at its name. -/
theorem append_settles {more : ByteArray}
    (happend : disk.append cwd (Path.join base name) more = .ok disk') :
    ∃ there file, disk.Settles cwd base there ∧ PutsFile (there ++ [name]) file disk disk' := by
  obtain ⟨opened, location, file, hopen, hputs⟩ := append_ok happend
  obtain ⟨there, hsettles, rfl⟩ := settles_of_openOrCreate hname hfree hopen
  exact ⟨there, _, hsettles, hputs⟩

/-- What is written under the temporary name is there. -/
theorem write_settles (htag : IsName tag)
    (hwrite : disk.write cwd (temporaryPath tag (Path.join base name)) content = .ok disk') :
    ∃ there file, disk.Settles cwd base there ∧ file.content = content ∧
      PutsFile (there ++ [temporaryName tag name]) file disk disk' := by
  obtain ⟨parent, -, hparent, -⟩ := Path.parent?_join base hname
  have htemporary := isName_temporaryName htag hname
  rw [temporaryPath_join tag hname hparent] at hwrite
  obtain ⟨opened, location, file, hopen, hputs⟩ := write_ok hwrite
  obtain ⟨links, there, henters⟩ := exists_enters_of_openOrCreate htemporary hopen
  have hsettles := hfree.settles (.refl disk) ((enters_parent_iff hname hparent).mp henters)
  obtain rfl := openOrCreate_name htemporary henters (hsettles.plain _) hopen
  exact ⟨there, _, hsettles, rfl, hputs⟩

/-- What has the temporary name is a file, and gets the name. -/
theorem rename_settles (htag : IsName tag)
    (hrename : disk.rename cwd (temporaryPath tag (Path.join base name)) (Path.join base name) =
      .ok disk') :
    ∃ there file, disk.Settles cwd base there ∧
      disk.get? (there ++ [temporaryName tag name]) = some (.file file) ∧
      disk'.get? (there ++ [name]) = some (.file file) ∧
      Builds [there ++ [temporaryName tag name], there ++ [name]] disk disk' := by
  obtain ⟨parent, -, hparent, -⟩ := Path.parent?_join base hname
  have htemporary := isName_temporaryName htag hname
  rw [temporaryPath_join tag hname hparent] at hrename
  obtain ⟨_, _, _, there, _, entry, hsource, htarget, hget, hentry, hdirectory, rfl⟩ :=
    rename_ok hrename
  obtain ⟨links, _, henters, hplace⟩ := exists_enters_of_findEnd htemporary hsource
  cases hplace
  obtain ⟨links', _, henters', hplace⟩ := exists_enters_of_findEnd hname htarget
  cases hplace
  obtain rfl := ((enters_parent_iff hname hparent).mp henters).unique henters'
  have hsettles := hfree.settles (.refl disk) henters'
  cases entry with
  | directory => exact absurd rfl hentry
  | link target => exact absurd hget (hsettles.plain _ target)
  | file file =>
      exact ⟨_, file, hsettles, hget, get?_put_self _ (by simp) _,
        builds_rename (by simp) (by simp) hget hdirectory (hsettles.plain _)⟩

/-- What is removed was a file at its name. -/
theorem remove_settles (hremove : disk.remove cwd (Path.join base name) = .ok disk') :
    ∃ there, disk.Settles cwd base there ∧ disk'.get? (there ++ [name]) = none ∧
      Builds [there ++ [name]] disk disk' := by
  obtain ⟨links, there, entry, henters, hget, hentry, rfl⟩ := remove_ok hname hremove
  have hsettles := hfree.settles (.refl disk) henters
  have hne : there ++ [name] ≠ [] := by simp
  have hgone : (disk.erase (there ++ [name])).get? (there ++ [name]) = none := by
    rw [get?_erase _ hne, if_pos rfl]
  refine ⟨there, hsettles, hgone, AgreesOff.builds (fun place hplace => ?_)
    (fun place hplace found hfound => ?_) (fun place hplace target => ?_)⟩
  · rw [get?_erase _ hne, if_neg (by simpa using hplace)]
  · obtain rfl := List.mem_singleton.mp hplace
    obtain rfl := Option.some.inj (hget.symm.trans hfound)
    cases entry with
    | file file => rfl
    | directory => exact absurd rfl hentry
    | link target => exact absurd hget (hsettles.plain _ target)
  · obtain rfl := List.mem_singleton.mp hplace
    rw [hgone]
    nofun

/-- A file is made executable at its name, and a directory stays as it is. -/
theorem makeExecutable_settles
    (hmake : disk.makeExecutable cwd (Path.join base name) = .ok disk') :
    ∃ there, disk.Settles cwd base there ∧
      (disk.get? (there ++ [name]) = some .directory ∧ disk' = disk ∨
        ∃ file, disk.get? (there ++ [name]) = some (.file file) ∧
          PutsFile (there ++ [name]) { file with mode := executableMode } disk disk') := by
  rw [makeExecutable, lookup] at hmake
  cases hfind : disk.find cwd true (Path.join base name) with
  | error fault =>
      rw [hfind] at hmake
      contradiction
  | ok destination =>
      obtain ⟨links, there, henters⟩ := exists_enters_of_find hname hfind
      have hsettles := hfree.settles (.refl disk) henters
      refine ⟨there, hsettles, ?_⟩
      rw [hfind] at hmake
      rw [find_name hname henters (hsettles.plain _)] at hfind
      split at hfind
      · contradiction
      · cases hget : disk.get? (there ++ [name]) with
        | none =>
            simp only [hget] at hfind
            cases hfind
            cases hmake
        | some entry =>
            simp only [hget] at hfind
            cases hfind
            cases entry with
            | directory =>
                cases hmake
                exact .inl ⟨rfl, rfl⟩
            | link target => exact absurd hget (hsettles.plain _ target)
            | file file =>
                cases hmake
                have hstands : PutsFile (there ++ [name]) file disk disk := by
                  refine ⟨by simp, fun entry hentry => ?_, hget, .refl _ _⟩
                  rw [← Option.some.inj (hget.symm.trans hentry)]
                  rfl
                exact .inr ⟨file, rfl, hstands.put _⟩

end

/-! ## writing -/

/-- What is written to the end is on the disk. -/
theorem on_store_ok {path : Text} (h : (store path content).on machine = (.ok (), after)) :
    ∃ disk, machine.disk.write machine.environment.cwd path content = .ok disk ∧
      after = machine.withDisk disk := by
  simp only [store, on_bind, on_get] at h
  split at h
  · exact on_onDisk_eq_ok.mp h
  · cases h
  · simp only [on_bind] at h
    split at h <;> cases h

/-- What got another path has it on the disk. -/
theorem on_move_ok {source target : Text} (h : (move source target).on machine = (.ok (), after)) :
    ∃ disk, machine.disk.rename machine.environment.cwd source target = .ok disk ∧
      after = machine.withDisk disk := by
  simp only [move, on_bind, on_get] at h
  split at h
  · exact on_onDisk_eq_ok.mp h
  · cases h

/-- Storing a file keeps what writing any bytes to it keeps. -/
theorem preserves_store {holds : Machine → Prop} {path : Text}
    (h : ∀ part, (onDisk fun disk cwd => disk.write cwd path part).Preserves holds)
    (content : ByteArray) : (store path content).Preserves holds := by
  refine preserves_get_bind fun m hm => ?_
  cases m.device.write m.disk path content with
  | none => exact h content m hm
  | some failure =>
      cases failure with
      | refused fault => exact hm
      | broken kept fault => exact (h _).bind (fun _ => preserves_throw fault) m hm

/-- Moving a file keeps what renaming it keeps. -/
theorem preserves_move {holds : Machine → Prop} {source target : Text}
    (h : (onDisk fun disk cwd => disk.rename cwd source target).Preserves holds) :
    (move source target).Preserves holds := by
  refine preserves_get_bind fun m hm => ?_
  cases m.device.rename m.disk source target with
  | none => exact h m hm
  | some fault => exact hm

section
variable (hname : IsName name)
  (hfree : machine.disk.LinkFree machine.environment.cwd base)
include hname hfree

/-- **Writing a file in one go**: it stands at its name, with all of its bytes. -/
theorem writeAtomic_ok (htag : IsName machine.environment.processTag)
    (h : (writeAtomic (Path.join base name) content).on machine = (.ok (), after)) :
    ∃ there, after.disk.Settles machine.environment.cwd base there ∧
      after = machine.withDisk after.disk ∧
      Builds [there ++ [temporaryName machine.environment.processTag name], there ++ [name]]
        machine.disk after.disk ∧
      ∃ file, file.content = content ∧ after.disk.get? (there ++ [name]) = some (.file file) := by
  simp only [writeAtomic, on_bind_eq_ok, on_get, naming, on_mapError_eq_ok] at h
  obtain ⟨_, _, hmake, _, _, ⟨⟩, _, _, hstore, hmove⟩ := h
  obtain ⟨written, hwrite, rfl⟩ := on_store_ok hstore
  obtain ⟨renamed, hrename, rfl⟩ := on_move_ok hmove
  obtain ⟨disk, hgrows, hmade⟩ := makeParent_grows (Path.join base name) machine
  rw [hmake] at hmade
  subst hmade
  obtain ⟨there, file, hsettles, hcontent, hputs⟩ :=
    write_settles hname (hfree.of_grows hgrows) htag hwrite
  have hwritten := hsettles.of_builds hputs.builds
  obtain ⟨there', file', hsettles', hsource, htarget, hbuilds⟩ :=
    rename_settles hname hwritten.linkFree htag hrename
  obtain rfl := hwritten.unique hsettles'
  obtain rfl : file' = file := by simpa [hputs.self] using hsource.symm
  refine ⟨there, hsettles'.of_builds hbuilds, rfl,
    (hgrows.builds.trans (hputs.builds.trans hbuilds)).mono fun location hmem => ?_, file', hcontent,
    htarget⟩
  simpa using hmem

/-- **Writing a file that can be run.** -/
theorem writeExecutable_ok {text : Text}
    (htag : IsName machine.environment.processTag)
    (h : (writeExecutable (Path.join base name) text).on machine = (.ok (), after)) :
    ∃ there, after.disk.Settles machine.environment.cwd base there ∧
      after = machine.withDisk after.disk ∧
      Builds [there ++ [temporaryName machine.environment.processTag name], there ++ [name]]
        machine.disk after.disk ∧
      ∃ file, file.content = text.bytes ∧ file.mode = 0o755 ∧
        after.disk.get? (there ++ [name]) = some (.file file) := by
  simp only [writeExecutable, on_bind_eq_ok, naming, on_mapError_eq_ok, on_onDisk_eq_ok] at h
  obtain ⟨_, written, hwrite, disk, hmake, rfl⟩ := h
  obtain ⟨there, hsettles, hwritten, hbuilds, file, hcontent, hget⟩ :=
    writeAtomic_ok hname hfree htag hwrite
  obtain ⟨writtenDisk, rfl⟩ : ∃ disk, written = machine.withDisk disk := ⟨_, hwritten⟩
  obtain ⟨there', hsettles', hmade⟩ := makeExecutable_settles hname hsettles.linkFree hmake
  obtain rfl := hsettles.unique hsettles'
  obtain ⟨hdirectory, -⟩ | ⟨file', hfile, hputs⟩ := hmade
  · exact nomatch hget.symm.trans hdirectory
  obtain rfl : file = file' := Entry.file.inj (Option.some.inj (hget.symm.trans hfile))
  refine ⟨there, hsettles.of_builds hputs.builds, rfl, (hbuilds.trans hputs.builds).mono ?_,
    { file with mode := executableMode }, hcontent, rfl, hputs.self⟩
  intro location hmem
  simpa using hmem

/-- **Making sure of the lock file**: it is there. -/
theorem ensure_ok (h : (TransferLock.ensure (Path.join base name)).on machine = (.ok (), after)) :
    ∃ there, after.disk.Settles machine.environment.cwd base there ∧
      after = machine.withDisk after.disk ∧ Builds [there ++ [name]] machine.disk after.disk ∧
      ∃ file, after.disk.get? (there ++ [name]) = some (.file file) := by
  simp only [TransferLock.ensure, TransferLock.openOrCreate, on_bind, on_get, on_pure] at h
  cases hopen : machine.disk.openOrCreate machine.environment.cwd (Path.join base name) with
  | error fault =>
      rw [hopen] at h
      cases h
  | ok opened =>
      obtain ⟨disk, location, file⟩ := opened
      rw [hopen] at h
      cases h
      obtain ⟨there, hsettles, hputs⟩ := openOrCreate_settles hname hfree hopen
      exact ⟨there, hsettles.of_builds hputs.builds, rfl, hputs.builds, file, hputs.self⟩

end

end Files

end TreeSync
