import TreeSync.Proofs.Disk.Replacement
import TreeSync.Proofs.Machine.Files

/-!
# TreeSync.Proofs.Machine.Atomic

What writing a file leaves on a disk, whatever the path looks like and whether it
succeeds or not.

1. The parents of the path are made (`makes_ready`).
2. The temporary file is written; where nothing stood it is the only change
   (`Begins.exists_written`).  The device may refuse the file, or take only the first bytes.
3. It is renamed; the place that the path names gets the file and the temporary name is
   free again (`Written.renamed`).  The device may refuse that as well.

Nothing else is ever changed, and the path gets all of the content or keeps what it had,
wherever the device fails (`writeAtomic_all_or_nothing`).  Nothing takes the temporary file
back, so it is left exactly where it is begun and the device fails after that, or the path
can be taken by no file (`leavesTemporary_iff`).
-/

namespace TreeSync

open TreeSync.Action

/-! ## the last name of a path -/

namespace Path

/-- The last name of a path is one of its pieces. -/
theorem mem_pieces_of_split? {path parent name : Text} (h : split? path = some (parent, name)) :
    name ∈ Text.pieces '/' path := by
  rw [split?] at h
  split at h
  · contradiction
  · next first rest hpieces =>
      rw [hpieces]
      split at h
      · next last before hlast =>
          cases h
          obtain ⟨run, hrun, -⟩ := eq_dropEnd_append isIdle rest
          have hmem : name ∈ dropEnd isIdle rest := by
            rw [← List.mem_reverse, hlast]
            exact List.mem_cons_self
          rw [hrun]
          exact List.mem_cons_of_mem _ (List.mem_append_left _ hmem)
      · split at h
        · contradiction
        · cases h
          exact List.mem_cons_self

/-- The last name of a path, or nothing, holds no slash. -/
theorem slash_not_mem_fileName? (path : Text) : '/' ∉ (fileName? path).getD [] := by
  rw [fileName?]
  split
  · next hsplit =>
      split
      · exact List.not_mem_nil
      · exact Text.not_mem_of_mem_pieces (mem_pieces_of_split? hsplit)
  · exact List.not_mem_nil

end Path

namespace Files

open Disk

variable {path : Text} {content : ByteArray} {machine after : Machine} {written : Disk}

/-! ## the temporary name -/

/-- The path of the directory that the temporary file is written in. -/
def temporaryDirectory (path : Text) : Text :=
  match Path.fileName? path, Path.parent? path with
  | some _, some parent => parent
  | _, _ => path

/-- The temporary name for a path; one without a last name has a temporary name, too. -/
def temporaryNameOf (tag path : Text) : Text :=
  temporaryName tag ((Path.fileName? path).getD [])

/-- The temporary path is a name in the directory of the path. -/
theorem temporaryPath_eq (tag path : Text) :
    temporaryPath tag path = Path.join (temporaryDirectory path) (temporaryNameOf tag path) := by
  simp only [temporaryPath, Path.withFileName, temporaryDirectory, temporaryNameOf, temporaryName]
  cases Path.fileName? path <;> cases Path.parent? path <;> rfl

/-- The temporary name is longer than the name. -/
theorem length_lt_temporaryName (tag name : Text) :
    name.length < (temporaryName tag name).length := by
  have htail : ".tmp".toList.length = 4 := by decide
  simp only [temporaryName, List.length_append, htail]
  omega

/-- A temporary name is a name, unless it holds what no path can hold. -/
theorem isName_temporaryNameOf {tag : Text} (htag : IsName tag) (path : Text) :
    IsName (temporaryNameOf tag path) ∨ '\x00' ∈ temporaryPath tag path := by
  by_cases hnul : '\x00' ∈ (Path.fileName? path).getD []
  · refine .inr ?_
    have hmem : '\x00' ∈ temporaryNameOf tag path := by
      simp [temporaryNameOf, temporaryName, hnul]
    rw [temporaryPath_eq, Path.join]
    split
    · exact hmem
    · split
      · exact List.mem_append_right _ hmem
      · exact List.mem_append_right _ (List.mem_cons_of_mem _ hmem)
  · exact .inl (isName_temporaryName_of_not_mem htag (Path.slash_not_mem_fileName? path) hnul)

/-- Where the temporary name of a path with a last name is short enough, so is that name. -/
theorem isTooLong_of_temporaryNameOf {tag base name : Text} (hname : IsName name)
    (h : isTooLong (temporaryNameOf tag (Path.join base name)) = false) :
    isTooLong name = false := by
  rw [temporaryNameOf, Path.fileName?_join base hname] at h
  have hdotted := (isTooLong_append_eq_false (isTooLong_append_eq_false
    (isTooLong_append_eq_false h).1).1).1
  exact (isTooLong_append_eq_false hdotted).2

/-! ## the stages of writing -/

/-- The disk that a file is written on: the parents of its path are made, as far as they
can be. -/
def ready (path : Text) (machine : Machine) : Disk := ((makeParent path).on machine).2.disk

/-- The place that the path of a file names when the file is written. -/
def place? (path : Text) (machine : Machine) : Option Location :=
  (ready path machine).placeOf? machine.environment.cwd path

/-- The place that the temporary name leads to when the file is written. -/
def temporaryPlace? (path : Text) (machine : Machine) : Option Location :=
  (ready path machine).placeOf? machine.environment.cwd
    (temporaryPath machine.environment.processTag path)

/-- Making the parents leaves the disk with them, made or not. -/
theorem makeParent_snd (path : Text) (machine : Machine) :
    ((makeParent path).on machine).2 = machine.withDisk (ready path machine) := by
  obtain ⟨disk, -, hmade⟩ := makeParent_grows path machine
  rw [ready, hmade]
  rfl

/-- **The parents of a path are made**, and nothing else. -/
theorem makes_ready (path : Text) (machine : Machine) :
    Makes (Path.IsAbove · path) machine.environment.cwd machine.disk (ready path machine) := by
  rw [ready, makeParent]
  split
  · exact .refl _ _
  · next parent hparent =>
      have hdisk : ((makeDirectories parent).on machine).2.disk =
          (machine.disk.makeDirectories machine.environment.cwd parent).2 := by
        simp only [makeDirectories, on_bind, on_get, on_set]
        split <;> rfl
      rw [hdisk]
      exact (makes_makeDirectories machine.disk parent).mono fun above habove =>
        Path.isAbove_of_parent? hparent habove

/-- What is free once the parents are made was free before. -/
theorem get?_eq_none_of_ready {location : Location}
    (h : (ready path machine).get? location = none) : machine.disk.get? location = none := by
  cases hget : machine.disk.get? location with
  | none => rfl
  | some entry =>
      rw [(makes_ready path machine).grows.stays location entry hget] at h
      contradiction

/-- How the device fails when the temporary file of a path is written, if it does. -/
def writeFailure (path : Text) (content : ByteArray) (machine : Machine) : Option WriteFailure :=
  machine.device.write (ready path machine) (temporaryPath machine.environment.processTag path)
    content

/-- What gets into a file that some bytes are written to, if it is opened at all. -/
def part? (content : ByteArray) : Option WriteFailure → Option ByteArray
  | none => some content
  | some (.refused _) => none
  | some (.broken kept _) => some (content.extract 0 kept)

/-- The parents of a path are made and its temporary file is begun: it is opened, and what the
device takes is written. -/
def Begins (path : Text) (content : ByteArray) (machine : Machine) (written : Disk) : Prop :=
  ((makeParent path).on machine).1 = .ok () ∧
    ∃ part, part? content (writeFailure path content machine) = some part ∧
      (ready path machine).write machine.environment.cwd
        (temporaryPath machine.environment.processTag path) part = .ok written

/-- The device takes all bytes of the temporary file, and lets it be renamed. -/
def Bears (path : Text) (content : ByteArray) (machine : Machine) (written : Disk) : Prop :=
  writeFailure path content machine = none ∧
    machine.device.rename written (temporaryPath machine.environment.processTag path) path = none

/-- What bears the content in full has no part of it only. -/
theorem Bears.eq_content {part : ByteArray} (h : Bears path content machine written)
    (hpart : part? content (writeFailure path content machine) = some part) : part = content := by
  rw [h.1] at hpart
  exact (Option.some.inj hpart).symm

/-- Nothing is stored where nothing can be written. -/
theorem on_store_of_forall_ne
    (h : ∀ part written, part? content (machine.device.write machine.disk path content) = some part →
      machine.disk.write machine.environment.cwd path part ≠ .ok written) :
    ∃ fault, (store path content).on machine = (.error fault, machine) := by
  have hon : ∀ part, part? content (machine.device.write machine.disk path content) = some part →
      ∃ fault, (onDisk fun disk cwd => disk.write cwd path part).on machine =
        (.error fault, machine) := by
    intro part hpart
    rw [on_onDisk]
    cases hwrite : machine.disk.write machine.environment.cwd path part with
    | error fault => exact ⟨fault, rfl⟩
    | ok written => exact absurd hwrite (h part written hpart)
  simp only [store, on_bind, on_get]
  cases hfailure : machine.device.write machine.disk path content with
  | none => exact hon content (by rw [hfailure]; rfl)
  | some failure =>
      cases failure with
      | refused fault => exact ⟨fault, rfl⟩
      | broken kept fault =>
          obtain ⟨fault', hfault⟩ := hon (content.extract 0 kept) (by rw [hfailure]; rfl)
          simp only [on_bind, hfault]
          exact ⟨fault', rfl⟩

/-- What the device takes of a file is stored, and all of it exactly if nothing fails. -/
theorem on_store_of_write {part : ByteArray}
    (hpart : part? content (machine.device.write machine.disk path content) = some part)
    (hwrite : machine.disk.write machine.environment.cwd path part = .ok written) :
    ∃ outcome, (store path content).on machine = (outcome, machine.withDisk written) ∧
      (outcome = .ok () ↔ machine.device.write machine.disk path content = none) := by
  have hon : (onDisk fun disk cwd => disk.write cwd path part).on machine =
      (.ok (), machine.withDisk written) :=
    on_onDisk_eq_ok.mpr ⟨written, hwrite, rfl⟩
  simp only [store, on_bind, on_get]
  cases hfailure : machine.device.write machine.disk path content with
  | none =>
      rw [hfailure] at hpart
      cases hpart
      exact ⟨_, hon, by simp⟩
  | some failure =>
      rw [hfailure] at hpart
      cases failure with
      | refused fault => cases hpart
      | broken kept fault =>
          cases hpart
          exact ⟨.error fault, by simp only [on_bind, hon, on_throw], by simp⟩

/-- A file whose temporary file is not begun leaves the parents that were made. -/
theorem on_writeAtomic_of_not_begins (h : ∀ written, ¬ Begins path content machine written) :
    ∃ error, (writeAtomic path content).on machine =
      (.error error, machine.withDisk (ready path machine)) := by
  have hsnd := makeParent_snd path machine
  simp only [writeAtomic, on_bind]
  cases hmake : (makeParent path).on machine with
  | mk outcome made =>
      rw [hmake] at hsnd
      subst hsnd
      cases outcome with
      | error error => exact ⟨error, rfl⟩
      | ok _ =>
          have hnot : ∀ part written', part? content (writeFailure path content machine) = some part →
              (ready path machine).write machine.environment.cwd
                (temporaryPath machine.environment.processTag path) part ≠ .ok written' :=
            fun part written' hpart hwrite => h written' ⟨by rw [hmake], part, hpart, hwrite⟩
          obtain ⟨fault, hstore⟩ : ∃ fault,
              (store (temporaryPath machine.environment.processTag path) content).on
                (machine.withDisk (ready path machine)) =
                  (.error fault, machine.withDisk (ready path machine)) :=
            on_store_of_forall_ne hnot
          simp only [on_get, naming, on_mapError, Machine.environment_withDisk, hstore]
          exact ⟨_, rfl⟩

/-- What is done up to the renaming, once the temporary file is begun. -/
theorem on_writeAtomic_of_begins (h : Begins path content machine written) :
    ∃ outcome, (outcome = .ok () ↔ writeFailure path content machine = none) ∧
      (writeAtomic path content).on machine =
        match (outcome : Except DiskFault Unit) with
        | .ok () => (naming path (move (temporaryPath machine.environment.processTag path) path)).on
            (machine.withDisk written)
        | .error fault =>
            (.error (.io (temporaryPath machine.environment.processTag path) fault),
              machine.withDisk written) := by
  obtain ⟨hmake, part, hpart, hwrite⟩ := h
  have hmade := on_eq_of_fst hmake
  rw [makeParent_snd] at hmade
  obtain ⟨outcome, hstore, hok⟩ : ∃ outcome,
      (store (temporaryPath machine.environment.processTag path) content).on
        (machine.withDisk (ready path machine)) = (outcome, machine.withDisk written) ∧
      (outcome = .ok () ↔ writeFailure path content machine = none) :=
    on_store_of_write hpart hwrite
  refine ⟨outcome, hok, ?_⟩
  rw [writeAtomic, on_bind, hmade]
  simp only [on_bind, on_get, Machine.environment_withDisk]
  rw [naming, on_mapError, hstore]
  cases outcome <;> rfl

/-- A temporary file that the device bears gets its name or stays. -/
theorem on_writeAtomic_of_bears (h : Begins path content machine written)
    (hbears : Bears path content machine written) :
    (writeAtomic path content).on machine =
      match written.rename machine.environment.cwd
          (temporaryPath machine.environment.processTag path) path with
      | .ok renamed => (.ok (), machine.withDisk renamed)
      | .error fault => (.error (.io path fault), machine.withDisk written) := by
  obtain ⟨hfailure, hrename⟩ := hbears
  obtain ⟨outcome, hok, hon⟩ := on_writeAtomic_of_begins h
  obtain rfl := hok.mpr hfailure
  rw [hon, naming, on_mapError, move, on_bind, on_get]
  simp only [Machine.device_withDisk, Machine.disk_withDisk, hrename, on_onDisk,
    Machine.environment_withDisk]
  cases written.rename machine.environment.cwd
      (temporaryPath machine.environment.processTag path) path <;> rfl

/-- A temporary file that the device does not bear stays. -/
theorem on_writeAtomic_of_not_bears (h : Begins path content machine written)
    (hbears : ¬ Bears path content machine written) :
    ∃ error, (writeAtomic path content).on machine = (.error error, machine.withDisk written) := by
  obtain ⟨outcome, hok, hon⟩ := on_writeAtomic_of_begins h
  cases outcome with
  | error fault => exact ⟨_, hon⟩
  | ok _ =>
      cases hrename : machine.device.rename written
          (temporaryPath machine.environment.processTag path) path with
      | none => exact absurd ⟨hok.mp rfl, hrename⟩ hbears
      | some fault =>
          refine ⟨.io path fault, ?_⟩
          rw [hon, naming, on_mapError, move, on_bind, on_get]
          simp only [Machine.device_withDisk, Machine.disk_withDisk, hrename]
          rfl

/-! ## where nothing stands at the temporary name -/

/-- Nothing stands where the temporary name of a path leads. -/
def Vacant (path : Text) (machine : Machine) : Prop :=
  ∀ place, temporaryPlace? path machine = some place → machine.disk.get? place = none

/-- The temporary path is vacant if nothing stands where it leads. -/
theorem vacant_of_temporaryPlace? {place : Location}
    (hplace : temporaryPlace? path machine = some place)
    (hfree : machine.disk.get? place = none) : Vacant path machine := by
  intro other hother
  rw [hplace] at hother
  cases hother
  exact hfree

/-- A temporary file and the place it was written at. -/
structure Written (path : Text) (machine : Machine) (file : File) (place : Location)
    (written : Disk) : Prop where
  temporary : ∃ directory, (ready path machine).findEnd machine.environment.cwd
      (temporaryPath machine.environment.processTag path) =
        .ok (.name directory (temporaryNameOf machine.environment.processTag path) false) ∧
    place = directory ++ [temporaryNameOf machine.environment.processTag path]
  short : isTooLong (temporaryNameOf machine.environment.processTag path) = false
  free : (ready path machine).get? place = none
  puts : PutsFile place file (ready path machine) written

section
variable (htag : IsName machine.environment.processTag) (hvacant : Vacant path machine)
include htag hvacant

/-- **The temporary file is written** where its name leads, with what the device takes. -/
theorem Begins.exists_written (h : Begins path content machine written) :
    ∃ file place, part? content (writeFailure path content machine) = some file.content ∧
      Written path machine file place written := by
  obtain ⟨-, part, hpart, hwrite⟩ := h
  obtain hname | hnul := isName_temporaryNameOf htag path
  · rw [temporaryPath_eq] at hwrite
    have hclear : ∀ place, (ready path machine).placeOf? machine.environment.cwd
        (Path.join (temporaryDirectory path)
          (temporaryNameOf machine.environment.processTag path)) = some place →
        (ready path machine).get? place = none ∨
          (ready path machine).get? place = some .directory := by
      intro place hplace
      rw [← temporaryPath_eq] at hplace
      cases hget : (ready path machine).get? place with
      | none => exact .inl rfl
      | some entry =>
          obtain hold | rfl := (makes_ready path machine).grows.new place entry hget
          · rw [hvacant place hplace] at hold
            contradiction
          · exact .inr rfl
    obtain ⟨links, there, file, henters, hshort, hfree, rfl, hputs⟩ :=
      write_ok_of_vacant hname hclear hwrite
    exact ⟨file, _, hpart, ⟨there, by rw [temporaryPath_eq, findEnd_join hname henters], rfl⟩,
      hshort, hfree, hputs⟩
  · rw [write_of_nul hnul] at hwrite
    contradiction

end

namespace Written

variable {file : File} {place : Location}

/-- A file where nothing was opens and closes no way. -/
theorem keeps (h : Written path machine file place written) :
    Keeps written (ready path machine) := by
  intro location entry hget hfile
  by_cases heq : location = place
  · subst heq
    rw [h.puts.self] at hget
    cases hget
    contradiction
  · rw [← h.puts.off location (by simpa using heq), hget]

/-- A written temporary file stands where the temporary path leads. -/
theorem temporaryPlace?_eq (h : Written path machine file place written) :
    temporaryPlace? path machine = some place := by
  obtain ⟨directory, hend, rfl⟩ := h.temporary
  rw [temporaryPlace?, placeOf?, hend]

/-- A path can be taken by a file after the temporary file is written if it could before. -/
theorem takesFile_iff (h : Written path machine file place written) :
    written.TakesFile machine.environment.cwd path ↔
      (ready path machine).TakesFile machine.environment.cwd path := by
  have hother : ∀ location, location ≠ place →
      written.get? location = (ready path machine).get? location :=
    fun location hne => h.puts.off location (by simpa using hne)
  constructor
  · rintro ⟨directory, name, hend, hdirectory⟩
    refine ⟨directory, name, findEnd_of_keeps h.keeps hend, fun hready => hdirectory ?_⟩
    rw [hother _ fun heq => ?_, hready]
    rw [heq, h.free] at hready
    contradiction
  · rintro ⟨directory, name, hend, hdirectory⟩
    refine ⟨directory, name, findEnd_of_keeps h.puts.builds.keeps hend, fun hwritten =>
      hdirectory ?_⟩
    rw [← hother _ fun heq => ?_, hwritten]
    rw [heq, h.puts.self] at hwritten
    cases hwritten

/-- **The temporary file can be renamed** exactly if the path can be taken by a file. -/
theorem exists_rename_iff (h : Written path machine file place written) :
    (∃ renamed, written.rename machine.environment.cwd
      (temporaryPath machine.environment.processTag path) path = .ok renamed) ↔
      (ready path machine).TakesFile machine.environment.cwd path := by
  rw [← h.takesFile_iff]
  constructor
  · rintro ⟨renamed, hrename⟩
    exact takesFile_of_rename hrename
  · intro htakes
    obtain ⟨directory, hend, rfl⟩ := h.temporary
    refine rename_ok_of_takesFile (findEnd_of_keeps h.puts.builds.keeps hend) h.puts.self h.short
      htakes fun there name hpath => ?_
    obtain ⟨base, rfl, hname⟩ := exists_join_of_findEnd hpath
    exact isTooLong_of_temporaryNameOf hname h.short

/-- **The renamed file** stands where the path leads, its temporary name is free again, and
all else is as it was when the parents were made. -/
theorem renamed (h : Written path machine file place written) {renamed : Disk}
    (hrename : written.rename machine.environment.cwd
      (temporaryPath machine.environment.processTag path) path = .ok renamed) :
    ∃ base name there, path = Path.join base name ∧ IsName name ∧ isTooLong name = false ∧
      place? path machine = some (there ++ [name]) ∧
      (ready path machine).get? (there ++ [name]) ≠ some .directory ∧
      renamed.get? (there ++ [name]) = some (.file file) ∧ renamed.get? place = none ∧
      AgreesOff [there ++ [name]] (ready path machine) renamed := by
  obtain ⟨here, first, slash, there, name, entry, hsource, htarget, hget, -, hdirectory, rfl⟩ :=
    rename_ok hrename
  obtain ⟨base, rfl, hname⟩ := exists_join_of_findEnd htarget
  obtain ⟨directory, hend, hplace⟩ := h.temporary
  have hsource' := findEnd_of_keeps h.keeps hsource
  rw [hend] at hsource'
  cases hsource'
  rw [← hplace] at hget ⊢
  obtain rfl : entry = .file file := Option.some.inj (hget.symm.trans h.puts.self)
  have hne : place ≠ there ++ [name] := by
    rw [hplace, temporaryNameOf, Path.fileName?_join base hname]
    intro heq
    have hlength := length_lt_temporaryName machine.environment.processTag name
    have hlast : temporaryName machine.environment.processTag name = name :=
      List.singleton_inj.mp (List.append_inj' heq rfl).2
    rw [hlast] at hlength
    exact Nat.lt_irrefl _ hlength
  refine ⟨base, name, there, rfl, hname, isTooLong_of_temporaryNameOf hname h.short, ?_, ?_,
    get?_put_self _ (by simp) _, ?_, fun location hnot => ?_⟩
  · rw [place?, placeOf?, findEnd_of_keeps h.keeps htarget]
  · rwa [← h.puts.off _ (by simpa using Ne.symm hne)]
  · rw [get?_put _ (by simp), if_neg hne, get?_erase _ h.puts.ne_nil, if_pos rfl]
  · rw [get?_put _ (by simp), if_neg (by simpa using hnot), get?_erase _ h.puts.ne_nil]
    by_cases heq : location = place
    · rw [if_pos heq, heq, h.free]
    · rw [if_neg heq, h.puts.off location (by simpa using heq)]

end Written

/-! ## all or nothing -/

/-- A directory that was made because the path lies below it. -/
def IsMade (path : Text) (machine : Machine) (location : Location) (entry : Entry) : Prop :=
  entry = .directory ∧ ∃ above, Path.IsAbove above path ∧
    (ready path machine).placeOf? machine.environment.cwd above = some location

/-- What stands there after the parents are made stood there or is one of them. -/
theorem new_ready {location : Location} {entry : Entry}
    (h : (ready path machine).get? location = some entry) :
    machine.disk.get? location = some entry ∨ IsMade path machine location entry := by
  have hmakes := makes_ready path machine
  obtain hold | rfl := hmakes.grows.new location entry h
  · exact .inl hold
  · cases hget : machine.disk.get? location with
    | none => exact .inr ⟨rfl, hmakes.named location hget (by rw [h]; nofun)⟩
    | some entry =>
        rw [← h, hmakes.grows.stays location entry hget]
        exact .inl rfl

/-- The way to the directory of a path does not go through the entry at the path. -/
def IsClear (path : Text) (machine : Machine) (place : Location) : Prop :=
  ((ready path machine).erase place).placeOf? machine.environment.cwd path = some place

/-- A path got a file with the content, and nothing else changed but its parents. -/
structure Replaced (path : Text) (content : ByteArray) (machine : Machine) (disk : Disk)
    (place : Location) : Prop where
  leads : place? path machine = some place
  holds : ∃ file, disk.get? place = some (.file file) ∧ file.content = content
  temporary : ∃ other, temporaryPlace? path machine = some other ∧ disk.get? other = none
  stays : ∀ location entry, location ≠ place → machine.disk.get? location = some entry →
    disk.get? location = some entry
  new : ∀ location entry, location ≠ place → disk.get? location = some entry →
    machine.disk.get? location = some entry ∨ IsMade path machine location entry
  reads_iff : disk.readBytes machine.environment.cwd path = .ok content ↔
    IsClear path machine place
  clear : (∀ target, machine.disk.get? place ≠ some (.link target)) → IsClear path machine place

/-- Everything is as it was, and what is new are parents of the path and perhaps the
temporary file. -/
structure Left (path : Text) (machine : Machine) (disk : Disk) : Prop where
  stays : ∀ location entry, machine.disk.get? location = some entry →
    disk.get? location = some entry
  new : ∀ location entry, disk.get? location = some entry →
    machine.disk.get? location = some entry ∨ IsMade path machine location entry ∨
      temporaryPlace? path machine = some location ∧ entry.isFile = true

/-- Making the parents leaves everything as it was but for them. -/
theorem left_ready (path : Text) (machine : Machine) : Left path machine (ready path machine) :=
  ⟨(makes_ready path machine).grows.stays, fun _ _ h => (new_ready h).imp_right .inl⟩

namespace Written

variable {file : File} {place : Location}

theorem left (h : Written path machine file place written) : Left path machine written where
  stays location entry hget := by
    have hready := (makes_ready path machine).grows.stays location entry hget
    by_cases heq : location = place
    · rw [heq, h.free] at hready
      contradiction
    · rw [h.puts.off location (by simpa using heq), hready]
  new location entry hget := by
    by_cases heq : location = place
    · subst heq
      rw [h.puts.self] at hget
      cases hget
      exact .inr (.inr ⟨h.temporaryPlace?_eq, rfl⟩)
    · rw [h.puts.off location (by simpa using heq)] at hget
      exact (new_ready hget).imp_right .inl

theorem replaced (h : Written path machine file place written) {renamed : Disk}
    (hrename : written.rename machine.environment.cwd
      (temporaryPath machine.environment.processTag path) path = .ok renamed) :
    ∃ target, Replaced path file.content machine renamed target := by
  obtain ⟨base, name, there, rfl, hname, hshort, hleads, hdirectory, hself, hfree, hoff⟩ :=
    h.renamed hrename
  have hother : ∀ location, location ≠ there ++ [name] →
      renamed.get? location = (ready (Path.join base name) machine).get? location :=
    fun location hne => hoff location (by simpa using hne)
  refine ⟨there ++ [name],
    { leads := hleads
      holds := ⟨file, hself, rfl⟩
      temporary := ⟨place, h.temporaryPlace?_eq, hfree⟩
      stays := fun location entry hne hget => ?_
      new := fun location entry hne hget => ?_
      reads_iff := readBytes_eq_ok_iff_of_replaced hname hshort hleads hself hoff
      clear := fun hlink => placeOf?_erase (by simp) (fun entry hget => ?_) hleads }⟩
  · rw [hother location hne]
    exact (makes_ready _ machine).grows.stays location entry hget
  · rw [hother location hne] at hget
    exact new_ready hget
  · cases entry with
    | file file => rfl
    | directory => exact absurd hget hdirectory
    | link target =>
        obtain hold | ⟨hmade, -⟩ := new_ready hget
        · exact absurd hold (hlink target)
        · cases hmade

end Written

/-- **Writing a file is all or nothing**, whatever the path looks like.  If it succeeds, the
place that the path names holds a file with exactly the content, no temporary file remains,
and nothing else changed but that parents of the path were made; the file is read at the
path unless the way to its directory goes through the link that it replaced.  If it fails,
wherever on the way, also when the device takes a part of the bytes only, every entry stays,
and what is new are parents of the path and the temporary file. -/
theorem writeAtomic_all_or_nothing {outcome : Except FileError Unit}
    (htag : IsName machine.environment.processTag) (hvacant : Vacant path machine)
    (h : (writeAtomic path content).on machine = (outcome, after)) :
    after = machine.withDisk after.disk ∧
      (outcome = .ok () → ∃ place, Replaced path content machine after.disk place) ∧
      (∀ error, outcome = .error error → Left path machine after.disk) := by
  by_cases hbegins : ∃ written, Begins path content machine written
  · obtain ⟨written, hbegins⟩ := hbegins
    obtain ⟨file, place, hpart, hwritten⟩ := hbegins.exists_written htag hvacant
    by_cases hbears : Bears path content machine written
    · obtain rfl := hbears.eq_content hpart
      rw [on_writeAtomic_of_bears hbegins hbears] at h
      split at h
      · next renamed hrename =>
          cases h
          exact ⟨rfl, fun _ => hwritten.replaced hrename, nofun⟩
      · cases h
        exact ⟨rfl, nofun, fun _ _ => hwritten.left⟩
    · obtain ⟨error, hon⟩ := on_writeAtomic_of_not_bears hbegins hbears
      rw [hon] at h
      cases h
      exact ⟨rfl, nofun, fun _ _ => hwritten.left⟩
  · obtain ⟨error, hon⟩ := on_writeAtomic_of_not_begins (not_exists.mp hbegins)
    rw [hon] at h
    cases h
    exact ⟨rfl, nofun, fun _ _ => left_ready path machine⟩

/-- A machine with a directory and a link to it, in a directory of both. -/
def linkedMachine : Machine where
  disk :=
    { entries := [(["app"], .directory), (["app", "data"], .directory),
        (["app", "old"], .link "/app/data"),
        (["app", "data", "kept"], .file ⟨0, Text.bytes "k", 0o755⟩)]
      nextId := 1 }
  environment := { processTag := "7" }

theorem isName_tag_linkedMachine : IsName linkedMachine.environment.processTag := by
  decide

/-- A file in a directory that is missing, on a way through a link. -/
theorem writeAtomic_all_or_nothing_linked :
    ∃ after, (writeAtomic "/app/old/new/file" (Text.bytes "x")).on linkedMachine = (.ok (), after) ∧
      Replaced "/app/old/new/file" (Text.bytes "x") linkedMachine after.disk
        ["app", "data", "new", "file"] := by
  have hok : ((writeAtomic "/app/old/new/file" (Text.bytes "x")).on linkedMachine).1 = .ok () := by
    decide +kernel
  have hplace : temporaryPlace? "/app/old/new/file" linkedMachine =
      some (["app", "data", "new", ".file.7.tmp"] : Location) := by
    decide +kernel
  have hvacant : Vacant "/app/old/new/file" linkedMachine :=
    vacant_of_temporaryPlace? hplace (by decide +kernel)
  obtain ⟨-, hreplaced, -⟩ :=
    writeAtomic_all_or_nothing isName_tag_linkedMachine hvacant (on_eq_of_fst hok)
  obtain ⟨place, hreplaced⟩ := hreplaced rfl
  have hleads : place? "/app/old/new/file" linkedMachine =
      some (["app", "data", "new", "file"] : Location) := by
    decide +kernel
  obtain rfl := Option.some.inj (hreplaced.leads.symm.trans hleads)
  exact ⟨_, on_eq_of_fst hok, hreplaced⟩

/-- A path whose directory is reached through the very link that it names: the link gives way
to the file, and then the path leads nowhere. -/
theorem replaced_link_not_read :
    ∃ after, (writeAtomic "/app/old/../old" (Text.bytes "x")).on linkedMachine = (.ok (), after) ∧
      Vacant "/app/old/../old" linkedMachine ∧
      after.disk.get? ["app", "old"] = some (.file ⟨1, Text.bytes "x", 0o644⟩) ∧
      after.disk.readBytes after.environment.cwd "/app/old/../old" = .error .notDirectory := by
  have hok : ((writeAtomic "/app/old/../old" (Text.bytes "x")).on linkedMachine).1 = .ok () := by
    decide +kernel
  have hplace : temporaryPlace? "/app/old/../old" linkedMachine =
      some (["app", ".old.7.tmp"] : Location) := by
    decide +kernel
  exact ⟨_, on_eq_of_fst hok, vacant_of_temporaryPlace? hplace (by decide +kernel),
    by decide +kernel, by decide +kernel⟩

/-! ## what is left -/

/-- The temporary file can be begun: the parents of the path can be made, nothing stands where
its name leads, which is not too long, and the device lets it be opened. -/
structure CanBegin (path : Text) (content : ByteArray) (machine : Machine) : Prop where
  parents : ((makeParent path).on machine).1 = .ok ()
  opens : ∃ part, part? content (writeFailure path content machine) = some part
  free : ∃ place, temporaryPlace? path machine = some place ∧ (ready path machine).get? place = none
  short : isTooLong (temporaryNameOf machine.environment.processTag path) = false

/-- **Beginning to write** succeeds exactly where the parents, the temporary name and
the device allow it. -/
theorem exists_begins_iff (htag : IsName machine.environment.processTag)
    (hvacant : Vacant path machine) :
    (∃ written, Begins path content machine written) ↔ CanBegin path content machine := by
  constructor
  · rintro ⟨written, hbegins⟩
    obtain ⟨file, place, hpart, hwritten⟩ := hbegins.exists_written htag hvacant
    exact ⟨hbegins.1, ⟨_, hpart⟩, ⟨place, hwritten.temporaryPlace?_eq, hwritten.free⟩,
      hwritten.short⟩
  · rintro ⟨hparents, ⟨part, hpart⟩, ⟨place, hplace, hfree⟩, hshort⟩
    obtain hname | hnul := isName_temporaryNameOf htag path
    · rw [temporaryPlace?, temporaryPath_eq] at hplace
      obtain ⟨links, there, henters, rfl⟩ := exists_enters_of_placeOf? hname hplace
      obtain ⟨written, hwrite⟩ := exists_write_of_vacant hname henters hshort hfree part
      rw [← temporaryPath_eq] at hwrite
      exact ⟨written, hparents, part, hpart, hwrite⟩
    · rw [temporaryPlace?, placeOf?, findEnd, if_pos (by simpa using hnul)] at hplace
      contradiction

/-- A temporary file stands where nothing stood before. -/
def LeavesTemporary (path : Text) (content : ByteArray) (machine : Machine) : Prop :=
  ∃ place file, temporaryPlace? path machine = some place ∧ machine.disk.get? place = none ∧
    ((writeAtomic path content).on machine).2.disk.get? place = some (.file file)

/-- The device fails after the temporary file is begun. -/
def Breaks (path : Text) (content : ByteArray) (machine : Machine) : Prop :=
  ∃ written, Begins path content machine written ∧ ¬ Bears path content machine written

/-- A device that never fails does not break. -/
theorem not_breaks (hwrite : ∀ disk path content, machine.device.write disk path content = none)
    (hrename : ∀ disk source target, machine.device.rename disk source target = none) :
    ¬ Breaks path content machine := by
  rintro ⟨written, -, hbears⟩
  exact hbears ⟨hwrite _ _ _, hrename _ _ _⟩

/-- There is one disk that beginning to write leads to. -/
theorem Begins.unique {written' : Disk} (h : Begins path content machine written)
    (h' : Begins path content machine written') : written = written' := by
  obtain ⟨-, part, hpart, hwrite⟩ := h
  obtain ⟨-, part', hpart', hwrite'⟩ := h'
  obtain rfl := Option.some.inj (hpart.symm.trans hpart')
  exact Except.ok.inj (hwrite.symm.trans hwrite')

/-- **A temporary file that was begun stays** exactly if the device fails then, or no file can
take the path. -/
theorem Begins.stays_iff (h : Begins path content machine written)
    (htag : IsName machine.environment.processTag) {place : Location}
    (hplace : temporaryPlace? path machine = some place)
    (hfree : machine.disk.get? place = none) :
    (∃ file, ((writeAtomic path content).on machine).2.disk.get? place = some (.file file)) ↔
      ¬ Bears path content machine written ∨
        ¬ (ready path machine).TakesFile machine.environment.cwd path := by
  obtain ⟨file, place', -, hwritten⟩ :=
    h.exists_written htag (vacant_of_temporaryPlace? hplace hfree)
  obtain rfl := Option.some.inj (hplace.symm.trans hwritten.temporaryPlace?_eq)
  by_cases hbears : Bears path content machine written
  · rw [on_writeAtomic_of_bears h hbears, ← hwritten.exists_rename_iff]
    cases hrename : written.rename machine.environment.cwd
        (temporaryPath machine.environment.processTag path) path with
    | error fault => simpa using ⟨file, hwritten.puts.self⟩
    | ok renamed =>
        obtain ⟨target, hreplaced⟩ := hwritten.replaced hrename
        obtain ⟨other, hother, hgone⟩ := hreplaced.temporary
        obtain rfl := Option.some.inj (hplace.symm.trans hother)
        simp [hgone, hbears]
  · obtain ⟨error, hon⟩ := on_writeAtomic_of_not_bears h hbears
    rw [hon]
    exact iff_of_true ⟨file, hwritten.puts.self⟩ (.inl hbears)

/-- **A temporary file is left** exactly if it can be begun and then the device fails, or no
file can take the path: the path does not end with a name, or a directory has that name. -/
theorem leavesTemporary_iff (htag : IsName machine.environment.processTag) :
    LeavesTemporary path content machine ↔
      CanBegin path content machine ∧ (Breaks path content machine ∨
        ¬ (ready path machine).TakesFile machine.environment.cwd path) := by
  constructor
  · rintro ⟨place, file, hplace, hfree, hleft⟩
    have hvacant := vacant_of_temporaryPlace? hplace hfree
    by_cases hexists : ∃ written, Begins path content machine written
    · obtain ⟨written, hbegins⟩ := hexists
      refine ⟨(exists_begins_iff htag hvacant).mp ⟨written, hbegins⟩, ?_⟩
      exact ((hbegins.stays_iff htag hplace hfree).mp ⟨file, hleft⟩).imp_left
        fun hbears => ⟨written, hbegins, hbears⟩
    · obtain ⟨error, hon⟩ := on_writeAtomic_of_not_begins (not_exists.mp hexists)
      rw [hon, Machine.disk_withDisk] at hleft
      obtain hold | ⟨hmade, -⟩ := new_ready hleft
      · rw [hfree] at hold
        contradiction
      · cases hmade
  · rintro ⟨hcan, hfails⟩
    obtain ⟨place, hplace, hready⟩ := hcan.free
    have hfree := get?_eq_none_of_ready hready
    obtain ⟨written, hbegins⟩ : ∃ written, Begins path content machine written :=
      (exists_begins_iff htag (vacant_of_temporaryPlace? hplace hfree)).mpr hcan
    have hstays : ¬ Bears path content machine written ∨
        ¬ (ready path machine).TakesFile machine.environment.cwd path :=
      hfails.imp_left fun ⟨_, hother, hbears⟩ => hbegins.unique hother ▸ hbears
    obtain ⟨file, hleft⟩ := (hbegins.stays_iff htag hplace hfree).mpr hstays
    exact ⟨place, file, hplace, hfree, hleft⟩

/-- A machine whose device is full after the first byte of a file. -/
def fullMachine : Machine :=
  { linkedMachine with device := { write := fun _ _ _ => some (.broken 1 .noSpace) } }

theorem isName_tag_fullMachine : IsName fullMachine.environment.processTag :=
  isName_tag_linkedMachine

theorem canBegin_fullMachine : CanBegin "/app/old/file" (Text.bytes "xy") fullMachine where
  parents := by decide +kernel
  opens := ⟨_, rfl⟩
  free := ⟨["app", "data", ".file.7.tmp"], by decide +kernel, by decide +kernel⟩
  short := by decide +kernel

theorem breaks_fullMachine : Breaks "/app/old/file" (Text.bytes "xy") fullMachine := by
  obtain ⟨place, hplace, hfree⟩ := canBegin_fullMachine.free
  have hvacant := vacant_of_temporaryPlace? hplace (get?_eq_none_of_ready hfree)
  obtain ⟨written, hbegins⟩ :=
    (exists_begins_iff isName_tag_fullMachine hvacant).mpr canBegin_fullMachine
  exact ⟨written, hbegins, fun hbears => nomatch hbears.1⟩

/-- A path with a name at its end leaves nothing unless the device is full, one that ends with
two dots does. -/
theorem leavesTemporary_iff_linked :
    ¬ LeavesTemporary "/app/old/file" (Text.bytes "x") linkedMachine ∧
      LeavesTemporary "/app/old/file" (Text.bytes "xy") fullMachine ∧
      LeavesTemporary "/app/new/.." (Text.bytes "x") linkedMachine := by
  refine ⟨fun hleaves => ?_, ?_, ?_⟩
  · obtain ⟨-, hbreaks | htakes⟩ := (leavesTemporary_iff isName_tag_linkedMachine).mp hleaves
    · exact not_breaks (fun _ _ _ => rfl) (fun _ _ _ => rfl) hbreaks
    · exact htakes ⟨["app", "data"], "file", by decide +kernel, by decide +kernel⟩
  · exact (leavesTemporary_iff isName_tag_fullMachine).mpr
      ⟨canBegin_fullMachine, .inl breaks_fullMachine⟩
  · have hend : (ready "/app/new/.." linkedMachine).findEnd none "/app/new/.." = .ok .noName := by
      decide +kernel
    have hcan : CanBegin "/app/new/.." (Text.bytes "x") linkedMachine :=
      ⟨by decide +kernel, ⟨_, rfl⟩,
        ⟨["app", "..7.tmp"], by decide +kernel, by decide +kernel⟩, by decide +kernel⟩
    refine (leavesTemporary_iff isName_tag_linkedMachine).mpr ⟨hcan, .inr ?_⟩
    rintro ⟨directory, name, hname, -⟩
    have hsame := hend.symm.trans hname
    cases hsame

/-- The name of a directory: the renaming fails, and the temporary file stays. -/
theorem temporary_left_beside_directory :
    ∃ after, (writeAtomic "/app/data" (Text.bytes "x")).on linkedMachine =
        (.error (.io "/app/data" .isDirectory), after) ∧
      linkedMachine.disk.get? ["app", ".data.7.tmp"] = none ∧
      after.disk.get? ["app", ".data.7.tmp"] = some (.file ⟨1, Text.bytes "x", 0o644⟩) := by
  have hfails : ((writeAtomic "/app/data" (Text.bytes "x")).on linkedMachine).1 =
      .error (.io "/app/data" .isDirectory) := by
    decide +kernel
  exact ⟨_, on_eq_of_fst hfails, by decide +kernel, by decide +kernel⟩

end Files

end TreeSync
