import TreeSync.Proofs.Disk.Directory

/-!
# TreeSync.Proofs.Disk.Operation

What the operations change, seen from the entries.

1. Writing puts a file where there was nothing or a file (`PutsFile`), and making
   directories puts directories where there was nothing (`grows_makeDirectories`):
   so every way through the disk stays.
2. At a name in a directory, each operation is about the entry of that name, unless
   the entry is a link (`find_name`, `openOrCreate_name`, `remove_name`,
   `rename_ok`).
3. What can be read can be removed, through links as well (`remove_of_readText`).
-/

namespace TreeSync.Disk

variable {disk disk' : Disk} {cwd : Option Location} {base name : Text} {links : Nat}
  {there location : Location} {file : File}

/-! ## putting a file -/

/-- A file was put where there was nothing or a file, and nothing else changed. -/
structure PutsFile (location : Location) (file : File) (disk disk' : Disk) : Prop where
  ne_nil : location ≠ []
  isFile : ∀ entry, disk.get? location = some entry → entry.isFile = true
  self : disk'.get? location = some (.file file)
  off : AgreesOff [location] disk disk'

namespace PutsFile

/-- The file is replaced by another one at the same place. -/
theorem put (h : PutsFile location file disk disk') (file' : File) :
    PutsFile location file' disk (disk'.put location (.file file')) where
  ne_nil := h.ne_nil
  isFile := h.isFile
  self := get?_put_self disk' h.ne_nil _
  off := by
    intro other hother
    rw [get?_put disk' h.ne_nil, if_neg (by simpa using hother), h.off other hother]

theorem builds (h : PutsFile location file disk disk') : Builds [location] disk disk' := by
  refine h.off.builds (fun place hplace => ?_) (fun place hplace target => ?_) <;>
    obtain rfl := List.mem_singleton.mp hplace
  · exact h.isFile
  · rw [h.self]
    nofun

/-- The directories that are made after the file could have been made without it. -/
theorem exists_grows {grown : Disk} (h : PutsFile location file disk disk')
    (hgrows : Grows disk' grown) : ∃ without, Grows disk without ∧ Keeps grown without := by
  obtain ⟨without, hat, hoff⟩ : ∃ without : Disk, without.get? location = disk.get? location ∧
      ∀ other, other ≠ location → without.get? other = grown.get? other := by
    cases hold : disk.get? location with
    | none =>
        refine ⟨grown.erase location, by rw [get?_erase grown h.ne_nil, if_pos rfl], ?_⟩
        intro other hother
        rw [get?_erase grown h.ne_nil, if_neg hother]
    | some entry =>
        refine ⟨grown.put location entry, get?_put_self grown h.ne_nil entry, ?_⟩
        intro other hother
        rw [get?_put grown h.ne_nil, if_neg hother]
  have hbefore : ∀ other, other ≠ location → disk'.get? other = disk.get? other :=
    fun other hother => h.off other (by simpa using hother)
  have hfile : grown.get? location = some (.file file) := hgrows.stays _ _ h.self
  refine ⟨without, ⟨fun other entry hentry => ?_, fun other entry hentry => ?_⟩, ?_⟩
  · by_cases hother : other = location
    · subst hother
      rw [hat, hentry]
    · rw [hoff other hother]
      exact hgrows.stays _ _ (by rw [hbefore other hother, hentry])
  · by_cases hother : other = location
    · subst hother
      exact .inl (by rw [← hat, hentry])
    · rw [hoff other hother] at hentry
      rw [← hbefore other hother]
      exact hgrows.new _ _ hentry
  · intro other entry hentry hplain
    by_cases hother : other = location
    · subst hother
      obtain rfl := Option.some.inj (hfile.symm.trans hentry)
      contradiction
    · rw [hoff other hother, hentry]

end PutsFile

/-- What a search finds stands there. -/
theorem stands_of_find {path : Text} {destination : Destination}
    (h : disk.find cwd true path = .ok destination) : Destination.Stands disk destination := by
  rw [find] at h
  split at h
  · contradiction
  split at h
  · contradiction
  split at h
  · contradiction
  · exact stands_of_walk h

/-- Opening a file finds it, or makes it at a free name. -/
theorem openOrCreate_ok {path : Text} (h : disk.openOrCreate cwd path = .ok (disk', location, file)) :
    PutsFile location file disk disk' ∧
      (disk.find cwd true path = .ok (.found location (.file file)) ∨
        ∃ directory name, disk.find cwd true path = .ok (.free directory name) ∧
          location = directory ++ [name]) := by
  rw [openOrCreate] at h
  split at h
  · contradiction
  · contradiction
  · contradiction
  · split at h
    · contradiction
    · next found file' hfind =>
        cases h
        obtain ⟨hne, hget⟩ := stands_of_find hfind
        refine ⟨⟨hne, fun entry hentry => ?_, hget, .refl _ disk⟩, Or.inl hfind⟩
        rw [hget] at hentry
        rw [← Option.some.inj hentry]
        rfl
    · contradiction
    · next directory name hfind =>
        cases h
        have hfree : disk.get? (directory ++ [name]) = none := stands_of_find hfind
        have hne : directory ++ [name] ≠ [] := by simp
        refine ⟨⟨hne, fun entry hentry => ?_, ?_, fun other hother => ?_⟩,
          Or.inr ⟨directory, name, hfind, rfl⟩⟩
        · rw [hfree] at hentry
          contradiction
        · rw [get?_putFile disk hne, if_pos rfl]
        · rw [get?_putFile disk hne, if_neg (by simpa using hother)]

/-- What is found without a working directory is found from any. -/
theorem find_of_none {path : Text} {followLast : Bool} {destination : Destination}
    (h : disk.find none followLast path = .ok destination) :
    disk.find cwd followLast path = .ok destination := by
  rw [find] at h ⊢
  split at h
  · contradiction
  · next hnul =>
      rw [if_neg hnul]
      split at h
      · contradiction
      · next hne =>
          rw [if_neg hne]
          split at h
          · contradiction
          · next start hstart =>
              split at hstart
              · next habsolute =>
                  cases hstart
                  rwa [if_pos habsolute]
              · contradiction

/-- A path that needs no working directory ends where it does without one. -/
theorem findEnd_of_none {path : Text} {place : PathEnd}
    (h : disk.findEnd none path = .ok place) : disk.findEnd cwd path = .ok place := by
  simp only [findEnd] at h ⊢
  split at h
  · contradiction
  · next hnul =>
      rw [if_neg hnul]
      split at h
      · exact h
      · split at h
        · next hfind => rwa [find_of_none hfind]
        · contradiction
        · contradiction

/-- Such a file is opened alike in any working directory. -/
theorem openOrCreate_of_none {path : Text} {opened : Disk × Location × File}
    (h : disk.openOrCreate none path = .ok opened) :
    disk.openOrCreate cwd path = .ok opened := by
  rw [openOrCreate] at h ⊢
  split at h
  · contradiction
  · contradiction
  · contradiction
  · next hend =>
      rw [findEnd_of_none hend]
      split at h
      · contradiction
      · next hfind => rwa [find_of_none hfind]
      · contradiction
      · next hfind => rwa [find_of_none hfind]

/-- **A write that succeeds** has opened a file, or made one, and put the content
there. -/
theorem write_ok {path : Text} {content : ByteArray}
    (h : disk.write cwd path content = .ok disk') :
    ∃ opened location file, disk.openOrCreate cwd path = .ok (opened, location, file) ∧
      PutsFile location { file with content } disk disk' := by
  rw [write] at h
  split at h
  · contradiction
  · next opened location file hopen =>
      cases h
      exact ⟨opened, location, file, hopen, (openOrCreate_ok hopen).1.put _⟩

/-- **An addition that succeeds** has opened a file and put its content there with
more behind it. -/
theorem append_ok {path : Text} {more : ByteArray} (h : disk.append cwd path more = .ok disk') :
    ∃ opened location file, disk.openOrCreate cwd path = .ok (opened, location, file) ∧
      PutsFile location { file with content := file.content ++ more } disk disk' := by
  rw [append] at h
  split at h
  · contradiction
  · next opened location file hopen =>
      cases h
      exact ⟨opened, location, file, hopen, (openOrCreate_ok hopen).1.put _⟩

/-! ## making directories -/

/-- A directory that is made is the only thing that is new. -/
theorem makeDirectory_ok {path : Text} (h : disk.makeDirectory cwd path = .ok disk') :
    Grows disk disk' := by
  rw [makeDirectory, make] at h
  split at h
  · contradiction
  · contradiction
  · split at h
    · contradiction
    · split at h
      · contradiction
      · next hfree =>
          cases h
          exact .put_directory (by simp) hfree

/-- However far the parents come, a disk only grows by them. -/
theorem grows_makeDirectoriesWithin (depth : Nat) (path : Text) (disk : Disk) :
    Grows disk (makeDirectoriesWithin cwd depth path disk).2 := by
  induction depth generalizing path with
  | zero => exact .refl disk
  | succ depth ih =>
      rw [makeDirectoriesWithin]
      split
      · exact .refl disk
      · split
        · next hmake => exact makeDirectory_ok hmake
        · split
          · exact .refl disk
          · next parent _ =>
              have hparent := ih parent
              split
              · next heq => rwa [heq] at hparent
              · next heq =>
                  rw [heq] at hparent
                  split
                  · next hmake => exact hparent.trans (makeDirectory_ok hmake)
                  · split <;> exact hparent
        · split <;> exact .refl disk

/-- **Making directories** adds nothing else, also when it fails on the way. -/
theorem grows_makeDirectories (disk : Disk) (path : Text) :
    Grows disk (disk.makeDirectories cwd path).2 :=
  grows_makeDirectoriesWithin _ path disk

/-! ## at a name in a directory -/

/-- The last step of a walk. -/
theorem walk_last (h : IsName name) (links : Nat) (there : Location) :
    disk.walk true links there [name] =
      if isTooLong name then .error .nameTooLong
      else
        match disk.get? (there ++ [name]) with
        | none => .ok (.free there name)
        | some (.link target) =>
            disk.afterLink links (if target.head? = some '/' then [] else there)
              (namesOfPath target)
        | some entry => .ok (.found (there ++ [name]) entry) := by
  rw [walk_cons h.dot h.up]
  split
  · rfl
  · split <;> simp_all [walk_nil]

/-- What a name that is no link is found to be. -/
theorem find_name (h : IsName name) (henters : disk.Enters cwd base links there)
    (hlink : ∀ target, disk.get? (there ++ [name]) ≠ some (.link target)) :
    disk.find cwd true (Path.join base name) =
      if isTooLong name then .error .nameTooLong
      else
        match disk.get? (there ++ [name]) with
        | none => .ok (.free there name)
        | some entry => .ok (.found (there ++ [name]) entry) := by
  rw [find_join h henters, walk_last h]
  cases hget : disk.get? (there ++ [name]) with
  | none => rfl
  | some entry =>
      cases entry with
      | directory => rfl
      | file file => rfl
      | link target => exact absurd hget (hlink target)

theorem lookup_name (h : IsName name) (hshort : isTooLong name = false)
    (henters : disk.Enters cwd base links there)
    (hget : disk.get? (there ++ [name]) = some (.file file)) :
    disk.lookup cwd (Path.join base name) = .ok (there ++ [name], .file file) := by
  have hlink : ∀ target, disk.get? (there ++ [name]) ≠ some (.link target) := by
    intro target
    rw [hget]
    simp
  rw [lookup, find_name h henters hlink, hshort, if_neg Bool.false_ne_true, hget]
  rfl

/-- The text of a name in a directory is that of the file there, if it is UTF-8. -/
theorem readText_name_eq_ok_iff {text : Text} (h : IsName name) (hshort : isTooLong name = false)
    (henters : disk.Enters cwd base links there)
    (hlink : ∀ target, disk.get? (there ++ [name]) ≠ some (.link target)) :
    disk.readText cwd (Path.join base name) = .ok text ↔
      ∃ file, disk.get? (there ++ [name]) = some (.file file) ∧
        Text.ofBytes? file.content = some text := by
  have hfile : ∀ {file}, disk.get? (there ++ [name]) = some (.file file) →
      (disk.readText cwd (Path.join base name) = .ok text ↔
        Text.ofBytes? file.content = some text) := by
    intro file hget
    rw [readText, readBytes, lookup_name h hshort henters hget]
    cases htext : Text.ofBytes? file.content <;> simp [htext]
  constructor
  · intro hread
    cases hget : disk.get? (there ++ [name]) with
    | some entry =>
        cases entry with
        | file file => exact ⟨file, rfl, (hfile hget).mp hread⟩
        | link target => exact absurd hget (hlink target)
        | directory =>
            rw [readText, readBytes, lookup, find_name h henters hlink, hshort,
              if_neg Bool.false_ne_true, hget] at hread
            cases hread
    | none =>
        rw [readText, readBytes, lookup, find_name h henters hlink, hshort,
          if_neg Bool.false_ne_true, hget] at hread
        cases hread
  · rintro ⟨file, hget, htext⟩
    exact (hfile hget).mpr htext

/-- A name that is no link is opened in its directory. -/
theorem openOrCreate_name (h : IsName name) (henters : disk.Enters cwd base links there)
    (hlink : ∀ target, disk.get? (there ++ [name]) ≠ some (.link target))
    (hopen : disk.openOrCreate cwd (Path.join base name) = .ok (disk', location, file)) :
    location = there ++ [name] := by
  obtain ⟨-, hfind⟩ := openOrCreate_ok hopen
  rw [find_name h henters hlink] at hfind
  cases hlong : isTooLong name with
  | true => simp [hlong] at hfind
  | false =>
      rw [hlong, if_neg Bool.false_ne_true] at hfind
      cases hget : disk.get? (there ++ [name]) with
      | none =>
          simp only [hget] at hfind
          obtain hfound | ⟨directory, last, hfree, heq⟩ := hfind
          · cases hfound
          · cases hfree
            exact heq
      | some entry =>
          simp only [hget] at hfind
          obtain hfound | ⟨directory, last, hfree, heq⟩ := hfind
          · cases hfound
            rfl
          · cases hfree

/-- What can be opened below a directory has the directory there. -/
theorem exists_enters_of_openOrCreate (h : IsName name)
    (hopen : disk.openOrCreate cwd (Path.join base name) = .ok (disk', location, file)) :
    ∃ links there, disk.Enters cwd base links there := by
  obtain ⟨-, hfound | ⟨directory, last, hfree, -⟩⟩ := openOrCreate_ok hopen
  · exact exists_enters_of_find h hfound
  · exact exists_enters_of_find h hfree

/-- What is looked up was found. -/
theorem find_of_lookup {path : Text} {entry : Entry}
    (h : disk.lookup cwd path = .ok (location, entry)) :
    disk.find cwd true path = .ok (.found location entry) := by
  rw [lookup] at h
  cases hfind : disk.find cwd true path with
  | error fault =>
      rw [hfind] at h
      cases h
  | ok destination =>
      rw [hfind] at h
      cases destination with
      | free directory name => cases h
      | found location' entry' =>
          cases h
          rfl

/-- A file that is there is opened as it is. -/
theorem openOrCreate_of_lookup (h : IsName name)
    (hlookup : disk.lookup cwd (Path.join base name) = .ok (location, .file file)) :
    disk.openOrCreate cwd (Path.join base name) = .ok (disk, location, file) := by
  have hfind := find_of_lookup hlookup
  obtain ⟨links, there, henters⟩ := exists_enters_of_find h hfind
  simp only [openOrCreate, findEnd_join h henters, hfind]

/-- Removing a name that stands for a file or a link. -/
theorem remove_name (h : IsName name) (hshort : isTooLong name = false)
    (henters : disk.Enters cwd base links there) {entry : Entry}
    (hget : disk.get? (there ++ [name]) = some entry) (hdirectory : entry ≠ .directory) :
    disk.remove cwd (Path.join base name) = .ok (disk.erase (there ++ [name])) := by
  rw [remove, findEnd_join h henters]
  simp [hshort, hget]

/-- Removing takes a file or a link from the directory. -/
theorem remove_ok (h : IsName name) (hremove : disk.remove cwd (Path.join base name) = .ok disk') :
    ∃ links there entry, disk.Enters cwd base links there ∧
      disk.get? (there ++ [name]) = some entry ∧ entry ≠ .directory ∧
      disk' = disk.erase (there ++ [name]) := by
  rw [remove] at hremove
  split at hremove
  · contradiction
  · contradiction
  · next directory last slash hend =>
      obtain ⟨links, there, henters, hplace⟩ := exists_enters_of_findEnd h hend
      cases hplace
      split at hremove
      · contradiction
      · split at hremove
        · contradiction
        · contradiction
        · next entry hentry hget =>
            rw [if_neg Bool.false_ne_true] at hremove
            cases hremove
            exact ⟨links, directory, entry, henters, hget, hentry, rfl⟩

/-- Giving a name to what has another name. -/
theorem rename_ok {source target : Text} (h : disk.rename cwd source target = .ok disk') :
    ∃ here first slash there second entry, disk.findEnd cwd source = .ok (.name here first slash) ∧
      disk.findEnd cwd target = .ok (.name there second false) ∧
      disk.get? (here ++ [first]) = some entry ∧ entry ≠ .directory ∧
      disk.get? (there ++ [second]) ≠ some .directory ∧
      disk' = (disk.erase (here ++ [first])).put (there ++ [second]) entry := by
  rw [rename] at h
  split at h
  · contradiction
  · contradiction
  · next here first slash there second slash' hsource htarget =>
      split at h
      · contradiction
      split at h
      · contradiction
      · contradiction
      · split at h <;> contradiction
      · next entry hentry hget hdirectory =>
          split at h
          · contradiction
          · next hslash =>
              cases h
              rw [eq_false_of_ne_true hslash] at htarget
              exact ⟨here, first, slash, there, second, entry, hsource, htarget, hget, hentry,
                hdirectory, rfl⟩
  · contradiction

/-! ## removing what can be read -/

/-- What can be read is a file. -/
theorem find_of_readText {path text : Text} (h : disk.readText cwd path = .ok text) :
    ∃ location file, disk.find cwd true path = .ok (.found location (.file file)) := by
  rw [readText, readBytes, lookup] at h
  cases hfind : disk.find cwd true path with
  | error fault =>
      rw [hfind] at h
      contradiction
  | ok destination =>
      rw [hfind] at h
      cases destination with
      | free directory name => contradiction
      | found location entry =>
          cases entry with
          | file file => exact ⟨location, file, rfl⟩
          | directory => contradiction
          | link target => contradiction

/-- The directory of a name that leads to a file is entered without the name. -/
theorem enters_erase (h : IsName name) (henters : disk.Enters cwd base links there)
    (hfind : disk.find cwd true (Path.join base name) = .ok (.found location (.file file))) :
    (disk.erase (there ++ [name])).Enters cwd base links there := by
  obtain ⟨hnul, start, hstart, hleads⟩ := henters
  refine ⟨hnul, start, hstart, ?_⟩
  rw [find_join h ⟨hnul, start, hstart, hleads⟩, walk_last h] at hfind
  split at hfind
  · contradiction
  · split at hfind
    · cases hfind
    · next target hget =>
        refine (hleads.erase hget).resolve_right ?_
        rintro ⟨middle, links', between, hle, hthrough⟩
        -- The link leads to a file, so no way to a directory goes through it.
        cases links with
        | zero => contradiction
        | succ fewer =>
            have hfile := walk_mono (Nat.le_of_succ_le hle) hfind
            have hdirectory := hthrough.walk_append []
            rw [List.append_nil, hfile, walk_nil] at hdirectory
            cases hdirectory
    · next entry hlink hget =>
        cases hfind
        refine hleads.mono fun other entry hother hfile => ?_
        rw [get?_erase disk (by simp), if_neg, hother]
        rintro rfl
        rw [hget] at hother
        rw [← Option.some.inj hother] at hfile
        contradiction

/-- **What can be read can be removed**, and is not there afterwards. -/
theorem remove_of_readText {text : Text} (h : IsName name) (hshort : isTooLong name = false)
    (hread : disk.readText cwd (Path.join base name) = .ok text) :
    ∃ place, disk.placeOf? cwd (Path.join base name) = some place ∧ place ≠ [] ∧
      disk.remove cwd (Path.join base name) = .ok (disk.erase place) ∧
      (disk.erase place).readText cwd (Path.join base name) = .error .notFound := by
  obtain ⟨location, file, hfind⟩ := find_of_readText hread
  obtain ⟨links, there, henters⟩ := exists_enters_of_find h hfind
  refine ⟨there ++ [name], placeOf?_join h henters, by simp, ?_, ?_⟩
  · have hwalk := hfind
    rw [find_join h henters, walk_last h, hshort, if_neg Bool.false_ne_true] at hwalk
    cases hget : disk.get? (there ++ [name]) with
    | none =>
        simp only [hget] at hwalk
        cases hwalk
    | some entry =>
        refine remove_name h hshort henters hget ?_
        rintro rfl
        simp only [hget] at hwalk
        cases hwalk
  · rw [readText, readBytes, lookup, find_join h (enters_erase h henters hfind), walk_last h,
      hshort, if_neg Bool.false_ne_true, get?_erase disk (by simp), if_pos rfl]
    rfl

end TreeSync.Disk
