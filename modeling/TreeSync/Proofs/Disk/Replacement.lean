import TreeSync.Proofs.Disk.Operation
import TreeSync.Proofs.Tree.Path

/-!
# TreeSync.Proofs.Disk.Replacement

A file that takes the place of another one, whatever the paths look like.

1. Only a path that ends with a name, and no slash after it, can be given to a file
   (`exists_join_of_findEnd`), and which place it names depends on directories and links
   alone (`findEnd_of_keeps`).
2. Directories are made for the path and for the paths above it, nowhere else
   (`makes_makeDirectories`).
3. What is written where nothing stands is a new file there (`write_ok_of_vacant`).
4. A file gets a path exactly if the path ends with a name that no directory has
   (`TakesFile`, `rename_ok_of_takesFile`, `takesFile_of_rename`), and it is read there
   unless the way to its directory went through a link that it replaced
   (`readBytes_eq_ok_iff_of_replaced`).
-/

namespace TreeSync

/-! ## paths above a path -/

namespace Path

/-- A path from which some components at the end were taken off. -/
inductive IsAbove : Text → Text → Prop
  | parent {above path : Text} (h : parent? path = some above) : IsAbove above path
  | step {above middle path : Text} (h : parent? path = some middle) :
      IsAbove above middle → IsAbove above path

/-- What is above the parent of a path is above the path. -/
theorem isAbove_of_parent? {above parent path : Text} (hparent : parent? path = some parent)
    (h : above = parent ∨ IsAbove above parent) : IsAbove above path := by
  obtain rfl | h := h
  · exact .parent hparent
  · exact .step hparent h

/-- A path that ends with its last name, and not with a slash, is joined from that name. -/
theorem exists_join_of_names {path name : Text} (h : IsName name)
    (hlast : (names path).getLast? = some name) (hslash : path.getLast? ≠ some '/') :
    ∃ base, path = join base name := by
  by_cases hsplit : '/' ∈ path
  · obtain ⟨dir, tail, rfl, htail⟩ := eq_append_of_mem hsplit
    have hne : tail ≠ [] := by
      rintro rfl
      simp at hslash
    have hnames : names (dir ++ '/' :: tail) = names dir ++ [tail] := by
      rw [names_append, names, names, Text.pieces_of_not_mem htail]
      simp [hne]
    obtain rfl : tail = name := by
      rw [hnames, List.getLast?_concat] at hlast
      exact Option.some.inj hlast
    refine ⟨dir ++ ['/'], ?_⟩
    obtain ⟨hnil, -⟩ | ⟨before, hbefore, hjoin⟩ | ⟨-, hend, -⟩ := join_eq (dir ++ ['/']) h
    · simp at hnil
    · rw [hjoin, List.append_cancel_right hbefore]
    · simp at hend
  · refine ⟨[], ?_⟩
    have heq : path = name := by
      have hne : path ≠ [] := by
        rintro rfl
        simp [names, Text.pieces] at hlast
      rw [names, Text.pieces_of_not_mem hsplit] at hlast
      simpa [hne] using hlast
    obtain ⟨-, hjoin⟩ | ⟨before, hbefore, -⟩ | ⟨hnil, -⟩ := join_eq [] h
    · rw [hjoin, heq]
    · simp at hbefore
    · exact absurd rfl hnil

end Path

namespace Disk

variable {disk disk' disk'' : Disk} {cwd : Option Location} {base name path : Text}
  {links : Nat} {there location : Location}

/-! ## the end of a path -/

/-- The parts of a name that is short enough are. -/
theorem isTooLong_append_eq_false {a b : Text} (h : isTooLong (a ++ b) = false) :
    isTooLong a = false ∧ isTooLong b = false := by
  have hsize : (a ++ b).bytes.size = a.bytes.size + b.bytes.size := by
    rw [Text.bytes, String.ofList_append, String.toUTF8_eq_toByteArray,
      String.toByteArray_append, ByteArray.size_append]
    rfl
  simp only [isTooLong, hsize, decide_eq_false_iff_not, Nat.not_lt] at h ⊢
  omega

/-- A path that can be given to a file is its name, joined to what stands before it. -/
theorem exists_join_of_findEnd (h : disk.findEnd cwd path = .ok (.name there name false)) :
    ∃ base, path = Path.join base name ∧ IsName name := by
  simp only [findEnd] at h
  split at h
  · contradiction
  next hnul =>
  split at h
  · split at h <;> cases h
  next last hlast =>
  split at h
  · split at h
    · cases h
    next hplain =>
    obtain ⟨rfl, rfl, hslash⟩ : _ ∧ last = name ∧ path.getLast? ≠ some '/' := by simpa using h
    have hmem : last ∈ Path.names path := List.mem_of_getLast? hlast
    have hname : IsName last :=
      { ne_nil := Path.ne_nil_of_mem_names hmem
        slash := Path.slash_not_mem_of_mem_names hmem
        nul := fun hin => hnul (by simpa using Text.mem_of_mem_pieces (List.mem_filter.mp hmem).1 hin)
        dot := fun hdot => hplain (.inl hdot)
        up := fun hup => hplain (.inr hup) }
    obtain ⟨base, hbase⟩ := Path.exists_join_of_names hname hlast hslash
    exact ⟨base, hbase, hname⟩
  · contradiction
  · contradiction

/-- **The end of a path stays** as long as directories and links do. -/
theorem findEnd_of_keeps {place : PathEnd} (hkeeps : Keeps disk disk')
    (h : disk.findEnd cwd path = .ok place) : disk'.findEnd cwd path = .ok place := by
  simp only [findEnd] at h ⊢
  split at h
  · contradiction
  next hnul =>
  rw [if_neg hnul]
  split at h
  · exact h
  next last hlast =>
  have hnames : ∀ n ∈ (Path.names path).dropLast, n ≠ [] ∧ '/' ∉ n := fun n hn =>
    have hmem := (List.dropLast_sublist _).subset hn
    ⟨Path.ne_nil_of_mem_names hmem, Path.slash_not_mem_of_mem_names hmem⟩
  have hnuls : ∀ n ∈ (Path.names path).dropLast, '\x00' ∉ n := fun n hn hmem =>
    hnul (by simpa using Text.mem_of_mem_pieces (List.mem_filter.mp
      ((List.dropLast_sublist _).subset hn)).1 hmem)
  have hfind : ∀ d : Disk, d.find cwd true (before path (Path.names path).dropLast) = _ :=
    fun d => find_before hnames hnuls
  -- The directory was entered, and is entered in the same way.
  have hsame : ∀ directory entry,
      disk.find cwd true (before path (Path.names path).dropLast) = .ok (.found directory entry) →
        disk'.find cwd true (before path (Path.names path).dropLast) =
          .ok (.found directory entry) := by
    intro directory entry hfound
    rw [hfind] at hfound ⊢
    cases hstart : startOf cwd path with
    | none =>
        rw [hstart] at hfound
        contradiction
    | some start =>
        simp only [hstart] at hfound ⊢
        obtain ⟨links, there, hleads⟩ := exists_leads_of_walk (List.cons_ne_nil _ _) hfound
        rw [hleads.walk_append, walk_dot, walk_nil] at hfound
        rw [(hleads.mono hkeeps).walk_append, walk_dot, walk_nil, hfound]
  split at h
  · next directory entry hfound =>
      have hfound' := hsame directory entry hfound
      simp only [before, Path.names] at hfound'
      rw [hfound']
      exact h
  · contradiction
  · contradiction

/-- A place is where it was, on a disk that keeps what was there. -/
theorem placeOf?_of_keeps (hkeeps : Keeps disk disk')
    (h : disk.placeOf? cwd path = some location) : disk'.placeOf? cwd path = some location := by
  rw [placeOf?] at h ⊢
  split at h
  · next hend => rwa [findEnd_of_keeps hkeeps hend]
  · contradiction

/-- A name that has a place has a directory that it is in. -/
theorem exists_enters_of_placeOf? (h : IsName name)
    (hplace : disk.placeOf? cwd (Path.join base name) = some location) :
    ∃ links there, disk.Enters cwd base links there ∧ location = there ++ [name] := by
  rw [placeOf?] at hplace
  split at hplace
  · next hend =>
      obtain ⟨links, there, henters, heq⟩ := exists_enters_of_findEnd h hend
      cases heq
      exact ⟨links, _, henters, (Option.some.inj hplace).symm⟩
  · contradiction

/-! ## making directories -/

/-- Everything on a disk stays, and what is new are directories, at places that certain
paths name. -/
structure Makes (paths : Text → Prop) (cwd : Option Location) (disk disk' : Disk) : Prop where
  grows : Grows disk disk'
  named : ∀ location, disk.get? location = none → disk'.get? location ≠ none →
    ∃ path, paths path ∧ disk'.placeOf? cwd path = some location

theorem Makes.refl (paths : Text → Prop) (disk : Disk) : Makes paths cwd disk disk :=
  ⟨.refl disk, fun _ hnone hsome => absurd hnone hsome⟩

theorem Makes.mono {paths paths' : Text → Prop} (h : Makes paths cwd disk disk')
    (hsub : ∀ path, paths path → paths' path) : Makes paths' cwd disk disk' :=
  ⟨h.grows, fun location hnone hsome =>
    (h.named location hnone hsome).imp fun path hpath => ⟨hsub path hpath.1, hpath.2⟩⟩

theorem Makes.trans {paths : Text → Prop} (h : Makes paths cwd disk disk')
    (h' : Makes paths cwd disk' disk'') : Makes paths cwd disk disk'' := by
  refine ⟨h.grows.trans h'.grows, fun location hnone hsome => ?_⟩
  by_cases hmiddle : disk'.get? location = none
  · exact h'.named location hmiddle hsome
  · obtain ⟨path, hpath, hplace⟩ := h.named location hnone hmiddle
    exact ⟨path, hpath, placeOf?_of_keeps h'.grows.builds.keeps hplace⟩

/-- One directory is made at the place that its path names. -/
theorem makes_makeDirectory (h : disk.makeDirectory cwd path = .ok disk') :
    Makes (· = path) cwd disk disk' := by
  refine ⟨makeDirectory_ok h, fun location hnone hsome => ⟨path, rfl, ?_⟩⟩
  have hkeeps := (makeDirectory_ok h).builds.keeps
  rw [makeDirectory, make] at h
  split at h
  · contradiction
  · contradiction
  · next directory name slash hend =>
      split at h
      · contradiction
      · split at h
        · contradiction
        · cases h
          rw [get?_put _ (by simp)] at hsome
          split at hsome
          · next heq => rw [placeOf?, findEnd_of_keeps hkeeps hend, heq]
          · exact absurd hnone hsome

/-- **Making a directory** makes that path and paths above it, and no others. -/
theorem makes_makeDirectoriesWithin (depth : Nat) (path : Text) (disk : Disk) :
    Makes (fun above => above = path ∨ Path.IsAbove above path) cwd disk
      (makeDirectoriesWithin cwd depth path disk).2 := by
  induction depth generalizing path with
  | zero => exact .refl _ disk
  | succ depth ih =>
      rw [makeDirectoriesWithin]
      split
      · exact .refl _ disk
      · split
        · next hmake => exact (makes_makeDirectory hmake).mono fun _ => .inl
        · split
          · exact .refl _ disk
          · next parent hparent =>
              have hmade := (ih parent).mono fun above habove =>
                (Or.inr (Path.isAbove_of_parent? hparent habove) : above = path ∨ _)
              split
              · next heq => rwa [heq] at hmade
              · next heq =>
                  rw [heq] at hmade
                  split
                  · next hmake =>
                      exact hmade.trans ((makes_makeDirectory hmake).mono fun _ => .inl)
                  · split <;> exact hmade
        · split <;> exact .refl _ disk

/-- **Directories are made** for a path and for the paths above it. -/
theorem makes_makeDirectories (disk : Disk) (path : Text) :
    Makes (fun above => above = path ∨ Path.IsAbove above path) cwd disk
      (disk.makeDirectories cwd path).2 :=
  makes_makeDirectoriesWithin _ path disk

/-! ## writing where nothing stands -/

/-- **What is written where no file and no link stands** is a new file at that place. -/
theorem write_ok_of_vacant {content : ByteArray} (h : IsName name)
    (hvacant : ∀ place, disk.placeOf? cwd (Path.join base name) = some place →
      disk.get? place = none ∨ disk.get? place = some .directory)
    (hwrite : disk.write cwd (Path.join base name) content = .ok disk') :
    ∃ links there file, disk.Enters cwd base links there ∧ isTooLong name = false ∧
      disk.get? (there ++ [name]) = none ∧ file.content = content ∧
      PutsFile (there ++ [name]) file disk disk' := by
  obtain ⟨opened, location, file, hopen, hputs⟩ := write_ok hwrite
  obtain ⟨links, there, henters⟩ := exists_enters_of_openOrCreate h hopen
  have hplace := hvacant _ (placeOf?_join h henters)
  have hlink : ∀ target, disk.get? (there ++ [name]) ≠ some (.link target) := by
    intro target htarget
    rw [htarget] at hplace
    simp at hplace
  obtain rfl := openOrCreate_name h henters hlink hopen
  refine ⟨links, there, _, henters, ?_, ?_, rfl, hputs⟩
  · obtain ⟨-, hfind⟩ := openOrCreate_ok hopen
    rw [find_name h henters hlink] at hfind
    cases hlong : isTooLong name with
    | false => rfl
    | true => simp [hlong] at hfind
  · obtain hnone | hdirectory := hplace
    · exact hnone
    · exact absurd (hputs.isFile _ hdirectory) Bool.false_ne_true

/-- A name that nothing has and that is not too long can be written. -/
theorem exists_write_of_vacant (h : IsName name) (henters : disk.Enters cwd base links there)
    (hshort : isTooLong name = false) (hvacant : disk.get? (there ++ [name]) = none)
    (content : ByteArray) :
    ∃ disk', disk.write cwd (Path.join base name) content = .ok disk' := by
  have hlink : ∀ target, disk.get? (there ++ [name]) ≠ some (.link target) := by
    rw [hvacant]
    nofun
  rw [write, openOrCreate, findEnd_join h henters, find_name h henters hlink, hshort, hvacant]
  exact ⟨_, rfl⟩

/-- A path with a character that no path can hold is not written. -/
theorem write_of_nul (hnul : '\x00' ∈ path) (content : ByteArray) :
    disk.write cwd path content = .error .invalidPath := by
  rw [write, openOrCreate, findEnd, if_pos (by simpa using hnul)]

/-! ## taking a path -/

/-- A path that a file can take: it ends with a name that no directory has. -/
def TakesFile (disk : Disk) (cwd : Option Location) (path : Text) : Prop :=
  ∃ directory name, disk.findEnd cwd path = .ok (.name directory name false) ∧
    disk.get? (directory ++ [name]) ≠ some .directory

/-- What a file was renamed to takes one. -/
theorem takesFile_of_rename {source : Text} (h : disk.rename cwd source path = .ok disk') :
    disk.TakesFile cwd path := by
  obtain ⟨-, -, -, directory, name, -, -, htarget, -, -, hdirectory, -⟩ := rename_ok h
  exact ⟨directory, name, htarget, hdirectory⟩

/-- A file can be renamed to any path that takes one, if the name there is not too
long. -/
theorem rename_ok_of_takesFile {source : Text} {here : Location} {first : Text} {slash : Bool}
    {file : File} (hsource : disk.findEnd cwd source = .ok (.name here first slash))
    (hget : disk.get? (here ++ [first]) = some (.file file)) (hfirst : isTooLong first = false)
    (h : disk.TakesFile cwd path)
    (hshort : ∀ directory name, disk.findEnd cwd path = .ok (.name directory name false) →
      isTooLong name = false) :
    ∃ disk', disk.rename cwd source path = .ok disk' := by
  obtain ⟨directory, name, htarget, hdirectory⟩ := h
  rw [rename, hsource, htarget]
  simp only [hfirst, hshort directory name htarget, hget]
  cases htaken : disk.get? (directory ++ [name]) with
  | none => exact ⟨_, rfl⟩
  | some entry =>
      cases entry with
      | directory => exact absurd htaken hdirectory
      | file file => exact ⟨_, rfl⟩
      | link target => exact ⟨_, rfl⟩

/-! ## reading what took a path -/

/-- Erasing only takes away. -/
theorem keeps_of_erase (hne : location ≠ []) : Keeps (disk.erase location) disk := by
  intro other entry hget _
  rw [get?_erase disk hne] at hget
  split at hget
  · contradiction
  · exact hget

/-- Where a file was put, directories and links are those of the disk without the entry that
it replaced. -/
theorem keeps_erase {file : File} (hself : disk'.get? location = some (.file file))
    (hoff : AgreesOff [location] disk disk') :
    location ≠ [] ∧ Keeps disk' (disk.erase location) ∧ Keeps (disk.erase location) disk' := by
  have hne : location ≠ [] := by
    rintro rfl
    rw [get?_nil] at hself
    cases hself
  have hother : ∀ other, other ≠ location → disk'.get? other = disk.get? other :=
    fun other hother => hoff other (by simpa using hother)
  refine ⟨hne, fun other entry hget hfile => ?_, fun other entry hget _ => ?_⟩
  · by_cases heq : other = location
    · rw [heq, hself] at hget
      cases hget
      contradiction
    · rw [get?_erase disk hne, if_neg heq, ← hother other heq, hget]
  · rw [get?_erase disk hne] at hget
    split at hget
    · contradiction
    · next heq => rw [hother other heq, hget]

/-- **A file that took a path is read there** exactly if the way to its directory does not
go through the entry that it replaced. -/
theorem readBytes_eq_ok_iff_of_replaced {file : File} (h : IsName name)
    (hshort : isTooLong name = false)
    (hplace : disk.placeOf? cwd (Path.join base name) = some location)
    (hself : disk'.get? location = some (.file file)) (hoff : AgreesOff [location] disk disk') :
    disk'.readBytes cwd (Path.join base name) = .ok file.content ↔
      (disk.erase location).placeOf? cwd (Path.join base name) = some location := by
  obtain ⟨hne, hwithout, hwith⟩ := keeps_erase hself hoff
  constructor
  · intro hread
    obtain ⟨found, there, hfind⟩ : ∃ found there,
        disk'.find cwd true (Path.join base name) = .ok (.found there (.file found)) := by
      rw [readBytes] at hread
      split at hread
      · next there found hlookup => exact ⟨found, there, find_of_lookup hlookup⟩
      · contradiction
      · contradiction
    obtain ⟨links, there, henters⟩ := exists_enters_of_find h hfind
    have hreached := placeOf?_join h (henters.mono hwithout)
    rw [hreached, ← hplace]
    exact (placeOf?_of_keeps (keeps_of_erase hne) hreached).symm
  · intro hclear
    obtain ⟨links, there, henters, rfl⟩ := exists_enters_of_placeOf? h hclear
    rw [readBytes, lookup_name h hshort (henters.mono hwith) hself]

/-- No way goes through a place with a file or with nothing. -/
theorem placeOf?_erase (hne : location ≠ [])
    (hplain : ∀ entry, disk.get? location = some entry → entry.isFile = true)
    (hplace : disk.placeOf? cwd path = some location) :
    (disk.erase location).placeOf? cwd path = some location := by
  refine placeOf?_of_keeps (fun other entry hget hfile => ?_) hplace
  rw [get?_erase disk hne, if_neg, hget]
  rintro rfl
  rw [hplain entry hget] at hfile
  contradiction

end Disk

end TreeSync
