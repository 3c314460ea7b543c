import TreeSync.Proofs.Disk.Directory

/-!
# TreeSync.Proofs.Disk.Absence

Paths with no file at their end, and what the system says of them.

A way ends early at the first name that leads no further.  Two things can be there:

1. nothing: the file, or a directory on the way to it, was removed (`Removed`), and
   the file is not found (`readText_of_removed`);
2. a plain file where a directory would have to be (`Obstructed`), which is another
   fault (`readText_of_obstructed`), though there is no file at the path either.
-/

namespace TreeSync.Disk

variable {disk : Disk} {cwd : Option Location} {path : Text} {there : Location} {name : Text}
  {rest : List Text}

/-- The first names of a path lead to a directory, in which a name is to be taken next. -/
structure Approaches (disk : Disk) (cwd : Option Location) (path : Text) (there : Location)
    (name : Text) (rest : List Text) : Prop where
  nul : '\x00' ∉ path
  dot : name ≠ ['.']
  up : name ≠ ['.', '.']
  short : isTooLong name = false
  leads : ∃ start before links, startOf cwd path = some start ∧
    namesOfPath path = before ++ name :: rest ∧ disk.Leads maxLinks start before links there

/-- A name of the path is missing in the directory that the names before it lead to. -/
def Removed (disk : Disk) (cwd : Option Location) (path : Text) : Prop :=
  ∃ there name rest, disk.Approaches cwd path there name rest ∧
    disk.get? (there ++ [name]) = none

/-- A plain file has a name of the path that is not the last one. -/
def Obstructed (disk : Disk) (cwd : Option Location) (path : Text) : Prop :=
  ∃ there name rest file, disk.Approaches cwd path there name rest ∧ rest ≠ [] ∧
    disk.get? (there ++ [name]) = some (.file file)

/-- Walking to a path comes to the directory, and to the names that are left. -/
theorem Approaches.exists_walk (h : disk.Approaches cwd path there name rest) :
    ∃ links, disk.find cwd true path = disk.walk true links there (name :: rest) := by
  obtain ⟨start, before, links, hstart, hnames, hleads⟩ := h.leads
  have hne : path ≠ [] := by
    rintro rfl
    have hlength := congrArg List.length hnames
    simp [namesOfPath, Text.pieces] at hlength
  refine ⟨links, ?_⟩
  rw [find_eq h.nul hne, hstart, hnames]
  exact hleads.walk_append _

/-- **What was removed is not found**, whichever name on the way is missing. -/
theorem readText_of_removed (h : disk.Removed cwd path) :
    disk.readText cwd path = .error .notFound := by
  obtain ⟨there, name, rest, happroaches, hget⟩ := h
  obtain ⟨links, hwalk⟩ := happroaches.exists_walk
  have hlookup : disk.lookup cwd path = .error .notFound := by
    rw [lookup, hwalk, walk_cons happroaches.dot happroaches.up, happroaches.short,
      if_neg Bool.false_ne_true, hget]
    by_cases hlast : rest = []
    · rw [if_pos hlast]
      rfl
    · rw [if_neg hlast]
      rfl
  rw [readText, readBytes, hlookup]

/-- **A plain file on the way** is no directory, so nothing behind it is looked for. -/
theorem readText_of_obstructed (h : disk.Obstructed cwd path) :
    disk.readText cwd path = .error .notDirectory := by
  obtain ⟨there, name, rest, file, happroaches, hrest, hget⟩ := h
  obtain ⟨links, hwalk⟩ := happroaches.exists_walk
  have hlookup : disk.lookup cwd path = .error .notDirectory := by
    rw [lookup, hwalk, walk_cons happroaches.dot happroaches.up, happroaches.short,
      if_neg Bool.false_ne_true, hget]
    simp only [if_neg hrest]
    rfl
  rw [readText, readBytes, hlookup]

end TreeSync.Disk
