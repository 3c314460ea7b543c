import TreeSync.Disk

/-!
# TreeSync.Proofs.Disk.Entries

What stands where after a change of a disk, and what two disks have in common.

A disk is seen through `get?` only.  Four relations say what a change leaves alone:

* `Keeps`: every directory and every link stays, so every way through the disk does;
* `AgreesOff`: everything stays, except at some places;
* `Grows`: everything stays, and what is new is a directory;
* `Builds`: directories and links stay, no link is new, and except at some places all
  files stay and none is new.
-/

namespace TreeSync

/-- True of regular files. -/
def Entry.isFile : Entry → Bool
  | .file _ => true
  | _ => false

namespace Disk

/-! ## one change -/

@[simp] theorem get?_nil (disk : Disk) : disk.get? [] = some .directory := rfl

/-- The entry that a list has first for a location. -/
def entryIn (entries : List (Location × Entry)) (location : Location) : Option Entry :=
  (entries.find? fun e => e.1 == location).map Prod.snd

theorem get?_of_ne_nil (disk : Disk) {location : Location} (h : location ≠ []) :
    disk.get? location = entryIn disk.entries location := if_neg h

theorem entryIn_cons (e : Location × Entry) (entries : List (Location × Entry))
    (location : Location) :
    entryIn (e :: entries) location =
      if e.1 = location then some e.2 else entryIn entries location := by
  by_cases h : e.1 = location <;> simp [entryIn, h]

/-- Replacing an entry leaves the entries of other places. -/
theorem entryIn_map (entries : List (Location × Entry)) (location other : Location)
    (entry : Entry) (hother : other ≠ location) :
    entryIn (entries.map fun e => if e.1 == location then (location, entry) else e) other =
      entryIn entries other := by
  induction entries with
  | nil => rfl
  | cons e entries ih =>
      rw [List.map_cons, entryIn_cons, entryIn_cons, ih]
      by_cases h : e.1 = location
      · simp [h, Ne.symm hother]
      · simp [h]

/-- A replaced entry is the one that is found. -/
theorem entryIn_map_self {entries : List (Location × Entry)} {location : Location}
    (h : entries.any (·.1 == location) = true) (entry : Entry) :
    entryIn (entries.map fun e => if e.1 == location then (location, entry) else e) location =
      some entry := by
  induction entries with
  | nil => contradiction
  | cons e entries ih =>
      rw [List.map_cons, entryIn_cons]
      by_cases he : e.1 = location
      · simp [he]
      · rw [List.any_cons, beq_false_of_ne he, Bool.false_or] at h
        rw [beq_false_of_ne he, if_neg Bool.false_ne_true, if_neg he, ih h]

/-- An entry at the end is found if there was none before. -/
theorem entryIn_append (entries : List (Location × Entry)) (e : Location × Entry)
    (location : Location) :
    entryIn (entries ++ [e]) location =
      (entryIn entries location).or (if e.1 = location then some e.2 else none) := by
  induction entries with
  | nil => rw [List.nil_append, entryIn_cons]; rfl
  | cons e' entries ih =>
      rw [List.cons_append, entryIn_cons, entryIn_cons, ih]
      split <;> rfl

/-- No entry of a place, and none is found. -/
theorem entryIn_of_not_any {entries : List (Location × Entry)} {location : Location}
    (h : entries.any (·.1 == location) = false) : entryIn entries location = none := by
  rw [List.any_eq_false] at h
  rw [entryIn, List.find?_eq_none.mpr h, Option.map_none]

/-- Taking the entries of a place out leaves those of all others. -/
theorem entryIn_filter (entries : List (Location × Entry)) (location other : Location) :
    entryIn (entries.filter fun e => e.1 != location) other =
      if other = location then none else entryIn entries other := by
  induction entries with
  | nil => simp [entryIn]
  | cons e entries ih =>
      by_cases he : e.1 = location
      · rw [List.filter_cons_of_neg (by simp [he]), ih, entryIn_cons, he]
        by_cases hother : other = location
        · rw [if_pos hother, if_pos hother]
        · rw [if_neg hother, if_neg hother, if_neg (Ne.symm hother)]
      · rw [List.filter_cons_of_pos (by simp [he]), entryIn_cons, ih, entryIn_cons]
        by_cases hother : other = location
        · rw [if_pos hother, if_pos hother, if_neg fun h => he (h.trans hother)]
        · rw [if_neg hother, if_neg hother]

/-- What stands at a location is what was put there last. -/
theorem get?_put (disk : Disk) {location : Location} (h : location ≠ []) (entry : Entry)
    (other : Location) :
    (disk.put location entry).get? other =
      if other = location then some entry else disk.get? other := by
  by_cases hroot : other = []
  · subst hroot
    rw [if_neg (Ne.symm h)]
    rfl
  rw [get?_of_ne_nil _ hroot, get?_of_ne_nil _ hroot, put]
  cases hany : disk.entries.any (·.1 == location) with
  | true =>
      rw [if_pos rfl]
      by_cases hother : other = location
      · rw [if_pos hother, hother]
        exact entryIn_map_self hany entry
      · rw [if_neg hother]
        exact entryIn_map disk.entries location other entry hother
  | false =>
      rw [if_neg Bool.false_ne_true]
      show entryIn (disk.entries ++ [(location, entry)]) other = _
      rw [entryIn_append]
      by_cases hother : other = location
      · rw [if_pos hother, if_pos hother.symm, hother, entryIn_of_not_any hany, Option.none_or]
      · rw [if_neg hother, if_neg (Ne.symm hother), Option.or_none]

/-- What was put somewhere is there. -/
theorem get?_put_self (disk : Disk) {location : Location} (h : location ≠ []) (entry : Entry) :
    (disk.put location entry).get? location = some entry := by
  rw [get?_put disk h, if_pos rfl]

/-- What was erased is gone, and nothing else is. -/
theorem get?_erase (disk : Disk) {location : Location} (h : location ≠ []) (other : Location) :
    (disk.erase location).get? other = if other = location then none else disk.get? other := by
  by_cases hroot : other = []
  · subst hroot
    rw [if_neg (Ne.symm h)]
    rfl
  · rw [get?_of_ne_nil _ hroot, get?_of_ne_nil _ hroot]
    exact entryIn_filter disk.entries location other

/-- A file that is put somewhere is a new one, and everything else stays. -/
theorem get?_putFile (disk : Disk) {location : Location} (h : location ≠ []) (content : ByteArray)
    (mode : Nat) (other : Location) :
    (disk.putFile location content mode).get? other =
      if other = location then some (.file ⟨disk.nextId, content, mode⟩)
      else disk.get? other :=
  disk.get?_put h _ other

/-! ## what a change leaves alone -/

/-- Every directory and every link of a disk is on the other one, too. -/
def Keeps (disk disk' : Disk) : Prop :=
  ∀ location entry, disk.get? location = some entry → entry.isFile = false →
    disk'.get? location = some entry

/-- Two disks have the same everywhere but at some places. -/
def AgreesOff (places : List Location) (disk disk' : Disk) : Prop :=
  ∀ location, location ∉ places → disk'.get? location = disk.get? location

/-- Everything on a disk stays, and all that is new are directories. -/
structure Grows (disk disk' : Disk) : Prop where
  stays : ∀ location entry, disk.get? location = some entry → disk'.get? location = some entry
  new : ∀ location entry, disk'.get? location = some entry →
    disk.get? location = some entry ∨ entry = .directory

/-- Directories and files are put on a disk, the files at some places, where files may
be removed as well. -/
structure Builds (places : List Location) (disk disk' : Disk) : Prop where
  keeps : Keeps disk disk'
  links : ∀ location target, disk'.get? location = some (.link target) →
    disk.get? location = some (.link target)
  stays : ∀ location entry, location ∉ places → disk.get? location = some entry →
    disk'.get? location = some entry
  new : ∀ location entry, location ∉ places → disk'.get? location = some entry →
    disk.get? location = some entry ∨ entry = .directory

variable {disk disk' disk'' : Disk} {places places' : List Location}

theorem Keeps.refl (disk : Disk) : Keeps disk disk := fun _ _ h _ => h

theorem Keeps.trans (h : Keeps disk disk') (h' : Keeps disk' disk'') : Keeps disk disk'' :=
  fun location entry hget hfile => h' location entry (h location entry hget hfile) hfile

theorem AgreesOff.refl (places : List Location) (disk : Disk) : AgreesOff places disk disk :=
  fun _ _ => rfl

theorem Grows.refl (disk : Disk) : Grows disk disk := ⟨fun _ _ h => h, fun _ _ h => Or.inl h⟩

theorem Grows.trans (h : Grows disk disk') (h' : Grows disk' disk'') : Grows disk disk'' where
  stays location entry hget := h'.stays location entry (h.stays location entry hget)
  new location entry hget := by
    obtain hmiddle | hdirectory := h'.new location entry hget
    · exact h.new location entry hmiddle
    · exact Or.inr hdirectory

theorem Builds.refl (disk : Disk) : Builds [] disk disk :=
  ⟨.refl disk, fun _ _ h => h, fun _ _ _ h => h, fun _ _ _ h => Or.inl h⟩

theorem Builds.trans (h : Builds places disk disk') (h' : Builds places' disk' disk'') :
    Builds (places ++ places') disk disk'' where
  keeps := h.keeps.trans h'.keeps
  links location target hget := h.links location target (h'.links location target hget)
  stays location entry hnot hget :=
    h'.stays location entry (fun hmem => hnot (List.mem_append_right places hmem))
      (h.stays location entry (fun hmem => hnot (List.mem_append_left places' hmem)) hget)
  new location entry hnot hget := by
    obtain hmiddle | hdirectory :=
      h'.new location entry (fun hmem => hnot (List.mem_append_right places hmem)) hget
    · exact h.new location entry (fun hmem => hnot (List.mem_append_left places' hmem)) hmiddle
    · exact Or.inr hdirectory

/-- What builds in some places builds in more. -/
theorem Builds.mono (h : Builds places disk disk') (hsub : ∀ location ∈ places, location ∈ places') :
    Builds places' disk disk' where
  keeps := h.keeps
  links := h.links
  stays location entry hnot := h.stays location entry fun hmem => hnot (hsub location hmem)
  new location entry hnot := h.new location entry fun hmem => hnot (hsub location hmem)

/-- Where only files were, and no link is put, a change is a building. -/
theorem AgreesOff.builds (h : AgreesOff places disk disk')
    (hold : ∀ place ∈ places, ∀ entry, disk.get? place = some entry → entry.isFile = true)
    (hnew : ∀ place ∈ places, ∀ target, disk'.get? place ≠ some (.link target)) :
    Builds places disk disk' where
  keeps location entry hget hfile := by
    by_cases hmem : location ∈ places
    · exact Bool.noConfusion (hfile.symm.trans (hold location hmem entry hget))
    · rw [h location hmem, hget]
  links location target hget := by
    by_cases hmem : location ∈ places
    · exact absurd hget (hnew location hmem target)
    · rw [← h location hmem, hget]
  stays location entry hnot hget := by rw [h location hnot, hget]
  new location entry hnot hget := Or.inl (by rw [← h location hnot, hget])

/-- Growing is building nowhere. -/
theorem Grows.builds (h : Grows disk disk') : Builds [] disk disk' where
  keeps location entry hget _ := h.stays location entry hget
  links location _ hget := (h.new location _ hget).resolve_right nofun
  stays location entry _ hget := h.stays location entry hget
  new location entry _ hget := h.new location entry hget

/-- A new directory in a free place. -/
theorem Grows.put_directory {location : Location} (hne : location ≠ [])
    (hfree : disk.get? location = none) : Grows disk (disk.put location .directory) where
  stays other entry hget := by
    rw [get?_put disk hne, if_neg, hget]
    rintro rfl
    rw [hfree] at hget
    contradiction
  new other entry hget := by
    rw [get?_put disk hne] at hget
    split at hget
    · exact Or.inr (Option.some.inj hget).symm
    · exact Or.inl hget

end Disk

end TreeSync
