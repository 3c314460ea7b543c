import TreeSync.Disk.Path
import TreeSync.Tree.Path

/-!
# TreeSync.Proofs.Tree.Path

Paths of a working tree taken apart at their last slash.

A path is a directory, a slash and a name (`parent?_append`, `fileName?_append`).
Where git lists it, none of its names is empty (`HasNames`), so a directory is
anchored by a slash in front of it (`anchored_of_hasNames`), and a file is found
in a directory of the tree at its path in the tree (`Path.join_append`).

All that is said of paths as they are written, so backslashes have no part in it:
`ofText` has made slashes of them (`backslash_not_mem_ofText`).
-/

namespace TreeSync

/-! ## names -/

/-- A path as git lists it: names with one slash between two. -/
def HasNames (path : Text) : Prop := [] ∉ Text.pieces '/' path

namespace HasNames

instance (path : Text) : Decidable (HasNames path) :=
  inferInstanceAs (Decidable ([] ∉ Text.pieces '/' path))

theorem of_append {dir name : Text} (h : HasNames (dir ++ '/' :: name)) :
    HasNames dir ∧ HasNames name := by
  simpa [HasNames, Text.pieces_append] using h

theorem ne_nil {path : Text} (h : HasNames path) : path ≠ [] := by
  rintro rfl
  exact h List.mem_cons_self

theorem head?_ne {path : Text} (h : HasNames path) : path.head? ≠ some '/' := by
  intro hhead
  obtain ⟨rest, rfl⟩ := List.head?_eq_some_iff.mp hhead
  have hsplit : HasNames ([] ++ '/' :: rest) := h
  exact hsplit.of_append.1.ne_nil rfl

theorem getLast?_ne {path : Text} (h : HasNames path) : path.getLast? ≠ some '/' := by
  intro hlast
  obtain ⟨dir, rfl⟩ := List.getLast?_eq_some_iff.mp hlast
  exact (of_append h).2.ne_nil rfl

end HasNames

/-- The last name of a path is all of it or stands behind a slash. -/
theorem eq_append_of_mem {path : Text} (h : '/' ∈ path) :
    ∃ dir name, path = dir ++ '/' :: name ∧ '/' ∉ name := by
  obtain ⟨name, dir, heq, hname⟩ := List.eq_append_cons_of_mem (List.mem_reverse.mpr h)
  refine ⟨dir.reverse, name.reverse, ?_, by simpa using hname⟩
  simpa using congrArg List.reverse heq

namespace TreePath

/-! ## reading -/

theorem ofText_of_not_mem {t : Text} (h : '\\' ∉ t) : ofText t = ⟨t⟩ := by
  have hmap : t.map (fun c => if c = '\\' then '/' else c) = t.map id := by
    apply List.map_congr_left
    intro c hc
    have hne : c ≠ '\\' := fun heq => h (heq ▸ hc)
    simp [hne]
  rw [ofText, hmap, List.map_id]

theorem backslash_not_mem_ofText (t : Text) : '\\' ∉ (ofText t).text := by
  simp only [ofText, List.mem_map, not_exists, not_and]
  intro c _
  split
  · decide
  · next h => exact h

/-! ## the last slash -/

section
variable {name : Text} (hname : '/' ∉ name)
include hname

theorem bne_slash_of_mem {c : Char} (hc : c ∈ name) : (c != '/') = true := by
  rw [bne_iff_ne]
  rintro rfl
  exact hname hc

variable (hne : name ≠ [])
include hne

/-- Nothing is taken off a path that ends in a name. -/
theorem trimmed_append (before : Text) :
    (⟨before ++ name⟩ : TreePath).trimmed = before ++ name := by
  obtain ⟨first, c, rfl⟩ : ∃ first c, name = first ++ [c] :=
    ⟨name.dropLast, name.getLast hne, (List.dropLast_concat_getLast hne).symm⟩
  have hc : (c == '/') = false := by
    simpa using bne_slash_of_mem hname (c := c) (by simp)
  show Text.dropEndWhile (· == '/') (before ++ (first ++ [c])) = before ++ (first ++ [c])
  rw [← List.append_assoc, Text.dropEndWhile_concat (p := (· == '/')) hc]

theorem fileName?_append (dir : Text) :
    (⟨dir ++ '/' :: name⟩ : TreePath).fileName? = some name := by
  have htrimmed : (⟨dir ++ '/' :: name⟩ : TreePath).trimmed = dir ++ '/' :: name := by
    have h := trimmed_append hname hne (dir ++ ['/'])
    simpa using h
  have hrun : (dir ++ '/' :: name).reverse.takeWhile (· != '/') = name.reverse := by
    have hall : ∀ c ∈ name.reverse, (c != '/') = true :=
      fun c hc => bne_slash_of_mem hname (List.mem_reverse.mp hc)
    rw [List.reverse_append, List.reverse_cons, List.append_assoc,
      List.takeWhile_append_of_pos hall]
    simp
  rw [fileName?, htrimmed, hrun]
  split
  · next h => exact absurd (List.reverse_eq_nil_iff.mp h) hne
  · simp

/-- What precedes the last slash is the parent, unless that is nothing. -/
theorem parent?_append {dir : Text} (hdir : dir ≠ []) :
    (⟨dir ++ '/' :: name⟩ : TreePath).parent? = some ⟨dir⟩ := by
  have htrimmed : (⟨dir ++ '/' :: name⟩ : TreePath).trimmed = dir ++ ['/'] ++ name := by
    have h := trimmed_append hname hne (dir ++ ['/'])
    simpa using h
  have hbefore : Text.dropEndWhile (· != '/') (dir ++ ['/'] ++ name) = dir ++ ['/'] := by
    rw [Text.dropEndWhile_append fun c => bne_slash_of_mem hname,
      Text.dropEndWhile_concat (by decide)]
  obtain ⟨c, dir, rfl⟩ := List.exists_cons_of_ne_nil hdir
  rw [parent?, htrimmed, hbefore]
  cases dir with
  | nil => rfl
  | cons d dir =>
      have hdrop : (c :: d :: dir ++ ['/']).dropLast = c :: d :: dir := List.dropLast_concat
      simpa using hdrop

/-- A single name has no parent. -/
theorem parent?_of_not_mem : (⟨name⟩ : TreePath).parent? = none := by
  have htrimmed : (⟨name⟩ : TreePath).trimmed = [] ++ name := trimmed_append hname hne []
  have hbefore : Text.dropEndWhile (· != '/') ([] ++ name) = [] := by
    rw [Text.dropEndWhile_append fun c => bne_slash_of_mem hname]
    rfl
  rw [parent?, htrimmed, hbefore]

end

/-! ## anchoring -/

/-- A directory is anchored by a slash in front of it. -/
theorem anchored_of_hasNames {dir : Text} (h : HasNames dir) :
    (⟨dir⟩ : TreePath).anchored = '/' :: dir := by
  have hfirst := h.head?_ne
  have hlast := h.getLast?_ne
  have hstart : dir.dropWhile (· == '/') = dir := by
    cases dir with
    | nil => rfl
    | cons c r =>
        have hc : c ≠ '/' := fun heq => hfirst (by rw [heq]; rfl)
        simp [hc]
  have hend : Text.dropEndWhile (· == '/') dir = dir := by
    obtain ⟨n, hn⟩ := Text.eq_dropEndWhile_append '/' dir
    cases n with
    | zero => simpa using hn.symm
    | succ n =>
        rw [hn, List.replicate_succ', ← List.append_assoc] at hlast
        simp at hlast
  rw [anchored, Text.dropAroundWhile, hstart, hend]
  cases dir with
  | nil => exact absurd rfl h.ne_nil
  | cons c r => rfl

end TreePath

/-! ## joining -/

namespace Path

/-- A relative path is put behind the base, with a slash if the base needs one. -/
theorem join_of_head?_ne {base path : Text} (h : path.head? ≠ some '/') :
    join base path =
      if base = [] ∨ base.getLast? = some '/' then base ++ path else base ++ '/' :: path := by
  have habsolute : isAbsolute path = false := by simpa [isAbsolute] using h
  simp [join, habsolute]

/-- A name below a directory below a base. -/
theorem join_append {root dir name : Text} (h : HasNames (dir ++ '/' :: name)) :
    join root (dir ++ '/' :: name) = join (join root dir) name := by
  obtain ⟨hdir, hname⟩ := h.of_append
  have hbase : ¬(join root dir = [] ∨ (join root dir).getLast? = some '/') := by
    obtain ⟨before, hjoin⟩ : ∃ before, join root dir = before ++ dir := by
      rw [join_of_head?_ne hdir.head?_ne]
      split
      · exact ⟨root, rfl⟩
      · exact ⟨root ++ ['/'], by simp⟩
    simp [hjoin, hdir.ne_nil, hdir.getLast?_ne]
  rw [join_of_head?_ne h.head?_ne, join_of_head?_ne hname.head?_ne, if_neg hbase,
    join_of_head?_ne hdir.head?_ne]
  split <;> simp

end Path

end TreeSync
