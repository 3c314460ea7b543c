import TreeSync.Proofs.Tree.Path
import Mathlib.Data.List.TakeWhile

/-!
# TreeSync.Proofs.Tree.Components

The components of a path: its pieces between slashes that are not empty.

Slashes at the end of a path add no component and count for nothing (`components_trimmed`).
What is left without them is nothing, a single name, or a name behind a slash
(`trimmed_cases`).  The file name is the last component (`fileName?_eq_getLast?`), and there
is a parent where a slash precedes it (`isSome_parent?_iff`).
-/

namespace TreeSync.TreePath

/-! ## components -/

/-- The names on the way to a path. -/
def components (path : TreePath) : List Text := (Text.pieces '/' path.text).filter (· ≠ [])

/-- The components before a slash and those behind it. -/
theorem components_append (a b : Text) :
    (⟨a ++ '/' :: b⟩ : TreePath).components =
      (⟨a⟩ : TreePath).components ++ (⟨b⟩ : TreePath).components := by
  rw [components, Text.pieces_append, List.filter_append, components, components]

theorem components_of_not_mem {name : Text} (hslash : '/' ∉ name) (hne : name ≠ []) :
    (⟨name⟩ : TreePath).components = [name] := by
  rw [components, Text.pieces_of_not_mem hslash, List.filter_cons_of_pos (by simpa using hne),
    List.filter_nil]

/-- Slashes at the end add no component. -/
theorem components_append_replicate (t : Text) (n : Nat) :
    (⟨t ++ List.replicate n '/'⟩ : TreePath).components = (⟨t⟩ : TreePath).components := by
  induction n generalizing t with
  | zero => rw [List.replicate_zero, List.append_nil]
  | succ n ih =>
      have hslash : (⟨t ++ '/' :: []⟩ : TreePath).components = (⟨t⟩ : TreePath).components := by
        rw [components_append]
        exact List.append_nil _
      rw [List.replicate_succ, List.append_cons, ih, hslash]

/-! ## slashes at the end -/

/-- A path is its trimmed text with slashes behind it. -/
theorem exists_eq_trimmed_append (path : TreePath) :
    ∃ n, path.text = path.trimmed ++ List.replicate n '/' :=
  Text.eq_dropEndWhile_append '/' path.text

/-- Slashes at the end add no component. -/
theorem components_trimmed (path : TreePath) :
    (⟨path.trimmed⟩ : TreePath).components = path.components := by
  obtain ⟨n, htext⟩ := path.exists_eq_trimmed_append
  have hmore := components_append_replicate path.trimmed n
  rw [← htext] at hmore
  exact hmore.symm

@[simp] theorem trimmed_trimmed (path : TreePath) :
    (⟨path.trimmed⟩ : TreePath).trimmed = path.trimmed := by
  obtain ⟨n, htext⟩ := path.exists_eq_trimmed_append
  have hslashes : ∀ c ∈ List.replicate n '/', (c == '/') = true := by simp
  have hdrop := Text.dropEndWhile_append (a := path.trimmed) hslashes
  rw [← htext] at hdrop
  exact hdrop.symm

/-- A path without the slashes at its end is nothing, a name, or a name behind a slash. -/
theorem trimmed_cases (path : TreePath) :
    path.trimmed = [] ∨ (path.trimmed ≠ [] ∧ '/' ∉ path.trimmed) ∨
      ∃ dir name, path.trimmed = dir ++ '/' :: name ∧ '/' ∉ name ∧ name ≠ [] := by
  by_cases hslash : '/' ∈ path.trimmed
  · obtain ⟨dir, name, heq, hname⟩ := eq_append_of_mem hslash
    refine Or.inr (Or.inr ⟨dir, name, heq, hname, ?_⟩)
    rintro rfl
    exact Text.getLast?_dropEndWhile_ne '/' path.text (by rw [← trimmed, heq]; simp)
  · by_cases hne : path.trimmed = []
    · exact Or.inl hne
    · exact Or.inr (Or.inl ⟨hne, hslash⟩)

/-- A path without components is slashes only. -/
theorem components_eq_nil_iff {path : TreePath} : path.components = [] ↔ path.trimmed = [] := by
  rw [← components_trimmed]
  obtain hnil | ⟨hne, hslash⟩ | ⟨dir, name, heq, hname, hne⟩ := path.trimmed_cases
  · simp [hnil, components, Text.pieces]
  · simp [components_of_not_mem hslash hne, hne]
  · simp [heq, components_append, components_of_not_mem hname hne]

/-! ## the file name -/

/-- Slashes at the end do not change the name. -/
theorem fileName?_trimmed (path : TreePath) :
    (⟨path.trimmed⟩ : TreePath).fileName? = path.fileName? := by
  rw [fileName?, trimmed_trimmed, fileName?]

theorem fileName?_of_not_mem {name : Text} (hslash : '/' ∉ name) (hne : name ≠ []) :
    (⟨name⟩ : TreePath).fileName? = some name := by
  have htrimmed : (⟨name⟩ : TreePath).trimmed = name := trimmed_append hslash hne []
  have hrun : name.reverse.takeWhile (· != '/') = name.reverse := by
    rw [List.takeWhile_eq_self_iff]
    exact fun c hc => bne_slash_of_mem hslash (List.mem_reverse.mp hc)
  rw [fileName?, htrimmed, hrun]
  split
  · next h => exact absurd (List.reverse_eq_nil_iff.mp h) hne
  · rw [List.reverse_reverse]

/-- **The file name** is the last component. -/
theorem fileName?_eq_getLast? (path : TreePath) :
    path.fileName? = path.components.getLast? := by
  rw [← fileName?_trimmed, ← components_trimmed]
  obtain hnil | ⟨hne, hslash⟩ | ⟨dir, name, heq, hname, hne⟩ := path.trimmed_cases
  · rw [hnil]
    rfl
  · rw [fileName?_of_not_mem hslash hne, components_of_not_mem hslash hne]
    rfl
  · rw [heq, fileName?_append hname hne, components_append, components_of_not_mem hname hne,
      List.getLast?_concat]

/-! ## the parent -/

/-- Nor do they change the parent. -/
theorem parent?_trimmed (path : TreePath) :
    (⟨path.trimmed⟩ : TreePath).parent? = path.parent? := by
  rw [parent?, trimmed_trimmed, parent?]

/-- The parent of a name right behind the first slash is that slash. -/
theorem parent?_slash_cons {name : Text} (hname : '/' ∉ name) (hne : name ≠ []) :
    (⟨'/' :: name⟩ : TreePath).parent? = some ⟨['/']⟩ := by
  have htrimmed : (⟨'/' :: name⟩ : TreePath).trimmed = ['/'] ++ name :=
    trimmed_append hname hne ['/']
  have hbefore : Text.dropEndWhile (· != '/') (['/'] ++ name) = ['/'] := by
    rw [Text.dropEndWhile_append fun c => bne_slash_of_mem hname]
    rfl
  rw [parent?, htrimmed, hbefore]

/-- A name behind a slash has a parent. -/
theorem isSome_parent?_append (dir : Text) {name : Text} (hname : '/' ∉ name) (hne : name ≠ []) :
    (⟨dir ++ '/' :: name⟩ : TreePath).parent?.isSome := by
  by_cases hdir : dir = []
  · rw [hdir, List.nil_append, parent?_slash_cons hname hne]
    rfl
  · rw [parent?_append hname hne hdir]
    rfl

theorem head?_text_of_trimmed_ne_nil {path : TreePath} (h : path.trimmed ≠ []) :
    path.text.head? = path.trimmed.head? := by
  obtain ⟨n, htext⟩ := path.exists_eq_trimmed_append
  obtain ⟨c, rest, htrimmed⟩ := List.exists_cons_of_ne_nil h
  rw [htext, htrimmed]
  rfl

/-- A directory without components is nothing or begins with a slash. -/
theorem head?_of_components_eq_nil {dir : Text} (h : (⟨dir⟩ : TreePath).components = [])
    (hdir : dir ≠ []) : dir.head? = some '/' := by
  obtain ⟨n, htext⟩ := exists_eq_trimmed_append ⟨dir⟩
  rw [components_eq_nil_iff.mp h] at htext
  cases n with
  | zero => exact absurd htext hdir
  | succ n => exact congrArg List.head? htext

/-- **There is a parent** where a component has another one before it, or the slash that
the path begins with. -/
theorem isSome_parent?_iff (path : TreePath) :
    path.parent?.isSome ↔
      2 ≤ path.components.length ∨ path.components ≠ [] ∧ path.text.head? = some '/' := by
  rw [← parent?_trimmed, ← components_trimmed]
  obtain hnil | ⟨hne, hslash⟩ | ⟨dir, name, heq, hname, hne⟩ := path.trimmed_cases
  · rw [hnil]
    simp [parent?, trimmed, components, Text.pieces, Text.dropEndWhile]
  · rw [parent?_of_not_mem hslash hne, components_of_not_mem hslash hne,
      head?_text_of_trimmed_ne_nil hne]
    have hhead : path.trimmed.head? ≠ some '/' := fun h => hslash (List.mem_of_head? h)
    simp [hhead]
  · have hhead : path.text.head? = (dir ++ '/' :: name).head? := by
      rw [head?_text_of_trimmed_ne_nil (by simp [heq]), heq]
    rw [heq, components_append, components_of_not_mem hname hne, hhead]
    refine iff_of_true (isSome_parent?_append dir hname hne) ?_
    by_cases hdir : (⟨dir⟩ : TreePath).components = []
    · refine Or.inr ⟨by simp, ?_⟩
      by_cases hnil : dir = []
      · rw [hnil]
        rfl
      · rw [List.head?_append, head?_of_components_eq_nil hdir hnil]
        rfl
    · have hpos := List.length_pos_iff.mpr hdir
      exact Or.inl (by rw [List.length_append, List.length_singleton]; omega)

end TreeSync.TreePath
