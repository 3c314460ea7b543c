import TreeSync.Proofs.Tree.Components

/-!
# TreeSync.Proofs.Tree.Parents

A path taken apart from its end, and put below the root.

* The parent of a path has all components but the last, which is the file name
  (`components_parent?`), and it is shorter (`length_lt_of_parent?`).
* So going up ends, and it takes a step for each component; where no slash precedes
  the first component, that one has no parent to go to (`isSome_ancestor?_iff`).
* Slashes in front add no component either (`components_dropWhile`), so anchoring a
  path keeps its components (`components_anchored`).

Slashes may be doubled anywhere: a parent may end in slashes then, which the next
step takes off.
-/

namespace TreeSync.TreePath

variable {path parent : TreePath}

/-! ## the parent -/

/-- A parent is the directory before the last name, or the slash before the only one. -/
theorem exists_of_parent? (h : path.parent? = some parent) :
    ∃ dir name, path.trimmed = dir ++ '/' :: name ∧ '/' ∉ name ∧ name ≠ [] ∧
      parent.text = if dir = [] then ['/'] else dir := by
  rw [← parent?_trimmed] at h
  obtain hnil | ⟨hne, hslash⟩ | ⟨dir, name, heq, hname, hne⟩ := path.trimmed_cases
  · rw [hnil] at h
    contradiction
  · rw [parent?_of_not_mem hslash hne] at h
    contradiction
  · refine ⟨dir, name, heq, hname, hne, ?_⟩
    rw [heq] at h
    split
    · next hdir =>
        rw [hdir, List.nil_append, parent?_slash_cons hname hne] at h
        rw [← Option.some.inj h]
    · next hdir =>
        rw [parent?_append hname hne hdir] at h
        rw [← Option.some.inj h]

/-- **Nothing is lost** between a parent and the file name. -/
theorem components_parent? (h : path.parent? = some parent) :
    ∃ name, path.fileName? = some name ∧ parent.components ++ [name] = path.components := by
  obtain ⟨dir, name, heq, hname, hne, htext⟩ := exists_of_parent? h
  have hparent : parent.components = (⟨dir⟩ : TreePath).components := by
    rw [components, htext]
    split
    · next hdir =>
        rw [hdir]
        rfl
    · rfl
  refine ⟨name, ?_, ?_⟩
  · rw [← fileName?_trimmed, heq, fileName?_append hname hne]
  · rw [← components_trimmed path, heq, components_append, components_of_not_mem hname hne, hparent]

theorem length_lt_of_parent? (h : path.parent? = some parent) :
    parent.text.length < path.text.length := by
  obtain ⟨dir, name, heq, -, hne, htext⟩ := exists_of_parent? h
  have htrimmed := (Text.dropEndWhile_prefix (· == '/') path.text).length_le
  have hpos := List.length_pos_iff.mpr hne
  rw [← trimmed, heq, List.length_append, List.length_cons] at htrimmed
  rw [htext]
  split
  · rw [List.length_singleton]
    omega
  · omega

/-- A parent begins with a slash where the path does. -/
theorem head?_parent? (h : path.parent? = some parent) :
    parent.text.head? = some '/' ↔ path.text.head? = some '/' := by
  obtain ⟨dir, name, heq, -, -, htext⟩ := exists_of_parent? h
  have hhead : path.text.head? = path.trimmed.head? :=
    head?_text_of_trimmed_ne_nil (by simp [heq])
  rw [hhead, heq, htext]
  cases dir <;> simp

/-! ## going up -/

/-- The path that some steps up lead to. -/
def ancestor? : Nat → TreePath → Option TreePath
  | 0, path => some path
  | k + 1, path => path.parent?.bind (ancestor? k)

/-- How often one can go up from a path. -/
def depth (path : TreePath) : Nat :=
  if path.text.head? = some '/' then path.components.length else path.components.length - 1

theorem parent?_eq_none_iff : path.parent? = none ↔ path.depth = 0 := by
  rw [← Option.not_isSome_iff_eq_none, isSome_parent?_iff, ← List.length_pos_iff, depth]
  split
  · next hhead =>
      simp only [hhead, and_true]
      omega
  · next hhead =>
      simp only [hhead, and_false, or_false]
      omega

/-- A step up is one step less to go. -/
theorem depth_parent? (h : path.parent? = some parent) : parent.depth + 1 = path.depth := by
  obtain ⟨name, -, hcomponents⟩ := components_parent? h
  have hlength : parent.components.length + 1 = path.components.length := by
    simp [← hcomponents]
  have hdepth : path.depth ≠ 0 := by
    rw [Ne, ← parent?_eq_none_iff, h]
    exact Option.some_ne_none parent
  simp only [depth, head?_parent? h] at hdepth ⊢
  split
  · exact hlength
  · next hhead =>
      rw [if_neg hhead] at hdepth
      omega

/-- **Going up ends** after as many steps as the path is deep. -/
theorem isSome_ancestor?_iff (path : TreePath) (k : Nat) :
    (path.ancestor? k).isSome ↔ k ≤ path.depth := by
  induction k generalizing path with
  | zero => simp [ancestor?]
  | succ k ih =>
      cases h : path.parent? with
      | none => simp [ancestor?, h, parent?_eq_none_iff.mp h]
      | some parent =>
          rw [ancestor?, h, Option.bind_some, ih, ← depth_parent? h]
          omega

/-! ## anchoring -/

/-- Slashes in front add no component. -/
theorem components_dropWhile (t : Text) :
    (⟨t.dropWhile (· == '/')⟩ : TreePath).components = (⟨t⟩ : TreePath).components := by
  induction t with
  | nil => rfl
  | cons c t ih =>
      by_cases hc : c = '/'
      · have hslash : (⟨[] ++ '/' :: t⟩ : TreePath).components = (⟨t⟩ : TreePath).components :=
          components_append [] t
        rw [hc, List.dropWhile_cons_of_pos rfl, ih, ← hslash, List.nil_append]
      · rw [List.dropWhile_cons_of_neg (by simpa using hc)]

/-- What anchoring puts a slash in front of. -/
theorem components_dropAroundWhile (path : TreePath) :
    (⟨Text.dropAroundWhile (· == '/') path.text⟩ : TreePath).components = path.components := by
  rw [Text.dropAroundWhile, ← components_dropWhile path.text]
  exact components_trimmed ⟨path.text.dropWhile (· == '/')⟩

theorem dropAroundWhile_eq_nil_iff :
    Text.dropAroundWhile (· == '/') path.text = [] ↔ path.components = [] := by
  rw [← components_dropWhile path.text, components_eq_nil_iff, trimmed, Text.dropAroundWhile]

/-- The slash at the front of an anchored path is the only one there and at the end. -/
theorem anchored_cases (path : TreePath) :
    path.components = [] ∧ path.anchored = [] ∨
      ∃ c rest, Text.dropAroundWhile (· == '/') path.text = c :: rest ∧
        path.anchored = '/' :: c :: rest ∧ c ≠ '/' ∧ (c :: rest).getLast? ≠ some '/' := by
  cases h : Text.dropAroundWhile (· == '/') path.text with
  | nil => exact .inl ⟨dropAroundWhile_eq_nil_iff.mp h, by rw [anchored, h]⟩
  | cons c rest =>
      refine .inr ⟨c, rest, rfl, by rw [anchored, h], ?_, ?_⟩
      · have hprefix := Text.dropEndWhile_prefix (· == '/') (path.text.dropWhile (· == '/'))
        rw [← Text.dropAroundWhile, h] at hprefix
        have hhead := List.head?_dropWhile_not (· == '/') path.text
        obtain ⟨more, hmore⟩ := hprefix
        rw [← hmore] at hhead
        simpa using hhead
      · rw [← h]
        exact Text.getLast?_dropEndWhile_ne '/' _

theorem components_anchored (path : TreePath) :
    (⟨path.anchored⟩ : TreePath).components = path.components := by
  obtain ⟨hnil, hanchored⟩ | ⟨c, rest, hinner, hanchored, -⟩ := path.anchored_cases
  · rw [hanchored, hnil]
    rfl
  · have hslash : (⟨[] ++ '/' :: c :: rest⟩ : TreePath).components =
        (⟨c :: rest⟩ : TreePath).components := components_append [] (c :: rest)
    rw [hanchored, ← components_dropAroundWhile path, hinner, ← hslash, List.nil_append]

/-! ## all that splitting does -/

/-- **Splitting loses nothing and ends**, wherever the slashes are. -/
theorem ofText_splits (t : Text) :
    (ofText t).fileName? = (ofText t).components.getLast? ∧
      (∀ parent, (ofText t).parent? = some parent →
        (∃ name, (ofText t).fileName? = some name ∧
          parent.components ++ [name] = (ofText t).components) ∧
        parent.text.length < (ofText t).text.length) ∧
      (∀ k, ((ofText t).ancestor? k).isSome ↔
        k ≤ if (ofText t).text.head? = some '/' then (ofText t).components.length
          else (ofText t).components.length - 1) ∧
      ((ofText t).components = [] → (ofText t).anchored = []) ∧
      ((ofText t).components ≠ [] →
        (⟨(ofText t).anchored⟩ : TreePath).components = (ofText t).components ∧
        ∃ c rest, (ofText t).anchored = '/' :: c :: rest ∧ c ≠ '/' ∧
          (ofText t).anchored.getLast? ≠ some '/') := by
  refine ⟨fileName?_eq_getLast? _, fun parent h => ⟨components_parent? h, length_lt_of_parent? h⟩,
    isSome_ancestor?_iff _, fun hnil => ?_, fun hne => ⟨components_anchored _, ?_⟩⟩
  · obtain ⟨-, hanchored⟩ | ⟨c, rest, hinner, -⟩ := (ofText t).anchored_cases
    · exact hanchored
    · rw [dropAroundWhile_eq_nil_iff.mpr hnil] at hinner
      contradiction
  · obtain ⟨hnil, -⟩ | ⟨c, rest, -, hanchored, hfirst, hlast⟩ := (ofText t).anchored_cases
    · exact absurd hnil hne
    · exact ⟨c, rest, hanchored, hfirst, by rw [hanchored]; simpa using hlast⟩

/-- Doubled slashes stay where they are between two names, and a parent may end in one. -/
theorem ofText_splits_doubled :
    (ofText "\\a//b\\").parent? = some ⟨"/a/"⟩ ∧
      (∃ name, (ofText "\\a//b\\").fileName? = some name ∧
        (⟨"/a/"⟩ : TreePath).components ++ [name] = (ofText "\\a//b\\").components) ∧
      ((ofText "\\a//b\\").ancestor? 2).isSome ∧ ¬ ((ofText "\\a//b\\").ancestor? 3).isSome ∧
      (ofText "\\a//b\\").components ≠ [] ∧ (ofText "\\a//b\\").anchored = "/a//b".toList ∧
      (⟨"/a//b"⟩ : TreePath).components = (ofText "\\a//b\\").components ∧
      (ofText "//").components = [] ∧ (ofText "//").anchored = [] := by
  obtain ⟨-, hparent, hsteps, -, hanchored⟩ := ofText_splits "\\a//b\\"
  obtain ⟨-, -, -, hroot, -⟩ := ofText_splits "//"
  have hcomponents : (ofText "\\a//b\\").components ≠ [] := by decide
  refine ⟨by decide, (hparent _ (by decide)).1, (hsteps 2).mpr (by decide),
    fun h => absurd ((hsteps 3).mp h) (by decide), hcomponents, by decide, ?_, by decide,
    hroot (by decide)⟩
  exact (hanchored hcomponents).1

end TreeSync.TreePath
