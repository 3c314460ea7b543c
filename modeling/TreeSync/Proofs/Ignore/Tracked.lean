import TreeSync.Proofs.Git.Index
import TreeSync.Proofs.Ignore.Subdirectories
import TreeSync.Proofs.Tree.Components

/-!
# TreeSync.Proofs.Ignore.Tracked

The tracked ignore files of an index: each once, in the order of their bytes.

An ignore file is left out only where it repeats the one before it among the ignore files.
That is enough, as the entries of one path stand together in a sorted index, and still do
when other entries between them are passed over (`pairwise_dropRepeats`).
-/

namespace TreeSync

open Git

/-! ## repeated elements of a sorted list -/

namespace Workspace

/-- **Where only neighbours repeat** no element is left twice. -/
theorem pairwise_dropRepeats [BEq α] [LawfulBEq α] {before : α → α → Prop}
    (hasymm : ∀ {x y}, before x y → ¬ before y x) {xs : List α}
    (h : xs.Pairwise fun x y => before x y ∨ x = y) : (dropRepeats xs).Pairwise before := by
  fun_induction dropRepeats xs with
  | case1 => exact List.Pairwise.nil
  | case2 y => exact List.pairwise_singleton before y
  | case3 y z r heq ih => exact ih h.of_cons
  | case4 y z r hne ih =>
      obtain ⟨hy, hrest⟩ := List.pairwise_cons.mp h
      refine List.pairwise_cons.mpr ⟨fun w hw => ?_, ih hrest⟩
      rw [mem_dropRepeats] at hw
      have hyz : before y z := (hy z List.mem_cons_self).resolve_right fun heq => hne (by simp [heq])
      obtain hyw | rfl := hy w hw
      · exact hyw
      · -- The element would come again behind a later one.
        obtain rfl | hmem := List.mem_cons.mp hw
        · exact hyz
        · obtain hzy | rfl := (List.pairwise_cons.mp hrest).1 y hmem
          · exact absurd hzy (hasymm hyz)
          · exact hyz

end Workspace

/-! ## the ignore files of an index -/

/-- The path of an ignore file that lies below a directory: its last component is
`.gitignore`, and another component precedes that, or the slash of an absolute path. -/
def IsIgnoreFileBelow (path : TreePath) : Prop :=
  path.components.getLast? = some ".gitignore".toList ∧
    (2 ≤ path.components.length ∨ path.text.head? = some '/')

theorem isNestedIgnoreFile_iff_isIgnoreFileBelow {path : TreePath} :
    Workspace.isNestedIgnoreFile path = true ↔ IsIgnoreFileBelow path := by
  rw [isNestedIgnoreFile_iff, TreePath.fileName?_eq_getLast?, TreePath.isSome_parent?_iff,
    IsIgnoreFileBelow]
  apply and_congr_right
  intro hlast
  have hne : path.components ≠ [] := by
    rintro hnil
    rw [hnil] at hlast
    contradiction
  simp [hne]

theorem ignoreFilesOf_eq_of_not_mem {entries : List IndexEntry}
    (hquote : ∀ entry ∈ entries, '\\' ∉ entry.path) :
    Workspace.ignoreFilesOf entries =
      Workspace.dropRepeats ((entries.map fun entry => (⟨entry.path⟩ : TreePath)).filter
        Workspace.isNestedIgnoreFile) := by
  have hread : (entries.map fun entry => TreePath.ofText entry.path) =
      entries.map fun entry => (⟨entry.path⟩ : TreePath) :=
    List.map_congr_left fun entry hentry => TreePath.ofText_of_not_mem (hquote entry hentry)
  rw [Workspace.ignoreFilesOf, hread]

theorem mem_ignoreFilesOf_iff {entries : List IndexEntry}
    (hquote : ∀ entry ∈ entries, '\\' ∉ entry.path) {path : TreePath} :
    path ∈ Workspace.ignoreFilesOf entries ↔
      IsIgnoreFileBelow path ∧ ∃ entry ∈ entries, entry.path = path.text := by
  rw [ignoreFilesOf_eq_of_not_mem hquote, Workspace.mem_dropRepeats, List.mem_filter,
    isNestedIgnoreFile_iff_isIgnoreFileBelow, List.mem_map, and_comm]
  apply and_congr_right
  intro _
  constructor
  · rintro ⟨entry, hentry, rfl⟩
    exact ⟨entry, hentry, rfl⟩
  · rintro ⟨entry, hentry, hpath⟩
    exact ⟨entry, hentry, congrArg TreePath.mk hpath⟩

/-- The ignore files of a sorted index come in the order of their bytes. -/
theorem pairwise_ignoreFilesOf {entries : List IndexEntry} (hsorted : Index.Sorted entries)
    (hquote : ∀ entry ∈ entries, '\\' ∉ entry.path) :
    (Workspace.ignoreFilesOf entries).Pairwise fun a b => Text.ByteLt a.text b.text := by
  rw [ignoreFilesOf_eq_of_not_mem hquote]
  apply Workspace.pairwise_dropRepeats Text.ByteLt.asymm
  apply List.Pairwise.filter
  rw [List.pairwise_map]
  refine hsorted.imp fun hordered => ?_
  exact hordered.imp id fun ⟨hpath, _⟩ => congrArg TreePath.mk hpath

/-- **The tracked ignore files** of a sorted index are the paths in it whose last component
is `.gitignore` and that lie below a directory, each once, however many entries it has, and
in strictly increasing order of their bytes. -/
theorem trackedIgnoreFiles_increasing {workspace : Workspace} {machine : Machine}
    {entries : List IndexEntry}
    (hindex : workspace.entriesOn? machine = some entries)
    (hsorted : Index.Sorted entries) (hquote : ∀ entry ∈ entries, '\\' ∉ entry.path) :
    ∃ files, workspace.trackedIgnoreFiles.on machine = (.ok files, machine) ∧
      (∀ path, path ∈ files ↔
        IsIgnoreFileBelow path ∧ ∃ entry ∈ entries, entry.path = path.text) ∧
      files.Nodup ∧ files.Pairwise fun a b => Text.ByteLt a.text b.text := by
  have hincreasing := pairwise_ignoreFilesOf hsorted hquote
  have hnodup : (Workspace.ignoreFilesOf entries).Nodup := by
    refine hincreasing.imp ?_
    rintro a b hlt rfl
    exact hlt.asymm hlt
  refine ⟨Workspace.ignoreFilesOf entries, ?_, fun path => mem_ignoreFilesOf_iff hquote, hnodup,
    hincreasing⟩
  simp [Workspace.trackedIgnoreFiles, hindex]

/-- An index in which the ignore file of `a` is in conflict, and that of `a.b` comes before
it. -/
def conflictedIndex : List IndexEntry :=
  [⟨"a/.gitignore", 3⟩, ⟨"a/.gitignore", 1⟩, ⟨"a.b/.gitignore", 0⟩].foldl Index.add []

/-- A machine with that index. -/
def conflictedMachine : Machine where
  disk :=
    { entries :=
        [(["app"], .directory), (["app", ".git"], .directory),
         (["app", ".git", "index"], .file ⟨0, Index.encode conflictedIndex, 0o644⟩)] }

theorem trackedIgnoreFiles_increasing_conflicted :
    trackingTree.entriesOn? conflictedMachine = some conflictedIndex ∧
      Index.Sorted conflictedIndex ∧ (∀ entry ∈ conflictedIndex, '\\' ∉ entry.path) ∧
      ∃ files, trackingTree.trackedIgnoreFiles.on conflictedMachine =
          (.ok files, conflictedMachine) ∧
        files = [⟨"a.b/.gitignore"⟩, ⟨"a/.gitignore"⟩] ∧
        files.Pairwise fun a b => Text.ByteLt a.text b.text := by
  have hread : conflictedMachine.disk.readBytes none
      (Path.join trackingTree.gitDirectory "index") = .ok (Index.encode conflictedIndex) := rfl
  have hindex : trackingTree.entriesOn? conflictedMachine = some conflictedIndex := by
    rw [Workspace.entriesOn?_of_readBytes hread]
    exact (Index.parse?_encode _).trans (by decide +kernel)
  have hsorted : Index.Sorted conflictedIndex := Index.sorted_foldl_add _ List.Pairwise.nil
  have hquote : ∀ entry ∈ conflictedIndex, '\\' ∉ entry.path := by decide +kernel
  have hlist : Workspace.ignoreFilesOf conflictedIndex =
      [⟨"a.b/.gitignore"⟩, ⟨"a/.gitignore"⟩] := by
    decide +kernel
  obtain ⟨files, hfiles, -, -, hincreasing⟩ :=
    trackedIgnoreFiles_increasing hindex hsorted hquote
  refine ⟨hindex, hsorted, hquote, files, hfiles, ?_, hincreasing⟩
  simpa [Workspace.trackedIgnoreFiles, hindex, hlist] using hfiles.symm

end TreeSync
