import TreeSync.Ignore.Compile
import TreeSync.Proofs.Git.Index
import TreeSync.Proofs.Machine.Action
import TreeSync.Proofs.Tree.Path

/-!
# TreeSync.Proofs.Ignore.Subdirectories

What the tracked ignore files below the root add to the rules.

1. The ignore file of a directory is the path of the directory, a slash and
   `.gitignore` (`ignoreDirectory?_eq_some_iff`).  It is read at that place in the
   tree, and its lines are taken relative to that directory (`rulesIn`).
2. The directories are those of the index, in its order, each once for all sides
   of a conflict (`ignoreDirectories`).

This is what is done with an index (`compile_subdirectories`), as long as no path
in it is taken for an ignore file because of a backslash: backslashes are read as
slashes, so `a\b/.gitignore` is looked for in `a/b`, and `a\.gitignore`, which is
a file of another name, in `a`.  What a path with such a backslash adds is never
what is tracked (`tracked?_eq_iff`).
-/

namespace TreeSync

open Git

/-! ## repeated elements -/

namespace Workspace

/-- Repetitions are dropped, and nothing else. -/
theorem mem_dropRepeats [BEq α] [LawfulBEq α] {x : α} {xs : List α} :
    x ∈ dropRepeats xs ↔ x ∈ xs := by
  fun_induction dropRepeats xs with
  | case1 => simp
  | case2 y => simp
  | case3 y z r heq ih =>
      have hyz : y = z := by simpa using heq
      simp [ih, hyz]
  | case4 y z r hne ih => simp [ih]

/-- A renaming that keeps names apart keeps their repetitions. -/
theorem dropRepeats_map [BEq α] [LawfulBEq α] [BEq β] [LawfulBEq β] {f : α → β}
    (hf : ∀ {x y}, f x = f y → x = y) (xs : List α) :
    dropRepeats (xs.map f) = (dropRepeats xs).map f := by
  fun_induction dropRepeats xs with
  | case1 => rfl
  | case2 y => rfl
  | case3 y z r heq ih =>
      have hyz : y = z := by simpa using heq
      simpa [dropRepeats, hyz] using ih
  | case4 y z r hne ih =>
      have hyz : f y ≠ f z := fun h => hne (by simp [hf h])
      simpa [dropRepeats, hyz] using ih

end Workspace

/-! ## the ignore file of a directory -/

/-- The path of the ignore file of a directory. -/
def ignorePath (dir : Text) : Text := dir ++ '/' :: ".gitignore".toList

/-- The directory below the root that a path is the ignore file of. -/
def ignoreDirectory? (path : Text) : Option Text :=
  let dir := path.take (path.length - (ignorePath []).length)
  if dir ≠ [] ∧ path = ignorePath dir then some dir else none

/-- The ignore file of a directory is the path of the directory, a slash and
`.gitignore`. -/
theorem ignoreDirectory?_eq_some_iff {path dir : Text} :
    ignoreDirectory? path = some dir ↔ dir ≠ [] ∧ path = ignorePath dir := by
  constructor
  · intro h
    simp only [ignoreDirectory?, Option.ite_none_right_eq_some] at h
    obtain ⟨hdir, heq⟩ := h
    cases heq
    exact hdir
  · rintro ⟨hdir, rfl⟩
    have htake : (ignorePath dir).take ((ignorePath dir).length - (ignorePath []).length) =
        dir := by
      apply List.take_left'
      simp [ignorePath]
    simp [ignoreDirectory?, htake, hdir]

theorem fileName?_ignorePath (dir : Text) :
    (⟨ignorePath dir⟩ : TreePath).fileName? = some ".gitignore".toList :=
  TreePath.fileName?_append (by simp) (by simp) dir

theorem parent?_ignorePath {dir : Text} (hdir : dir ≠ []) :
    (⟨ignorePath dir⟩ : TreePath).parent? = some ⟨dir⟩ :=
  TreePath.parent?_append (by simp) (by simp) hdir

/-- An ignore file below the root has that name, and a parent. -/
theorem isNestedIgnoreFile_iff {path : TreePath} :
    Workspace.isNestedIgnoreFile path = true ↔
      path.fileName? = some ".gitignore".toList ∧ path.parent?.isSome := by
  rw [Workspace.isNestedIgnoreFile, Bool.and_eq_true, decide_eq_true_eq]
  rfl

theorem isNestedIgnoreFile_ignorePath {dir : Text} (hdir : dir ≠ []) :
    Workspace.isNestedIgnoreFile ⟨ignorePath dir⟩ = true :=
  isNestedIgnoreFile_iff.mpr ⟨fileName?_ignorePath dir, by simp [parent?_ignorePath hdir]⟩

/-- In a path of names it is one that is the ignore file of a directory. -/
theorem isNestedIgnoreFile_eq {path : Text} (h : HasNames path) :
    Workspace.isNestedIgnoreFile ⟨path⟩ = (ignoreDirectory? path).isSome := by
  cases hdir : ignoreDirectory? path with
  | some dir =>
      obtain ⟨hne, rfl⟩ := ignoreDirectory?_eq_some_iff.mp hdir
      exact isNestedIgnoreFile_ignorePath hne
  | none =>
      rw [Option.isSome_none, Bool.eq_false_iff, ne_eq, isNestedIgnoreFile_iff]
      rintro ⟨hfile, hparent⟩
      by_cases hslash : '/' ∈ path
      · obtain ⟨dir, name, rfl, hname⟩ := eq_append_of_mem hslash
        have hlast := TreePath.fileName?_append hname h.of_append.2.ne_nil dir
        have heq : name = ".gitignore".toList := Option.some.inj (hlast.symm.trans hfile)
        have hsome : ignoreDirectory? (dir ++ '/' :: name) = some dir :=
          ignoreDirectory?_eq_some_iff.mpr ⟨h.of_append.1.ne_nil, by rw [heq, ignorePath]⟩
        exact absurd (hdir.symm.trans hsome) (by simp)
      · rw [TreePath.parent?_of_not_mem hslash h.ne_nil] at hparent
        exact absurd hparent (by simp)

/-! ## the tracked ignore files -/

/-- What a path of the index is taken for: itself, if it is the path of an ignore
file below the root. -/
def tracked? (path : Text) : Option TreePath :=
  some (TreePath.ofText path) |>.filter Workspace.isNestedIgnoreFile

/-- **What a path is taken for** is what it is, exactly where no backslash makes an
ignore file of it. -/
theorem tracked?_eq_iff {path : Text} (h : HasNames path) :
    tracked? path = (ignoreDirectory? path).map (fun dir => ⟨ignorePath dir⟩) ↔
      ('\\' ∈ path → Workspace.isNestedIgnoreFile (TreePath.ofText path) = false) := by
  constructor
  · intro heq hmem
    rw [Bool.eq_false_iff]
    intro hnested
    simp only [tracked?, Option.filter_some, hnested, if_true] at heq
    obtain ⟨dir, hdir, htext⟩ := Option.map_eq_some_iff.mp heq.symm
    obtain ⟨-, rfl⟩ := ignoreDirectory?_eq_some_iff.mp hdir
    -- A path that has been read has no backslashes.
    exact TreePath.backslash_not_mem_ofText (ignorePath dir) (htext ▸ hmem)
  · intro hquote
    by_cases hmem : '\\' ∈ path
    · have hnone : ignoreDirectory? path = none := by
        rw [Option.eq_none_iff_forall_ne_some]
        intro dir hdir
        obtain ⟨hne, rfl⟩ := ignoreDirectory?_eq_some_iff.mp hdir
        have hread : TreePath.ofText (ignorePath dir) =
            ⟨ignorePath (TreePath.ofText dir).text⟩ := by
          simp [TreePath.ofText, ignorePath]
        have hne' : (TreePath.ofText dir).text ≠ [] := by simpa [TreePath.ofText] using hne
        have hnested := isNestedIgnoreFile_ignorePath hne'
        rw [← hread, hquote hmem] at hnested
        exact Bool.false_ne_true hnested
      simp [tracked?, hquote hmem, hnone]
    · have hnested := isNestedIgnoreFile_eq h
      cases hdir : ignoreDirectory? path with
      | none => simp [tracked?, TreePath.ofText_of_not_mem hmem, hnested, hdir]
      | some dir =>
          have hpath := (ignoreDirectory?_eq_some_iff.mp hdir).2
          simp [tracked?, TreePath.ofText_of_not_mem hmem, hnested, hdir, ← hpath]

/-- The directories below the root whose ignore files an index lists, in its
order.  The sides of a conflict are one file. -/
def ignoreDirectories (entries : List IndexEntry) : List Text :=
  Workspace.dropRepeats (entries.filterMap (ignoreDirectory? ·.path))

/-- The directories with an ignore file in the index. -/
theorem mem_ignoreDirectories {entries : List IndexEntry} {dir : Text} :
    dir ∈ ignoreDirectories entries ↔
      dir ≠ [] ∧ ∃ entry ∈ entries, entry.path = ignorePath dir := by
  simp only [ignoreDirectories, Workspace.mem_dropRepeats, List.mem_filterMap,
    ignoreDirectory?_eq_some_iff]
  constructor
  · rintro ⟨entry, hentry, hne, hpath⟩
    exact ⟨hne, entry, hentry, hpath⟩
  · rintro ⟨hne, entry, hentry, hpath⟩
    exact ⟨entry, hentry, hne, hpath⟩

/-- The ignore files of an index are read entry by entry. -/
theorem ignoreFilesOf_eq_filterMap (entries : List IndexEntry) :
    Workspace.ignoreFilesOf entries =
      Workspace.dropRepeats (entries.filterMap (tracked? ·.path)) := by
  rw [Workspace.ignoreFilesOf]
  congr 1
  induction entries with
  | nil => rfl
  | cons entry entries ih =>
      rw [List.map_cons, List.filter_cons, List.filterMap_cons, ih, tracked?, Option.filter_some]
      split <;> rfl

/-- **Without backslashes in the way** they are those of the directories. -/
theorem ignoreFilesOf_eq {entries : List IndexEntry}
    (hnames : ∀ entry ∈ entries, HasNames entry.path)
    (hquote : ∀ entry ∈ entries, '\\' ∈ entry.path →
      Workspace.isNestedIgnoreFile (TreePath.ofText entry.path) = false) :
    Workspace.ignoreFilesOf entries =
      (ignoreDirectories entries).map fun dir => ⟨ignorePath dir⟩ := by
  have hinjective : ∀ {x y : Text}, (⟨ignorePath x⟩ : TreePath) = ⟨ignorePath y⟩ → x = y := by
    intro x y heq
    simpa [ignorePath] using heq
  have htracked : entries.filterMap (tracked? ·.path) =
      (entries.filterMap (ignoreDirectory? ·.path)).map fun dir => ⟨ignorePath dir⟩ := by
    induction entries with
    | nil => rfl
    | cons entry entries ih =>
        have hentry := (tracked?_eq_iff (hnames entry (by simp))).mpr (hquote entry (by simp))
        have hrest := ih (fun e he => hnames e (by simp [he])) fun e he => hquote e (by simp [he])
        rw [List.filterMap_cons, List.filterMap_cons, hentry, hrest]
        cases ignoreDirectory? entry.path <;> rfl
  rw [ignoreFilesOf_eq_filterMap, htracked, Workspace.dropRepeats_map hinjective,
    ignoreDirectories]

/-! ## their rules -/

/-- The ignore file of a directory below the root. -/
def ignoreFileIn (root dir : Text) : IgnoreFile where
  source := "subdirs"
  path := Path.join (Path.join root dir) ".gitignore"
  directory := some ('/' :: dir)
  required := false

/-- A tracked ignore file is read at its place, relative to its directory. -/
theorem ofTracked_ignorePath (root : Text) {dir : Text} (h : HasNames (ignorePath dir)) :
    IgnoreFile.ofTracked root ⟨ignorePath dir⟩ = ignoreFileIn root dir := by
  obtain ⟨hdir, -⟩ := h.of_append
  have hanchored : (⟨dir⟩ : TreePath).anchored = '/' :: dir := TreePath.anchored_of_hasNames hdir
  have hjoin : Path.join root (ignorePath dir) = Path.join (Path.join root dir) ".gitignore" :=
    Path.join_append h
  have hdirectory : (⟨ignorePath dir⟩ : TreePath).parent?.map TreePath.anchored =
      some ('/' :: dir) := by
    rw [parent?_ignorePath hdir.ne_nil, Option.map_some, hanchored]
  rw [IgnoreFile.ofTracked, hdirectory]
  exact congrArg (IgnoreFile.mk "subdirs" · (some ('/' :: dir)) false) hjoin

/-- The rules that the ignore file of a directory adds.  A file that is not there
adds none. -/
def rulesIn (read : Text → Except DiskFault Text) (root dir : Text) :
    Except SourceError (List FilterRule) :=
  let path := Path.join (Path.join root dir) ".gitignore"
  match read path with
  | .ok content =>
      .ok ((Text.lines content).flatMap fun line => rulesOfLine line (some ('/' :: dir)))
  | .error .notFound => .ok []
  | .error fault => .error (.unreadable "subdirs" path (.io path fault))

variable {machine : Machine}

/-- Reading the text of a file that need not be there. -/
theorem reads_read {file : IgnoreFile} (h : file.required = false) :
    file.read.Reads machine
      (match machine.disk.readText machine.environment.cwd file.path with
      | .ok content => .ok (some content)
      | .error .notFound => .ok none
      | .error fault => .error (.unreadable file.source file.path (.io file.path fault))) := by
  apply Action.reads_of_on
  intro reports
  cases hread : machine.disk.readText machine.environment.cwd file.path with
  | ok content => simp [IgnoreFile.read, h, Files.readOptionalText, hread]
  | error fault =>
      cases fault <;>
        simp [IgnoreFile.read, h, Files.readOptionalText, hread]

/-- A text has its rules, and a report where some only approximate a line. -/
theorem reads_rules_of_read {file : IgnoreFile} {content : Text}
    (h : file.read.Reads machine (.ok (some content))) :
    file.rules.Reads machine (.ok (IgnoreFile.rulesOfText file.directory content)) := by
  refine h.bind ?_
  by_cases hexact : 0 < IgnoreFile.approximations file.directory content
  · simp only [hexact, if_true]
    exact (Action.reads_report .warn).bind (Action.reads_pure _)
  · simp only [hexact, if_false]
    exact Action.reads_pure _

/-- Reading the rules of the ignore file of a directory. -/
theorem reads_rules_ignoreFileIn (root dir : Text) :
    (ignoreFileIn root dir).rules.Reads machine
      (rulesIn (machine.disk.readText machine.environment.cwd) root dir) := by
  have hread : (ignoreFileIn root dir).read.Reads machine _ := reads_read rfl
  have hpath : (ignoreFileIn root dir).path = Path.join (Path.join root dir) ".gitignore" := rfl
  rw [hpath] at hread
  rw [rulesIn]
  cases hfile : machine.disk.readText machine.environment.cwd
      (Path.join (Path.join root dir) ".gitignore") with
  | ok content =>
      rw [hfile] at hread
      exact reads_rules_of_read hread
  | error fault =>
      rw [hfile] at hread
      cases fault with
      | notFound => exact hread.bind (Action.reads_pure [])
      | _ => exact hread.bind_error _

/-! ## compiling -/

/-- The files of the source, where the index can be read. -/
theorem reads_files_of_entries {workspace : Workspace} {entries : List IndexEntry}
    (hindex : workspace.entriesOn? machine = some entries) :
    (RuleSource.files workspace.ignoreIndex .subdirectories).Reads machine
      (.ok ((Workspace.ignoreFilesOf entries).map (IgnoreFile.ofTracked workspace.root))) := by
  have htracked : workspace.trackedIgnoreFiles.Reads machine
      (.ok (Workspace.ignoreFilesOf entries)) :=
    Action.reads_of_on fun reports => by
      have hindex : workspace.entriesOn? (machine.reporting reports) = some entries := hindex
      simp [Workspace.trackedIgnoreFiles, hindex]
  exact (htracked.mapError SourceError.git).map
    (List.map (IgnoreFile.ofTracked workspace.root))

/-- They are the ignore files of the directories in the index. -/
theorem reads_files_subdirectories {workspace : Workspace} {entries : List IndexEntry}
    (hindex : workspace.entriesOn? machine = some entries)
    (hnames : ∀ entry ∈ entries, HasNames entry.path)
    (hquote : ∀ entry ∈ entries, '\\' ∈ entry.path →
      Workspace.isNestedIgnoreFile (TreePath.ofText entry.path) = false) :
    (RuleSource.files workspace.ignoreIndex .subdirectories).Reads machine
      (.ok ((ignoreDirectories entries).map (ignoreFileIn workspace.root))) := by
  have hfiles : (Workspace.ignoreFilesOf entries).map (IgnoreFile.ofTracked workspace.root) =
      (ignoreDirectories entries).map (ignoreFileIn workspace.root) := by
    rw [ignoreFilesOf_eq hnames hquote, List.map_map]
    apply List.map_congr_left
    intro dir hdir
    obtain ⟨-, entry, hentry, hpath⟩ := mem_ignoreDirectories.mp hdir
    exact ofTracked_ignorePath workspace.root (hpath ▸ hnames entry hentry)
  exact hfiles ▸ reads_files_of_entries hindex

/-- The set of one source is the rules of its files, in their order, behind the
metadata rule. -/
theorem reads_compile_singleton {index : IgnoreIndex} {source : RuleSource}
    {files : List IgnoreFile} {outcome : Except SourceError (List (List FilterRule))}
    (hfiles : (source.files index).Reads machine (.ok files))
    (hrules : (files.mapM IgnoreFile.rules).Reads machine outcome) :
    (compile index [source]).Reads machine
      (outcome.map fun rules => FilterSet.empty.append rules.flatten) := by
  have hsource : (source.rules index).Reads machine (outcome.map List.flatten) :=
    hfiles.bind (hrules.map List.flatten)
  have hsources : ([source].mapM (RuleSource.rules index)).Reads machine
      ([source].mapM fun _ => outcome.map List.flatten) :=
    Action.reads_mapM fun other hother => by
      rw [List.mem_singleton.mp hother]
      exact hsource
  have houtcome : (([source].mapM fun _ => outcome.map List.flatten).map fun rules =>
      FilterSet.empty.append rules.flatten) =
        outcome.map fun rules => FilterSet.empty.append rules.flatten := by
    cases outcome <;> simp [bind, Except.bind, Except.map, pure, Except.pure]
  rw [← houtcome]
  exact hsources.map fun rules => FilterSet.empty.append rules.flatten

/-- The set of the ignore files of some directories, where these are the files of the source. -/
theorem reads_compile_ignoreFileIn {workspace : Workspace} {dirs : List Text}
    (hfiles : (RuleSource.files workspace.ignoreIndex .subdirectories).Reads machine
      (.ok (dirs.map (ignoreFileIn workspace.root)))) :
    (compile workspace.ignoreIndex [.subdirectories]).Reads machine
      ((dirs.mapM (rulesIn (machine.disk.readText machine.environment.cwd) workspace.root)).map
        fun rules => FilterSet.empty.append rules.flatten) := by
  refine reads_compile_singleton hfiles ?_
  rw [List.mapM_map]
  exact Action.reads_mapM fun dir _ => reads_rules_ignoreFileIn workspace.root dir

/-- **The rules of the tracked ignore files**: those of the ignore file of each
directory, in the order of the index, and nothing else. -/
theorem compile_subdirectories {workspace : Workspace} {entries : List IndexEntry}
    (hindex : workspace.entriesOn? machine = some entries)
    (hnames : ∀ entry ∈ entries, HasNames entry.path)
    (hquote : ∀ entry ∈ entries, '\\' ∈ entry.path →
      Workspace.isNestedIgnoreFile (TreePath.ofText entry.path) = false) :
    (∀ dir, dir ∈ ignoreDirectories entries ↔
      dir ≠ [] ∧ ∃ entry ∈ entries, entry.path = ignorePath dir) ∧
    ∃ reports, (compile workspace.ignoreIndex [.subdirectories]).on machine =
      (((ignoreDirectories entries).mapM
          (rulesIn (machine.disk.readText machine.environment.cwd) workspace.root)).map
            fun rules => FilterSet.empty.append rules.flatten,
        machine.reporting reports) := by
  refine ⟨fun dir => mem_ignoreDirectories, ?_⟩
  have hset := reads_compile_ignoreFileIn (reads_files_subdirectories hindex hnames hquote)
  simpa using hset []

/-! ## one tracked ignore file -/

/-- A machine with a working tree of one directory, which has an ignore file, and
an index that lists it. -/
def trackingMachine (dir content : Text) : Machine where
  disk :=
    { entries :=
        [(["app"], .directory), (["app", ".git"], .directory),
         (["app", ".git", "index"],
           .file ⟨0, Index.encode [⟨ignorePath dir, 0⟩], 0o644⟩),
         (["app", dir], .directory),
         (["app", dir, ".gitignore"], .file ⟨1, content.bytes, 0o644⟩)] }

/-- The working tree of such a machine. -/
def trackingTree : Workspace := ⟨"/app", "/app/.git"⟩

/-- Where the file of an index can be read, its entries are those that it is decoded to. -/
theorem Workspace.entriesOn?_of_readBytes {workspace : Workspace} {file : ByteArray}
    (hread : machine.disk.readBytes none (Path.join workspace.gitDirectory "index") = .ok file) :
    workspace.entriesOn? machine = machine.environment.libraries.gitIndex file := by
  simp only [entriesOn?, indexOf?, hread]

theorem entriesOn?_trackingMachine (dir content : Text) :
    trackingTree.entriesOn? (trackingMachine dir content) =
      Index.entriesOfBody? (Index.bodyOf [⟨ignorePath dir, 0⟩]) := by
  have hread : (trackingMachine dir content).disk.readBytes none
      (Path.join trackingTree.gitDirectory "index") =
        .ok (Index.encode [⟨ignorePath dir, 0⟩]) := rfl
  rw [Workspace.entriesOn?_of_readBytes hread]
  exact Index.parse?_encode _

/-- The source of such a machine is the ignore file of its directory. -/
theorem reads_files_trackingMachine {dir : Text} (content : Text)
    (hentries : Index.entriesOfBody? (Index.bodyOf [⟨ignorePath dir, 0⟩]) =
      some [⟨ignorePath dir, 0⟩])
    (hfile : (Workspace.ignoreFilesOf [⟨ignorePath dir, 0⟩]).map
      (IgnoreFile.ofTracked trackingTree.root) = [ignoreFileIn trackingTree.root dir]) :
    (RuleSource.files trackingTree.ignoreIndex .subdirectories).Reads
      (trackingMachine dir content) (.ok [ignoreFileIn trackingTree.root dir]) :=
  hfile ▸ reads_files_of_entries ((entriesOn?_trackingMachine dir content).trans hentries)

/-- The set of the source of such a machine is the rules of that file. -/
theorem reads_compile_trackingMachine {dir content : Text} {rules : List FilterRule}
    (hentries : Index.entriesOfBody? (Index.bodyOf [⟨ignorePath dir, 0⟩]) =
      some [⟨ignorePath dir, 0⟩])
    (hfile : (Workspace.ignoreFilesOf [⟨ignorePath dir, 0⟩]).map
      (IgnoreFile.ofTracked trackingTree.root) = [ignoreFileIn trackingTree.root dir])
    (hrules : rulesIn ((trackingMachine dir content).disk.readText none) trackingTree.root dir =
      .ok rules) :
    (compile trackingTree.ignoreIndex [.subdirectories]).Reads (trackingMachine dir content)
      (.ok (FilterSet.empty.append rules)) := by
  have hread : (ignoreFileIn trackingTree.root dir).rules.Reads (trackingMachine dir content)
      (.ok rules) :=
    hrules ▸ reads_rules_ignoreFileIn trackingTree.root dir
  have hset := reads_compile_singleton (reads_files_trackingMachine content hentries hfile)
    (Action.reads_mapM fun file hmem => List.mem_singleton.mp hmem ▸ hread)
  simpa [pure, Except.pure, bind, Except.bind, Except.map] using hset

/-- An index with the one entry `a/.gitignore`, which holds the line `/out`. -/
theorem compile_subdirectories_a :
    trackingTree.entriesOn? (trackingMachine "a" "/out\n") =
        some [⟨ignorePath "a", 0⟩] ∧
      (∀ entry ∈ [(⟨ignorePath "a", 0⟩ : IndexEntry)], HasNames entry.path) ∧
      (∀ entry ∈ [(⟨ignorePath "a", 0⟩ : IndexEntry)], '\\' ∈ entry.path →
        Workspace.isNestedIgnoreFile (TreePath.ofText entry.path) = false) ∧
      ∃ reports, (compile trackingTree.ignoreIndex [.subdirectories]).on
          (trackingMachine "a" "/out\n") =
        (.ok ⟨[⟨.excludes, "/a/out"⟩]⟩, (trackingMachine "a" "/out\n").reporting reports) := by
  have hindex : trackingTree.entriesOn? (trackingMachine "a" "/out\n") =
      some [⟨ignorePath "a", 0⟩] :=
    (entriesOn?_trackingMachine "a" "/out\n").trans (by decide +kernel)
  have hnames : ∀ entry ∈ [(⟨ignorePath "a", 0⟩ : IndexEntry)], HasNames entry.path := by
    decide +kernel
  have hquote : ∀ entry ∈ [(⟨ignorePath "a", 0⟩ : IndexEntry)], '\\' ∈ entry.path →
      Workspace.isNestedIgnoreFile (TreePath.ofText entry.path) = false := by
    decide +kernel
  have hrules : (ignoreDirectories [⟨ignorePath "a", 0⟩]).mapM
      (rulesIn ((trackingMachine "a" "/out\n").disk.readText
        (trackingMachine "a" "/out\n").environment.cwd) trackingTree.root) =
          .ok [[⟨.excludes, "/a/out"⟩]] :=
    eq_ok_of_toOption (by decide +kernel)
  obtain ⟨-, reports, hset⟩ := compile_subdirectories hindex hnames hquote
  rw [hrules] at hset
  exact ⟨hindex, hnames, hquote, reports, hset⟩

/-- The ignore file of the directory `a\b` excludes a name there, and the set knows
nothing of it. -/
theorem backslash_directory_not_read :
    trackingTree.entriesOn? (trackingMachine "a\\b" "/out\n") =
        some [⟨ignorePath "a\\b", 0⟩] ∧
      (∀ entry ∈ [(⟨ignorePath "a\\b", 0⟩ : IndexEntry)], HasNames entry.path) ∧
      rulesIn ((trackingMachine "a\\b" "/out\n").disk.readText none) trackingTree.root "a\\b" =
        .ok [⟨.excludes, "/a\\b/out"⟩] ∧
      ((compile trackingTree.ignoreIndex [.subdirectories]).on
        (trackingMachine "a\\b" "/out\n")).1 = .ok FilterSet.empty := by
  have hindex : trackingTree.entriesOn? (trackingMachine "a\\b" "/out\n") =
      some [⟨ignorePath "a\\b", 0⟩] :=
    (entriesOn?_trackingMachine "a\\b" "/out\n").trans (by decide +kernel)
  refine ⟨hindex, by decide +kernel, eq_ok_of_toOption (by decide +kernel), ?_⟩
  -- The file that is looked for is that of `a/b`, where there is none.
  have hfiles : (Workspace.ignoreFilesOf [⟨ignorePath "a\\b", 0⟩]).map
      (IgnoreFile.ofTracked trackingTree.root) =
        ["a/b".toList].map (ignoreFileIn trackingTree.root) := by
    decide +kernel
  have hrules : ["a/b".toList].mapM
      (rulesIn ((trackingMachine "a\\b" "/out\n").disk.readText
        (trackingMachine "a\\b" "/out\n").environment.cwd) trackingTree.root) = .ok [[]] :=
    eq_ok_of_toOption (by decide +kernel)
  rw [(reads_compile_ignoreFileIn (hfiles ▸ reads_files_of_entries hindex)).on_fst, hrules]
  rfl

end TreeSync
