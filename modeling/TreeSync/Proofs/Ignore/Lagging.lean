import TreeSync.Proofs.Disk.Absence
import TreeSync.Proofs.Ignore.Listing

/-!
# TreeSync.Proofs.Ignore.Lagging

Indexes that list an ignore file which is no longer there.

1. Where the file or a directory on the way to it was removed, the entry adds no
   rules (`IgnoreFile.on_rules_of_removed`).
2. Where a directory on the way to it was replaced by a plain file, the entry is an
   error (`IgnoreFile.on_rules_of_obstructed`), though the file is as absent as before.

So compiling comes to the same as with the entry left out (`IgnoreIndex.without`) in
the first case, and in the second exactly where the entry is not asked for
(`compile_lagging`).
-/

namespace TreeSync

open TreeSync.Action

variable {index : IgnoreIndex} {machine : Machine} {path : TreePath}

/-- An index with a tracked ignore file left out. -/
def IgnoreIndex.without (index : IgnoreIndex) (path : TreePath) : IgnoreIndex where
  root := index.root
  globalExcludes := index.globalExcludes
  trackedIgnoreFiles := do return (← index.trackedIgnoreFiles).filter (· ≠ path)

@[simp] theorem IgnoreIndex.root_without (index : IgnoreIndex) (path : TreePath) :
    (index.without path).root = index.root := rfl

theorem IgnoreIndex.OnlyReads.without (h : index.OnlyReads machine) (path : TreePath) :
    (index.without path).OnlyReads machine where
  globalExcludes := h.globalExcludes
  trackedIgnoreFiles := h.trackedIgnoreFiles.bind fun _ => onlyReads_pure _

/-- A directory on the way to a tracked ignore file was removed, or the file itself. -/
def IgnoreIndex.Removed (index : IgnoreIndex) (machine : Machine) (path : TreePath) : Prop :=
  machine.disk.Removed machine.environment.cwd (Path.join index.root path.text)

/-- A plain file has the place of a directory on the way to a tracked ignore file. -/
def IgnoreIndex.Obstructed (index : IgnoreIndex) (machine : Machine) (path : TreePath) : Prop :=
  machine.disk.Obstructed machine.environment.cwd (Path.join index.root path.text)

/-- Compiling some sources asks for a tracked ignore file. -/
def IgnoreIndex.Asks (index : IgnoreIndex) (machine : Machine) (sources : List RuleSource)
    (path : TreePath) : Prop :=
  .subdirectories ∈ sources ∧
    ∃ paths, (index.trackedIgnoreFiles.on machine).1 = .ok paths ∧ path ∈ paths

/-! ## one entry -/

namespace IgnoreFile

theorem on_rules_of_removed (h : index.Removed machine path) :
    ((ofTracked index.root path).rules.on machine).1 = .ok [] := by
  have hreads : (ofTracked index.root path).read.Reads machine _ := reads_read rfl
  have hmissing : machine.disk.readText machine.environment.cwd (ofTracked index.root path).path =
      .error .notFound := Disk.readText_of_removed h
  rw [on_rules, hreads.on_fst, hmissing]
  rfl

theorem on_rules_of_obstructed (h : index.Obstructed machine path) :
    ((ofTracked index.root path).rules.on machine).1 =
      .error (.unreadable "subdirs" (Path.join index.root path.text)
        (.io (Path.join index.root path.text) .notDirectory)) := by
  have hreads : (ofTracked index.root path).read.Reads machine _ := reads_read rfl
  have hfault : machine.disk.readText machine.environment.cwd (ofTracked index.root path).path =
      .error .notDirectory := Disk.readText_of_obstructed h
  rw [on_rules, hreads.on_fst, hfault]
  rfl

end IgnoreFile

/-! ## the entries of an index -/

section
variable {ε α β : Type} {f : α → Except ε (List β)}

theorem flatten_mapM_cons {x : α} {ys : List β} (hx : f x = .ok ys) (xs : List α) :
    ((x :: xs).mapM f).map List.flatten = ((xs.mapM f).map List.flatten).map (ys ++ ·) := by
  rw [List.mapM_cons, hx]
  cases xs.mapM f <;> rfl

/-- Elements that add nothing can be left out. -/
theorem flatten_mapM_filter {keep : α → Bool} {xs : List α}
    (h : ∀ x ∈ xs, keep x = false → f x = .ok []) :
    ((xs.filter keep).mapM f).map List.flatten = (xs.mapM f).map List.flatten := by
  induction xs with
  | nil => rfl
  | cons x xs ih =>
      have hrest := ih fun y hy => h y (List.mem_cons_of_mem x hy)
      cases hkeep : keep x with
      | false =>
          have hx := h x List.mem_cons_self hkeep
          rw [List.filter_cons_of_neg (Bool.not_eq_true _ ▸ hkeep), hrest, flatten_mapM_cons hx]
          cases (xs.mapM f).map List.flatten <;> rfl
      | true =>
          rw [List.filter_cons_of_pos hkeep]
          cases hx : f x with
          | error fault => rw [List.mapM_cons, List.mapM_cons, hx]; rfl
          | ok ys => rw [flatten_mapM_cons hx, flatten_mapM_cons hx, hrest]

end

/-- The rules of the tracked ignore files are those of each, in the order of the index. -/
theorem on_rules_subdirectories (h : index.OnlyReads machine) :
    ((RuleSource.rules index .subdirectories).on machine).1 =
      ((index.trackedIgnoreFiles.on machine).1.mapError SourceError.git).bind fun paths =>
        (paths.mapM fun path => ((IgnoreFile.ofTracked index.root path).rules.on machine).1).map
          List.flatten := by
  have hfiles : ((RuleSource.files index .subdirectories).on machine).1 =
      ((index.trackedIgnoreFiles.on machine).1.mapError SourceError.git).map
        (List.map (IgnoreFile.ofTracked index.root)) := by
    rw [RuleSource.files, bind_pure_comp, on_map, on_mapError]
  rw [RuleSource.on_rules h, hfiles]
  cases (index.trackedIgnoreFiles.on machine).1 with
  | error fault => rfl
  | ok paths =>
      have hmap : (paths.map (IgnoreFile.ofTracked index.root)).mapM
          (fun file => (file.rules.on machine).1) = paths.mapM fun path =>
            ((IgnoreFile.ofTracked index.root path).rules.on machine).1 := List.mapM_map
      exact congrArg (Except.map List.flatten) hmap

/-- **A source without an entry** has the rules that it has with it, where the entry
adds none. -/
theorem RuleSource.on_rules_without (h : index.OnlyReads machine) {source : RuleSource}
    (hadds : source = .subdirectories → ∀ paths,
      (index.trackedIgnoreFiles.on machine).1 = .ok paths → path ∈ paths →
        ((IgnoreFile.ofTracked index.root path).rules.on machine).1 = .ok []) :
    ((source.rules (index.without path)).on machine).1 = ((source.rules index).on machine).1 := by
  cases source with
  | «global» => rfl
  | root => rfl
  | file _ => rfl
  | subdirectories =>
      rw [on_rules_subdirectories h, on_rules_subdirectories (h.without path)]
      have hpaths : ((index.without path).trackedIgnoreFiles.on machine).1 =
          (index.trackedIgnoreFiles.on machine).1.map (List.filter (· ≠ path)) := by
        rw [IgnoreIndex.without, bind_pure_comp, on_map]
      rw [hpaths, IgnoreIndex.root_without]
      cases htracked : (index.trackedIgnoreFiles.on machine).1 with
      | error fault => rfl
      | ok paths =>
          refine flatten_mapM_filter fun other hother hleft => ?_
          obtain rfl : other = path := by simpa using hleft
          exact hadds rfl paths htracked hother

/-! ## compiling -/

/-- A compiled set has the rules of every source in it. -/
theorem exists_rules_of_compiled (h : index.OnlyReads machine) {sources : List RuleSource}
    {set : FilterSet} (hset : compiled index machine sources = .ok set) :
    ∀ source ∈ sources, ∃ rules, ((source.rules index).on machine).1 = .ok rules := by
  rw [compiled_eq h] at hset
  cases hmapM : sources.mapM fun source => ((RuleSource.rules index source).on machine).1 with
  | error fault =>
      rw [hmapM] at hset
      cases hset
  | ok parts => exact exists_eq_ok_of_mapM_eq_ok hmapM

/-- **A lagging index.**  An entry of a removed file is as good as none.  So is one
with a plain file on the way to it that is not asked for; one that is asked for ends
the compilation. -/
theorem compile_lagging (h : index.OnlyReads machine) (path : TreePath)
    (sources : List RuleSource) :
    (index.Removed machine path →
      compiled (index.without path) machine sources = compiled index machine sources) ∧
    (index.Obstructed machine path →
      (¬ index.Asks machine sources path →
        compiled (index.without path) machine sources = compiled index machine sources) ∧
      (index.Asks machine sources path → ∀ set, compiled index machine sources ≠ .ok set)) := by
  refine ⟨fun hremoved => ?_, fun hobstructed => ⟨fun hasks => ?_, ?_⟩⟩
  · exact compiled_congr h (h.without path) fun source _ =>
      RuleSource.on_rules_without h fun _ _ _ _ => IgnoreFile.on_rules_of_removed hremoved
  · refine compiled_congr h (h.without path) fun source hsource =>
      RuleSource.on_rules_without h fun hsubdirectories paths htracked hmem => ?_
    exact absurd ⟨hsubdirectories ▸ hsource, paths, htracked, hmem⟩ hasks
  · rintro ⟨hsource, paths, htracked, hmem⟩ set hset
    obtain ⟨rules, hrules⟩ := exists_rules_of_compiled h hset _ hsource
    rw [on_rules_subdirectories h, htracked] at hrules
    cases hmapM : paths.mapM fun path =>
        ((IgnoreFile.ofTracked index.root path).rules.on machine).1 with
    | error fault => simp [hmapM, Except.bind, Except.map] at hrules
    | ok parts =>
        obtain ⟨own, hown⟩ := exists_eq_ok_of_mapM_eq_ok hmapM path hmem
        rw [IgnoreFile.on_rules_of_obstructed hobstructed] at hown
        cases hown

/-- An index of a tree at `/app` that lists the ignore file of the directory `a`. -/
def laggingIndex : IgnoreIndex := ⟨"/app", pure none, pure [⟨ignorePath "a"⟩]⟩

theorem onlyReads_laggingIndex (machine : Machine) : laggingIndex.OnlyReads machine :=
  ⟨onlyReads_pure none, onlyReads_pure ([⟨ignorePath "a"⟩] : List TreePath)⟩

/-- A machine with that tree, where something else has the place of the directory. -/
def laggingMachine (place : List (Location × Entry)) : Machine where
  disk :=
    { entries :=
        (["app"], .directory) ::
        (["app", ".gitignore"], .file ⟨0, Text.bytes "*.o\n", 0o644⟩) :: place }

theorem approaches_laggingMachine (place : List (Location × Entry)) :
    (laggingMachine place).disk.Approaches none "/app/a/.gitignore" ["app"] "a" [".gitignore"] where
  nul := by decide
  dot := by decide
  up := by decide
  short := by decide
  leads := ⟨[], ["app"], Disk.maxLinks, by decide, by decide,
    .directory (by decide) (by decide) (by decide) rfl (.refl _ _)⟩

theorem compile_lagging_removed :
    laggingIndex.OnlyReads (laggingMachine []) ∧
      laggingIndex.Removed (laggingMachine []) ⟨ignorePath "a"⟩ ∧
      laggingIndex.Asks (laggingMachine []) [.root, .subdirectories] ⟨ignorePath "a"⟩ ∧
      compiled laggingIndex (laggingMachine []) [.root, .subdirectories] =
        .ok ⟨[⟨.excludes, "*.o"⟩]⟩ := by
  have hwithout : compiled (laggingIndex.without ⟨ignorePath "a"⟩) (laggingMachine [])
      [.root, .subdirectories] = .ok ⟨[⟨.excludes, "*.o"⟩]⟩ := by decide +kernel
  have hreads := onlyReads_laggingIndex (laggingMachine [])
  have hremoved : laggingIndex.Removed (laggingMachine []) ⟨ignorePath "a"⟩ :=
    ⟨_, _, _, approaches_laggingMachine [], by decide⟩
  have hsame := (compile_lagging hreads ⟨ignorePath "a"⟩ [.root, .subdirectories]).1 hremoved
  exact ⟨hreads, hremoved, ⟨by decide, [⟨ignorePath "a"⟩], by decide +kernel, by decide⟩,
    hsame.symm.trans hwithout⟩

/-- A plain file has the name of the directory: compiling fails, and does not with the
entry left out. -/
theorem obstructed_entry_fails :
    let machine := laggingMachine [(["app", "a"], .file ⟨1, Text.bytes "plain\n", 0o644⟩)]
    laggingIndex.Obstructed machine ⟨ignorePath "a"⟩ ∧
      compiled (laggingIndex.without ⟨ignorePath "a"⟩) machine [.root, .subdirectories] =
        .ok ⟨[⟨.excludes, "*.o"⟩]⟩ ∧
      compiled laggingIndex machine [.root, .subdirectories] =
        .error (.unreadable "subdirs" "/app/a/.gitignore"
          (.io "/app/a/.gitignore" .notDirectory)) :=
  ⟨⟨_, _, _, _, approaches_laggingMachine _, by decide, rfl⟩, by decide +kernel,
    by decide +kernel⟩

end TreeSync
