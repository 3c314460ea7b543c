import TreeSync.Proofs.Ignore.Subdirectories

/-!
# TreeSync.Proofs.Ignore.Concatenation

Compiling goes source by source, file by file and line by line, and nothing that
comes later changes what came before.

1. Two lists of sources, one after the other, have the rules of either, and the
   first failure counts (`compile_append`).
2. A text that goes on after a line ending has the rules of its two parts
   (`rulesOfText_append`), and how the lines end makes no difference
   (`rulesOfText_withReturns`).
3. A set is what each file of its sources adds (`exists_files_of_compiled`), so both
   points about texts are points about sets (`compiled_of_agreeOn`).

An index is asked again for every source, so it has to be one that only looks at
the machine (`IgnoreIndex.OnlyReads`); that of a working tree is.
-/

namespace TreeSync

open TreeSync.Action

/-! ## line endings -/

namespace Text

/-- A text with a carriage return in front of every line feed. -/
def withReturns (t : Text) : Text := t.flatMap fun c => if c = '\n' then ['\r', '\n'] else [c]

/-- Without line feeds there is nothing to put a carriage return in front of. -/
theorem withReturns_of_not_mem {t : Text} (h : '\n' ∉ t) : withReturns t = t := by
  induction t with
  | nil => rfl
  | cons c t ih =>
      obtain ⟨hne, ht⟩ := not_or.mp (mt List.mem_cons.mpr h)
      rw [withReturns, List.flatMap_cons, if_neg (Ne.symm hne), ← withReturns, ih ht]
      rfl

theorem withReturns_append (a b : Text) :
    withReturns (a ++ '\n' :: b) = withReturns a ++ '\r' :: '\n' :: withReturns b := by
  simp [withReturns]

/-- One line and the lines behind it. -/
theorem lines_line_append {line : Text} (h : '\n' ∉ line) (rest : Text) :
    lines (line ++ '\n' :: rest) = dropReturn line :: lines rest := by
  rw [lines_append, pieces_of_not_mem h]
  rfl

/-- A carriage return at the end of a line is dropped. -/
theorem dropReturn_concat (line : Text) : dropReturn (line ++ ['\r']) = line := by
  simp [dropReturn]

theorem dropReturn_of_not_mem {line : Text} (h : '\r' ∉ line) : dropReturn line = line :=
  if_neg fun hlast => h (List.mem_of_getLast? hlast)

/-- **A carriage return in front of every line feed** changes no line. -/
theorem lines_withReturns {t : Text} (h : '\r' ∉ t) : lines (withReturns t) = lines t := by
  -- One line at a time: what is left after a line is shorter.
  induction hn : t.length using Nat.strongRecOn generalizing t with
  | _ n ih =>
      subst hn
      by_cases hfeed : '\n' ∈ t
      · obtain ⟨line, rest, rfl, hline⟩ := List.eq_append_cons_of_mem hfeed
        have hreturn : '\r' ∉ line ∧ '\r' ∉ rest := by simp_all
        have hended : '\n' ∉ line ++ ['\r'] := by simp [hline]
        have hsplit : withReturns (line ++ '\n' :: rest) =
            (line ++ ['\r']) ++ '\n' :: withReturns rest := by
          rw [withReturns_append, withReturns_of_not_mem hline, List.append_assoc]
          rfl
        have hrest : lines (withReturns rest) = lines rest :=
          ih rest.length (by rw [List.length_append, List.length_cons]; omega) hreturn.2 rfl
        rw [hsplit, lines_line_append hended, lines_line_append hline, dropReturn_concat,
          dropReturn_of_not_mem hreturn.1, hrest]
      · rw [withReturns_of_not_mem hfeed]

end Text

/-! ## the rules of a text -/

namespace IgnoreFile

/-- **What follows a line ending** adds its own rules. -/
theorem rulesOfText_append (directory : Option Text) {before : Text} (after : Text)
    (h : before.getLast? = some '\n') :
    rulesOfText directory (before ++ after) =
      rulesOfText directory before ++ rulesOfText directory after := by
  obtain ⟨start, rfl⟩ := List.getLast?_eq_some_iff.mp h
  have hlines : Text.lines (start ++ ['\n'] ++ after) =
      Text.lines (start ++ ['\n']) ++ Text.lines after := by
    rw [Text.lines_concat, List.append_assoc, List.singleton_append, Text.lines_append]
  rw [rulesOfText, hlines, List.flatMap_append, rulesOfText, rulesOfText]

/-- How the lines of a text end makes no difference to its rules. -/
theorem rulesOfText_withReturns (directory : Option Text) {content : Text} (h : '\r' ∉ content) :
    rulesOfText directory (Text.withReturns content) = rulesOfText directory content := by
  rw [rulesOfText, Text.lines_withReturns h, rulesOfText]

variable {machine : Machine}

theorem onlyReads_read (file : IgnoreFile) : file.read.OnlyReads machine := by
  have hread : file.read.Reads machine (file.read.on machine).1 := by
    apply reads_of_on
    intro reports
    cases hrequired : file.required <;>
      cases hread : machine.disk.readText machine.environment.cwd file.path with
      | ok content =>
          simp [read, hrequired, Files.readText, Files.naming, Files.readOptionalText, hread]
      | error fault =>
          cases fault <;>
            simp [read, hrequired, Files.readText, Files.naming, Files.readOptionalText, hread]
  exact hread.onlyReads

/-- The rules of a file are those of its text. -/
theorem reads_rules {file : IgnoreFile} {content : Text}
    (h : machine.disk.readText machine.environment.cwd file.path = .ok content) :
    file.rules.Reads machine (.ok (rulesOfText file.directory content)) := by
  apply reads_rules_of_read
  apply reads_of_on
  intro reports
  cases hrequired : file.required <;>
    simp [read, hrequired, Files.readText, Files.naming, Files.readOptionalText, h, Except.map]

theorem onlyReads_rules (file : IgnoreFile) : file.rules.OnlyReads machine := by
  refine file.onlyReads_read.bind fun content? => ?_
  cases content? with
  | none => exact onlyReads_pure []
  | some content =>
      by_cases hexact : 0 < approximations file.directory content
      · simp only [hexact, if_true]
        exact (reads_report .warn).onlyReads.bind fun _ => onlyReads_pure _
      · simp only [hexact, if_false]
        exact onlyReads_pure _

/-- The rules of a file are those of what is read from it. -/
theorem on_rules (file : IgnoreFile) :
    (file.rules.on machine).1 = (file.read.on machine).1.map fun content? =>
      (content?.map (rulesOfText file.directory)).getD [] := by
  have hread : file.read.Reads machine (file.read.on machine).1 := file.onlyReads_read
  have hrules : file.rules.Reads machine ((file.read.on machine).1.map fun content? =>
      (content?.map (rulesOfText file.directory)).getD []) := by
    cases houtcome : (file.read.on machine).1 with
    | error fault => exact (houtcome ▸ hread).bind_error _
    | ok content? =>
        cases content? with
        | none => exact (houtcome ▸ hread).bind (reads_pure [])
        | some content => exact reads_rules_of_read (houtcome ▸ hread)
  exact hrules.on_fst

/-- The rules that a file adds to a set: those of its text, as far as there is one. -/
def adds (machine : Machine) (file : IgnoreFile) : List FilterRule :=
  match machine.disk.readText machine.environment.cwd file.path with
  | .ok content => rulesOfText file.directory content
  | .error _ => []

/-- What a file has for rules is what it adds. -/
theorem eq_adds_of_rules {file : IgnoreFile} {rules : List FilterRule}
    (h : (file.rules.on machine).1 = .ok rules) : rules = file.adds machine := by
  cases hread : machine.disk.readText machine.environment.cwd file.path with
  | ok content =>
      rw [(reads_rules hread).on_fst] at h
      cases h
      simp only [adds, hread]
  | error fault =>
      rw [on_rules] at h
      cases hrequired : file.required <;> cases fault <;>
        simp_all [read, Files.readText, Files.naming, Files.readOptionalText, Except.map, adds]

/-- What is read of a file depends on its text only. -/
theorem on_read_congr {machine' : Machine} {file : IgnoreFile}
    (h : machine'.disk.readText machine'.environment.cwd file.path =
      machine.disk.readText machine.environment.cwd file.path) :
    (file.read.on machine').1 = (file.read.on machine).1 := by
  cases hrequired : file.required <;>
    cases hread : machine.disk.readText machine.environment.cwd file.path with
    | ok content =>
        simp [read, hrequired, Files.readText, Files.naming, Files.readOptionalText, h, hread]
    | error fault =>
        cases fault <;>
          simp [read, hrequired, Files.readText, Files.naming, Files.readOptionalText, h, hread]

end IgnoreFile

/-! ## the rules of sources -/

section
variable {ε α β : Type} {f : α → Except ε β} {xs : List α} {ys : List β}

theorem mapM_congr {g : α → Except ε β} (h : ∀ x ∈ xs, f x = g x) : xs.mapM f = xs.mapM g := by
  induction xs with
  | nil => rfl
  | cons x xs ih =>
      rw [List.mapM_cons, List.mapM_cons, h x List.mem_cons_self,
        ih fun y hy => h y (List.mem_cons_of_mem x hy)]

/-- A list succeeds with its first element and with the others. -/
theorem mapM_cons_eq_ok {x : α} :
    (x :: xs).mapM f = .ok ys ↔
      ∃ y rest, f x = .ok y ∧ xs.mapM f = .ok rest ∧ ys = y :: rest := by
  rw [List.mapM_cons]
  cases f x with
  | error fault => simp [bind, Except.bind]
  | ok y =>
      cases xs.mapM f with
      | error fault => simp [bind, Except.bind]
      | ok rest => simp [bind, Except.bind, pure, Except.pure, eq_comm]

/-- A list that succeeds does so in every element. -/
theorem exists_eq_ok_of_mapM_eq_ok (h : xs.mapM f = .ok ys) : ∀ x ∈ xs, ∃ y, f x = .ok y := by
  induction xs generalizing ys with
  | nil => simp
  | cons x xs ih =>
      obtain ⟨y, rest, hx, hrest, -⟩ := mapM_cons_eq_ok.mp h
      simpa [hx] using ih hrest

/-- What comes of a list, element by element, up to the first failure. -/
theorem mem_of_mapM_eq_ok (h : xs.mapM f = .ok ys) {y : β} :
    y ∈ ys ↔ ∃ x ∈ xs, f x = .ok y := by
  induction xs generalizing ys with
  | nil =>
      cases h
      simp
  | cons x xs ih =>
      obtain ⟨first, rest, hx, hrest, rfl⟩ := mapM_cons_eq_ok.mp h
      simp [ih hrest, hx, eq_comm]

/-- Lists that come of the elements of a list, one after the other. -/
theorem flatten_of_mapM_eq_ok {f : α → Except ε (List β)} {g : α → List β} {parts : List (List β)}
    (h : xs.mapM f = .ok parts) (hg : ∀ x ys, f x = .ok ys → ys = g x) :
    parts.flatten = xs.flatMap g := by
  induction xs generalizing parts with
  | nil =>
      cases h
      rfl
  | cons x xs ih =>
      obtain ⟨ys, rest, hx, hrest, rfl⟩ := mapM_cons_eq_ok.mp h
      rw [List.flatten_cons, List.flatMap_cons, ih hrest, hg x ys hx]

end


variable {index : IgnoreIndex} {machine : Machine}

/-- An index that only looks at a machine, so that it tells the same whenever it is
asked. -/
structure IgnoreIndex.OnlyReads (index : IgnoreIndex) (machine : Machine) : Prop where
  globalExcludes : index.globalExcludes.OnlyReads machine
  trackedIgnoreFiles : index.trackedIgnoreFiles.OnlyReads machine

theorem Workspace.onlyReads_configFiles (workspace : Workspace) :
    workspace.configFiles.OnlyReads machine := by
  refine onlyReads_get_bind (fun _ => rfl) ?_
  split
  · exact onlyReads_pure _
  · exact onlyReads_throw _

/-- The index of a working tree only looks at the machine. -/
theorem Workspace.onlyReads_ignoreIndex (workspace : Workspace) (machine : Machine) :
    workspace.ignoreIndex.OnlyReads machine where
  globalExcludes := by
    refine workspace.onlyReads_configFiles.bind fun files => ?_
    split
    · exact onlyReads_pure _
    · exact onlyReads_throw _
    · refine onlyReads_get_bind (fun _ => rfl) ?_
      split
      · exact onlyReads_pure _
      · exact onlyReads_throw _
  trackedIgnoreFiles := by
    refine onlyReads_get_bind (fun _ => rfl) ?_
    split
    · exact onlyReads_pure _
    · exact onlyReads_throw _

/-- Asking for the files of a source only looks at the machine. -/
theorem RuleSource.onlyReads_files (h : index.OnlyReads machine) (source : RuleSource) :
    (source.files index).OnlyReads machine := by
  cases source with
  | «global» =>
      refine (h.globalExcludes.mapError SourceError.git).bind fun path? => ?_
      cases path? <;> exact onlyReads_pure _
  | root => exact onlyReads_pure _
  | subdirectories =>
      exact (h.trackedIgnoreFiles.mapError SourceError.git).bind fun _ => onlyReads_pure _
  | file path => exact onlyReads_pure _

theorem RuleSource.onlyReads_rules (h : index.OnlyReads machine) (source : RuleSource) :
    (source.rules index).OnlyReads machine := by
  refine (source.onlyReads_files h).bind fun files => ?_
  have hfiles : (files.mapM IgnoreFile.rules).Reads machine
      (files.mapM fun file => (file.rules.on machine).1) :=
    reads_mapM fun file _ => file.onlyReads_rules
  exact hfiles.onlyReads.bind fun _ => onlyReads_pure _

/-- The rules of a source are those of its files. -/
theorem RuleSource.on_rules (h : index.OnlyReads machine) (source : RuleSource) :
    ((source.rules index).on machine).1 = ((source.files index).on machine).1.bind fun files =>
      (files.mapM fun file : IgnoreFile => (file.rules.on machine).1).map List.flatten := by
  have hfiles : (source.files index).Reads machine ((source.files index).on machine).1 :=
    source.onlyReads_files h
  have hrules : (source.rules index).Reads machine
      (((source.files index).on machine).1.bind fun files =>
        (files.mapM fun file : IgnoreFile => (file.rules.on machine).1).map List.flatten) := by
    cases houtcome : ((source.files index).on machine).1 with
    | error fault => exact (houtcome ▸ hfiles).bind_error _
    | ok files =>
        have heach : (files.mapM IgnoreFile.rules).Reads machine
            (files.mapM fun file => (file.rules.on machine).1) :=
          reads_mapM fun file _ => file.onlyReads_rules
        exact (houtcome ▸ hfiles).bind (heach.map List.flatten)
  exact hrules.on_fst

/-- **The set of some sources** is put together from the rules that each of them has
by itself. -/
theorem reads_compile (h : index.OnlyReads machine) (sources : List RuleSource) :
    (compile index sources).Reads machine
      ((sources.mapM fun source => ((RuleSource.rules index source).on machine).1).map
        fun rules => FilterSet.empty.append rules.flatten) :=
  (reads_mapM fun source _ => RuleSource.onlyReads_rules h source).map _

/-- What compiling some sources comes to on a machine. -/
def compiled (index : IgnoreIndex) (machine : Machine) (sources : List RuleSource) :
    Except SourceError FilterSet :=
  ((compile index sources).on machine).1

theorem compiled_of_reads {sources : List RuleSource} {outcome : Except SourceError FilterSet}
    (h : (compile index sources).Reads machine outcome) :
    compiled index machine sources = outcome :=
  h.on_fst

/-- A set is put together from the rules of each source. -/
theorem compiled_eq (h : index.OnlyReads machine) (sources : List RuleSource) :
    compiled index machine sources =
      (sources.mapM fun source => ((RuleSource.rules index source).on machine).1).map
        fun rules => FilterSet.empty.append rules.flatten :=
  compiled_of_reads (reads_compile h sources)

/-- Sources that have the same rules have the same set. -/
theorem compiled_congr {index' : IgnoreIndex} {machine' : Machine} (h : index.OnlyReads machine)
    (h' : index'.OnlyReads machine') {sources : List RuleSource}
    (hrules : ∀ source ∈ sources,
      ((source.rules index').on machine').1 = ((source.rules index).on machine).1) :
    compiled index' machine' sources = compiled index machine sources := by
  rw [compiled_eq h, compiled_eq h', mapM_congr hrules]

/-- **Two lists of sources**: the set of the first, then what the second adds to the
metadata rule; the first failure counts. -/
theorem compiled_append (h : index.OnlyReads machine) (first second : List RuleSource) :
    compiled index machine (first ++ second) =
      (compiled index machine first).bind fun set =>
        (compiled index machine second).map fun more => set.append more.added := by
  rw [compiled_eq h, compiled_eq h, compiled_eq h, List.mapM_append]
  cases first.mapM fun source => ((RuleSource.rules index source).on machine).1 with
  | error fault => rfl
  | ok rules =>
      cases second.mapM fun source => ((RuleSource.rules index source).on machine).1 with
      | error fault => rfl
      | ok rules' =>
          show Except.ok (FilterSet.empty.append (rules ++ rules').flatten) =
            Except.ok ((FilterSet.empty.append rules.flatten).append rules'.flatten)
          rw [FilterSet.append_append, List.flatten_append]

/-- The files of some sources, in their order. -/
def filesOf (index : IgnoreIndex) (machine : Machine) (sources : List RuleSource) :
    Except SourceError (List IgnoreFile) :=
  (sources.mapM fun source => ((RuleSource.files index source).on machine).1).map List.flatten

/-- The rules of a source are what its files add. -/
theorem RuleSource.exists_files_of_rules (h : index.OnlyReads machine) {source : RuleSource}
    {rules : List FilterRule} (hrules : ((source.rules index).on machine).1 = .ok rules) :
    ∃ files, ((source.files index).on machine).1 = .ok files ∧
      rules = files.flatMap (IgnoreFile.adds machine) := by
  rw [source.on_rules h] at hrules
  cases hfiles : ((source.files index).on machine).1 with
  | error fault => simp [hfiles, Except.bind] at hrules
  | ok files =>
      cases hparts : files.mapM fun file : IgnoreFile => (file.rules.on machine).1 with
      | error fault => simp [hfiles, hparts, Except.bind, Except.map] at hrules
      | ok parts =>
          have hflatten : parts.flatten = files.flatMap (IgnoreFile.adds machine) :=
            flatten_of_mapM_eq_ok hparts fun _ _ => IgnoreFile.eq_adds_of_rules
          simp [hfiles, hparts, Except.bind, Except.map] at hrules
          exact ⟨files, rfl, hrules ▸ hflatten⟩

/-- The rules of some sources are what the files of each add. -/
theorem exists_groups_of_mapM_rules (h : index.OnlyReads machine) {sources : List RuleSource}
    {parts : List (List FilterRule)}
    (hparts : (sources.mapM fun source => ((RuleSource.rules index source).on machine).1) =
      .ok parts) :
    ∃ groups,
      (sources.mapM fun source => ((RuleSource.files index source).on machine).1) = .ok groups ∧
        parts.flatten = groups.flatten.flatMap (IgnoreFile.adds machine) := by
  induction sources generalizing parts with
  | nil =>
      cases hparts
      exact ⟨[], rfl, rfl⟩
  | cons source sources ih =>
      obtain ⟨rules, rest, hrules, hrest, rfl⟩ := mapM_cons_eq_ok.mp hparts
      obtain ⟨files, hfiles, rfl⟩ := RuleSource.exists_files_of_rules h hrules
      obtain ⟨groups, hgroups, hflatten⟩ := ih hrest
      refine ⟨files :: groups, mapM_cons_eq_ok.mpr ⟨files, groups, hfiles, hgroups, rfl⟩, ?_⟩
      rw [List.flatten_cons, List.flatten_cons, List.flatMap_append, hflatten]

/-- **A compiled set** is the metadata rule and what every file of its sources adds. -/
theorem exists_files_of_compiled (h : index.OnlyReads machine) {sources : List RuleSource}
    {set : FilterSet} (hset : compiled index machine sources = .ok set) :
    ∃ files, filesOf index machine sources = .ok files ∧
      set.rules = .metadata :: files.flatMap (IgnoreFile.adds machine) := by
  rw [compiled_eq h] at hset
  cases hparts : sources.mapM fun source => ((RuleSource.rules index source).on machine).1 with
  | error fault => simp [hparts, Except.map] at hset
  | ok parts =>
      obtain ⟨groups, hgroups, hflatten⟩ := exists_groups_of_mapM_rules h hparts
      rw [hparts] at hset
      cases hset
      refine ⟨groups.flatten, by rw [filesOf, hgroups]; rfl, ?_⟩
      show FilterRule.metadata :: ([] ++ parts.flatten) = _
      rw [List.nil_append, hflatten]

/-- Two machines have the same files of some sources, with the same lines in them: the
line endings of a text without carriage returns may have got some. -/
def AgreeOn (index : IgnoreIndex) (machine machine' : Machine) (sources : List RuleSource) : Prop :=
  ∀ source ∈ sources,
    ((source.files index).on machine').1 = ((source.files index).on machine).1 ∧
      ∀ files, ((source.files index).on machine).1 = .ok files → ∀ file ∈ files,
        let text := machine.disk.readText machine.environment.cwd file.path
        let text' := machine'.disk.readText machine'.environment.cwd file.path
        text' = text ∨ ∃ content, '\r' ∉ content ∧ text = .ok content ∧
          text' = .ok (Text.withReturns content)

/-- **Line endings are no part of a set**: machines that agree on the lines of its
files have it in common. -/
theorem compiled_of_agreeOn {machine' : Machine} (h : index.OnlyReads machine)
    (h' : index.OnlyReads machine') {sources : List RuleSource}
    (hagree : AgreeOn index machine machine' sources) :
    compiled index machine' sources = compiled index machine sources := by
  refine compiled_congr h h' fun source hsource => ?_
  obtain ⟨hfiles, htexts⟩ := hagree source hsource
  rw [source.on_rules h, source.on_rules h', hfiles]
  cases houtcome : ((source.files index).on machine).1 with
  | error fault => rfl
  | ok files =>
      have heach : files.mapM (fun file => (file.rules.on machine').1) =
          files.mapM fun file => (file.rules.on machine).1 := by
        refine mapM_congr fun file hfile => ?_
        obtain hsame | ⟨content, hreturn, htext, htext'⟩ := htexts files houtcome file hfile
        · rw [IgnoreFile.on_rules, IgnoreFile.on_rules, IgnoreFile.on_read_congr hsame]
        · rw [(IgnoreFile.reads_rules htext).on_fst, (IgnoreFile.reads_rules htext').on_fst,
            IgnoreFile.rulesOfText_withReturns _ hreturn]
      exact congrArg (Except.map List.flatten) heach

/-- **Compiling is concatenating**: of sources, up to the first failure; of files, in
what each adds to the set; of texts, at the line endings, whichever they are.  The
metadata rule is the first in any case. -/
theorem compile_concatenates (h : index.OnlyReads machine) :
    (∀ first second,
      (∀ fault, compiled index machine first = .error fault →
        compiled index machine (first ++ second) = .error fault) ∧
      (∀ set fault, compiled index machine first = .ok set →
        compiled index machine second = .error fault →
          compiled index machine (first ++ second) = .error fault) ∧
      ∀ set set', compiled index machine first = .ok set →
        compiled index machine second = .ok set' →
          ∃ both, compiled index machine (first ++ second) = .ok both ∧
            both.rules = set.rules ++ set'.rules.tail) ∧
    (∀ file : IgnoreFile, ∀ content,
      machine.disk.readText machine.environment.cwd file.path = .ok content →
        (file.rules.on machine).1 = .ok (IgnoreFile.rulesOfText file.directory content)) ∧
    (∀ directory before after, before.getLast? = some '\n' →
      IgnoreFile.rulesOfText directory (before ++ after) =
        IgnoreFile.rulesOfText directory before ++ IgnoreFile.rulesOfText directory after) ∧
    (∀ directory content, '\r' ∉ content →
      IgnoreFile.rulesOfText directory (Text.withReturns content) =
        IgnoreFile.rulesOfText directory content) ∧
    (∀ sources set, compiled index machine sources = .ok set →
      set.rules.head? = some .metadata) ∧
    (∀ sources set, compiled index machine sources = .ok set →
      ∃ files, filesOf index machine sources = .ok files ∧
        set.rules = .metadata :: files.flatMap (IgnoreFile.adds machine)) ∧
    (∀ file : IgnoreFile, ∀ before after,
      machine.disk.readText machine.environment.cwd file.path = .ok (before ++ after) →
        before.getLast? = some '\n' →
          file.adds machine = IgnoreFile.rulesOfText file.directory before ++
            IgnoreFile.rulesOfText file.directory after) ∧
    ∀ machine' sources, index.OnlyReads machine' → AgreeOn index machine machine' sources →
      compiled index machine' sources = compiled index machine sources := by
  refine ⟨fun first second => ⟨?_, ?_, ?_⟩, ?_, ?_, ?_, ?_, ?_, ?_, ?_⟩
  · intro fault hfirst
    rw [compiled_append h, hfirst]
    rfl
  · intro set fault hfirst hsecond
    rw [compiled_append h, hfirst, hsecond]
    rfl
  · intro set set' hfirst hsecond
    rw [compiled_append h, hfirst, hsecond]
    exact ⟨set.append set'.added, rfl, rfl⟩
  · exact fun file content hread => (IgnoreFile.reads_rules hread).on_fst
  · exact fun directory before after => IgnoreFile.rulesOfText_append directory after
  · exact fun directory content => IgnoreFile.rulesOfText_withReturns directory
  · intro sources set _
    rfl
  · exact fun sources set hset => exists_files_of_compiled h hset
  · intro file before after hread hfeed
    rw [← IgnoreFile.rulesOfText_append _ _ hfeed]
    simp only [IgnoreFile.adds, hread]
  · exact fun machine' sources h' hagree => compiled_of_agreeOn h h' hagree

theorem agreeOn_nested :
    AgreeOn trackingTree.ignoreIndex (trackingMachine "a" "/out\n*.o\n")
      (trackingMachine "a" "/out\r\n*.o\r\n") [.subdirectories] := by
  have hfiles (content : Text) : ((RuleSource.files trackingTree.ignoreIndex .subdirectories).on
      (trackingMachine "a" content)).1 = .ok [ignoreFileIn trackingTree.root "a"] :=
    (reads_files_trackingMachine content (by decide +kernel) (by decide +kernel)).on_fst
  intro source hsource
  obtain rfl : source = .subdirectories := by simpa using hsource
  refine ⟨(hfiles _).trans (hfiles _).symm,
    fun files hfiles' file hfile => Or.inr ⟨"/out\n*.o\n", by decide, ?_⟩⟩
  obtain rfl : [ignoreFileIn trackingTree.root "a"] = files :=
    Except.ok.inj ((hfiles _).symm.trans hfiles')
  obtain rfl := List.mem_singleton.mp hfile
  exact ⟨eq_ok_of_toOption (by decide +kernel), eq_ok_of_toOption (by decide +kernel)⟩

theorem compile_concatenates_nested :
    let index := trackingTree.ignoreIndex
    let machine := trackingMachine "a" "/out\n*.o\n"
    let machine' := trackingMachine "a" "/out\r\n*.o\r\n"
    index.OnlyReads machine ∧ index.OnlyReads machine' ∧
      AgreeOn index machine machine' [.subdirectories] ∧
      compiled index machine [.subdirectories] =
        .ok ⟨[⟨.excludes, "/a/out"⟩, ⟨.excludes, "/a/**/*.o"⟩, ⟨.excludes, "/a/*.o"⟩]⟩ ∧
      compiled index machine' [.subdirectories] = compiled index machine [.subdirectories] ∧
      compiled index machine [.root] = .ok ⟨[]⟩ ∧
      ∃ both, compiled index machine ([.subdirectories] ++ [.root]) = .ok both ∧
        both.rules = [.metadata, ⟨.excludes, "/a/out"⟩, ⟨.excludes, "/a/**/*.o"⟩,
          ⟨.excludes, "/a/*.o"⟩] := by
  have hreads := Workspace.onlyReads_ignoreIndex trackingTree (trackingMachine "a" "/out\n*.o\n")
  have hreads' :=
    Workspace.onlyReads_ignoreIndex trackingTree (trackingMachine "a" "/out\r\n*.o\r\n")
  have hfirst : compiled trackingTree.ignoreIndex (trackingMachine "a" "/out\n*.o\n")
      [.subdirectories] =
        .ok ⟨[⟨.excludes, "/a/out"⟩, ⟨.excludes, "/a/**/*.o"⟩, ⟨.excludes, "/a/*.o"⟩]⟩ :=
    compiled_of_reads (reads_compile_trackingMachine (by decide +kernel) (by decide +kernel)
      (eq_ok_of_toOption (by decide +kernel)))
  have hsecond : compiled trackingTree.ignoreIndex (trackingMachine "a" "/out\n*.o\n") [.root] =
      .ok ⟨[]⟩ :=
    eq_ok_of_toOption (by decide +kernel)
  obtain ⟨hsources, -, -, -, -, -, -, htexts⟩ := compile_concatenates hreads
  obtain ⟨both, hboth, hrules⟩ := (hsources _ _).2.2 _ _ hfirst hsecond
  exact ⟨hreads, hreads', agreeOn_nested, hfirst, htexts _ _ hreads' agreeOn_nested, hsecond,
    both, hboth, hrules⟩

end TreeSync
