import TreeSync.Proofs.Ignore.Concatenation
import TreeSync.Proofs.Ignore.Line
import TreeSync.Proofs.Ignore.Verdict
import TreeSync.Proofs.Pattern.Parts

/-!
# TreeSync.Proofs.Ignore.Listing

Reading a written filter set back: one rule for each line.

1. A written rule gives the rule back (`FilterRule.ofLine?_line`).  The text of a set
   is cut into its rules again exactly where no pattern holds a line feed
   (`FilterSet.pieces_text_iff`).
2. A line of an ignore file holds none, but two other things can put one into a
   pattern: the name of its directory, and a range such as `[\t-\v]`, which is
   spelled out with every character in between (`Breaks`).

So the text of a compiled set is cut into its rules exactly where no line that is
read breaks it (`compile_text_splits_iff`).
-/

namespace TreeSync

open TreeSync.Action Pattern

/-! ## written rules -/

/-- Read a written rule: a marker, a blank and a pattern. -/
def FilterRule.ofLine? : Text → Option FilterRule
  | '+' :: ' ' :: pattern => some ⟨.includes, pattern⟩
  | '-' :: ' ' :: pattern => some ⟨.excludes, pattern⟩
  | _ => none

/-- A written rule is read as the rule. -/
theorem FilterRule.ofLine?_line (rule : FilterRule) : ofLine? rule.line = some rule := by
  obtain ⟨sense, pattern⟩ := rule
  cases sense <;> rfl

/-- What a rule is written with has no line feed of its own. -/
theorem FilterRule.feed_mem_line {rule : FilterRule} :
    '\n' ∈ rule.line ↔ '\n' ∈ rule.pattern := by
  obtain ⟨sense, pattern⟩ := rule
  cases sense <;> simp [line, Sense.marker]

/-- Texts with an ending each are cut into the pieces of every one. -/
theorem Text.pieces_flatMap_concat (sep : Char) (ts : List Text) :
    pieces sep (ts.flatMap (· ++ [sep])) = ts.flatMap (pieces sep) ++ [[]] := by
  induction ts with
  | nil => rfl
  | cons t ts ih => simp [pieces_append, ih]

namespace FilterSet

/-- **The text of a set is cut into its rules** exactly where no pattern holds a line
feed. -/
theorem pieces_text_iff (set : FilterSet) :
    Text.pieces '\n' set.text = set.lines ++ [[]] ↔
      ∀ rule ∈ set.rules, '\n' ∉ rule.pattern := by
  have hlines : (∀ rule ∈ set.rules, '\n' ∉ rule.pattern) ↔ ∀ line ∈ set.lines, '\n' ∉ line := by
    simp [lines, FilterRule.feed_mem_line]
  rw [text, Text.pieces_flatMap_concat, List.append_cancel_right_eq, hlines]
  constructor
  · intro hpieces line hline
    -- Every line is one of the pieces, and those hold no line feed.
    rw [← hpieces, List.mem_flatMap] at hline
    obtain ⟨whole, -, hpiece⟩ := hline
    exact Text.not_mem_of_mem_pieces hpiece
  · intro hfeed
    have hwhole : ∀ line ∈ set.lines, Text.pieces '\n' line = [line] :=
      fun line hline => Text.pieces_of_not_mem (hfeed line hline)
    rw [List.flatMap_def, List.map_congr_left hwhole, ← List.flatMap_def]
    exact List.flatMap_singleton' _

/-- The lines of a set determine it. -/
theorem eq_of_lines_eq {set set' : FilterSet} (h : set.lines = set'.lines) : set = set' := by
  have hrules : set.rules = set'.rules :=
    (List.map_inj_right fun _ _ => FilterRule.line_injective).mp h
  cases set
  cases set'
  simpa [rules] using hrules

end FilterSet

/-! ## line feeds in the rules of a line -/

/-- A variant spells a line feed out: it is within the limit, and a range of one of its
groups goes over the line feed. -/
def SpellsFeed (variant : Text) : Prop :=
  groupsFit variant = true ∧
    ∃ body, .group body ∈ Part.ofText variant ∧ negated? body = none ∧
      ∃ range ∈ ranges body, range.1 ≤ '\n' ∧ '\n' ≤ range.2

/-- A variant without line feeds can only offer one in a range. -/
theorem offers_feed_iff {variant : Text} (h : '\n' ∉ variant) :
    (∃ part ∈ Part.ofText variant, part.Offers '\n') ↔
      ∃ body, .group body ∈ Part.ofText variant ∧ negated? body = none ∧
        ∃ range ∈ ranges body, range.1 ≤ '\n' ∧ '\n' ≤ range.2 := by
  constructor
  · rintro ⟨part, hpart, hoffers⟩
    cases part with
    | char c =>
        have hc : '\n' = c := by simpa [Part.Offers, Part.choices] using hoffers
        exact absurd (hc ▸ Part.mem_of_char_mem hpart) h
    | group body =>
        cases hnegated : negated? body with
        | some excluded => simp [Part.Offers, Part.choices, hnegated] at hoffers
        | none =>
            have hmember : '\n' ∈ members body := by
              simpa [Part.Offers, Part.choices, hnegated] using hoffers
            exact ⟨body, hpart, hnegated, mem_members_iff.mp hmember⟩
  · rintro ⟨body, hpart, hnegated, hrange⟩
    refine ⟨.group body, hpart, ?_⟩
    simpa [Part.Offers, Part.choices, hnegated] using mem_members_iff.mpr hrange

/-- A line feed comes out of the groups exactly where one spells it out. -/
theorem exists_feed_expandGroups_iff {variant : Text} (h : '\n' ∉ variant) :
    (∃ t ∈ expandGroups variant, '\n' ∈ t) ↔ SpellsFeed variant := by
  rw [expandGroups, SpellsFeed, ← offers_feed_iff h]
  split
  · next hfits =>
      have hoffers : ∀ part ∈ Part.ofText variant, ∃ c, part.Offers c :=
        fun _ => Part.exists_offers
      simpa [hfits] using Part.exists_mem_iff (c := '\n') hoffers
  · next hfits =>
      have hwidened : '\n' ∉ (Part.ofText variant).map Part.widen := by
        rw [List.mem_map]
        rintro ⟨part, hpart, hc⟩
        cases part with
        | char c => exact h (hc ▸ Part.mem_of_char_mem hpart)
        | group body => simp [Part.widen] at hc
      simpa [hfits] using hwidened

namespace IgnoreRule

theorem feed_not_mem_relativePattern {rule : IgnoreRule} (h : '\n' ∉ rule.pattern) :
    '\n' ∉ rule.relativePattern := by
  unfold relativePattern
  split
  · exact h
  · split <;> simp [h, anyDepth]

theorem feed_mem_quoteDirectory {doubled : Bool} {dir : Text} :
    '\n' ∈ quoteDirectory doubled dir ↔ '\n' ∈ dir := by
  induction dir with
  | nil => rfl
  | cons c dir ih =>
      rw [quoteDirectory, List.flatMap_cons, List.mem_append, ← quoteDirectory, ih, List.mem_cons]
      split
      · simp
      · split <;> simp_all

/-- A line feed behind a directory is one of the directory or of the pattern. -/
theorem feed_mem_under {directory : Option Text} {pattern : Text} :
    '\n' ∈ under directory pattern ↔
      (∃ dir ∈ directory, '\n' ∈ dir) ∨ '\n' ∈ pattern := by
  cases directory with
  | none => simp [under]
  | some dir => simp [under, feed_mem_quoteDirectory]

/-- The rules of a line are its variants, spelled out, behind the directory. -/
theorem mem_rules_iff {parsed : IgnoreRule} {rule : FilterRule} :
    rule ∈ parsed.rules ↔
      ∃ variant ∈ expandAnyDepth parsed.relativePattern, ∃ t ∈ expandGroups variant,
        t ≠ [] ∧ rule = ⟨parsed.sense, under parsed.directory t⟩ := by
  simp only [rules, patterns, List.mem_map, List.mem_filter, List.mem_flatMap, ne_eq,
    decide_eq_true_eq]
  constructor
  · rintro ⟨t, ⟨⟨variant, hvariant, ht⟩, hne⟩, rfl⟩
    exact ⟨variant, hvariant, t, ht, hne, rfl⟩
  · rintro ⟨variant, hvariant, t, ht, hne, rfl⟩
    exact ⟨t, ⟨⟨variant, hvariant, ht⟩, hne⟩, rfl⟩

/-- A line in a directory has rules. -/
theorem exists_mem_rules {parsed : IgnoreRule} (h : parsed.directory.isSome = true) :
    ∃ rule, rule ∈ parsed.rules := by
  obtain ⟨r, hr⟩ := head?_relativePattern h
  obtain ⟨variant, hvariant⟩ := List.exists_mem_of_ne_nil _ (expandAnyDepth_ne_nil r)
  obtain ⟨t, ht⟩ := List.exists_mem_of_ne_nil _ (expandGroups_ne_nil variant)
  refine ⟨⟨parsed.sense, under parsed.directory ('/' :: t)⟩, mem_rules_iff.mpr ?_⟩
  refine ⟨'/' :: variant, ?_, '/' :: t, ?_, by simp, rfl⟩
  · rw [hr, expandAnyDepth_cons (by decide)]
    exact List.mem_map_of_mem hvariant
  · rw [expandGroups_cons (by decide)]
    exact List.mem_map_of_mem ht

end IgnoreRule

/-- A line of an ignore file in a directory breaks a written set: the name of the
directory holds a line feed, or a variant of the pattern spells one out. -/
def Breaks (line : Text) (directory : Option Text) : Prop :=
  ∃ parsed ∈ IgnoreRule.parse line directory,
    (∃ dir ∈ parsed.directory, '\n' ∈ dir) ∨
      ∃ variant ∈ expandAnyDepth parsed.relativePattern, SpellsFeed variant

open IgnoreRule in
/-- **A rule of a line holds a line feed** exactly where the line breaks a written
set. -/
theorem exists_feed_rulesOfLine_iff {line : Text} (directory : Option Text) (h : '\n' ∉ line) :
    (∃ rule ∈ rulesOfLine line directory, '\n' ∈ rule.pattern) ↔ Breaks line directory := by
  rw [rulesOfLine, Breaks]
  cases hparse : parse line directory with
  | none => simp
  | some parsed =>
      have hpattern : '\n' ∉ parsed.pattern := fun hmem =>
        h ((sublist_of_parse hparse).subset hmem)
      have hvariants : ∀ variant ∈ expandAnyDepth parsed.relativePattern, '\n' ∉ variant :=
        fun variant hvariant hmem => feed_not_mem_relativePattern hpattern
          ((sublist_of_mem_expandAnyDepth hvariant).subset hmem)
      simp only [Option.mem_some_iff, exists_eq_left']
      constructor
      · rintro ⟨rule, hrule, hfeed⟩
        obtain ⟨variant, hvariant, t, ht, -, rfl⟩ := mem_rules_iff.mp hrule
        obtain hdir | hfeed := feed_mem_under.mp hfeed
        · exact Or.inl hdir
        · have hspells := (exists_feed_expandGroups_iff (hvariants variant hvariant)).mp
            ⟨t, ht, hfeed⟩
          exact Or.inr ⟨variant, hvariant, hspells⟩
      · rintro (⟨dir, hdir, hfeed⟩ | ⟨variant, hvariant, hspells⟩)
        · obtain ⟨rule, hrule⟩ := exists_mem_rules (Option.isSome_of_mem hdir)
          obtain ⟨variant, -, t, -, -, rfl⟩ := mem_rules_iff.mp hrule
          exact ⟨_, hrule, feed_mem_under.mpr (Or.inl ⟨dir, hdir, hfeed⟩)⟩
        · obtain ⟨t, ht, hfeed⟩ :=
            (exists_feed_expandGroups_iff (hvariants variant hvariant)).mpr hspells
          have hne : t ≠ [] := List.ne_nil_of_mem hfeed
          exact ⟨_, mem_rules_iff.mpr ⟨variant, hvariant, t, ht, hne, rfl⟩,
            feed_mem_under.mpr (Or.inr hfeed)⟩

/-! ## the lines that are read -/

/-- A line of a text holds no line feed. -/
theorem Text.feed_not_mem_of_mem_lines {t line : Text} (h : line ∈ lines t) : '\n' ∉ line := by
  have hfinished : ∀ piece ∈ (pieces '\n' t).dropLast, '\n' ∉ dropReturn piece := by
    intro piece hpiece
    have hfeed := not_mem_of_mem_pieces (List.dropLast_subset _ hpiece)
    rw [dropReturn]
    split
    · exact fun hmem => hfeed (List.dropLast_subset _ hmem)
    · exact hfeed
  rw [lines] at h
  split at h
  · next c r hlast =>
      rw [List.mem_append, List.mem_map, List.mem_singleton] at h
      obtain ⟨piece, hpiece, rfl⟩ | rfl := h
      · exact hfinished piece hpiece
      · exact not_mem_of_mem_pieces (List.mem_of_getLast? hlast)
  · obtain ⟨piece, hpiece, rfl⟩ := List.mem_map.mp h
    exact hfinished piece hpiece

variable {index : IgnoreIndex} {machine : Machine}

/-- A line of an ignore file in a directory is read when some sources are compiled. -/
def IsRead (index : IgnoreIndex) (machine : Machine) (sources : List RuleSource)
    (line : Text) (directory : Option Text) : Prop :=
  ∃ source ∈ sources, ∃ files, ((source.files index).on machine).1 = .ok files ∧
    ∃ file ∈ files, ∃ content, (file.read.on machine).1 = .ok (some content) ∧
      line ∈ Text.lines content ∧ file.directory = directory

/-- A line that is read holds no line feed. -/
theorem IsRead.feed_not_mem {sources : List RuleSource} {line : Text} {directory : Option Text}
    (h : IsRead index machine sources line directory) : '\n' ∉ line := by
  obtain ⟨_, -, _, -, _, -, content, -, hline, -⟩ := h
  exact Text.feed_not_mem_of_mem_lines hline

/-- The rules of a file are those of its lines. -/
theorem IgnoreFile.mem_of_rules {file : IgnoreFile} {rules : List FilterRule}
    (h : (file.rules.on machine).1 = .ok rules) {rule : FilterRule} :
    rule ∈ rules ↔ ∃ content, (file.read.on machine).1 = .ok (some content) ∧
      ∃ line ∈ Text.lines content, rule ∈ rulesOfLine line file.directory := by
  rw [on_rules] at h
  cases hread : (file.read.on machine).1 with
  | error fault => simp [hread, Except.map] at h
  | ok content? =>
      rw [hread] at h
      cases h
      cases content? with
      | none => simp
      | some content => simp [rulesOfText]

/-- The rules of a source are those of its files, one by one. -/
theorem RuleSource.mem_of_rules (h : index.OnlyReads machine) {source : RuleSource}
    {rules : List FilterRule} (hrules : ((source.rules index).on machine).1 = .ok rules)
    {rule : FilterRule} :
    rule ∈ rules ↔ ∃ files, ((source.files index).on machine).1 = .ok files ∧
      ∃ file ∈ files, ∃ own, (file.rules.on machine).1 = .ok own ∧ rule ∈ own := by
  rw [source.on_rules h] at hrules
  cases hfiles : ((source.files index).on machine).1 with
  | error fault => simp [hfiles, Except.bind] at hrules
  | ok files =>
      cases hmapM : files.mapM fun file => (file.rules.on machine).1 with
      | error fault => simp [hfiles, hmapM, Except.bind, Except.map] at hrules
      | ok parts =>
          rw [hfiles] at hrules
          simp only [Except.bind, hmapM, Except.map, Except.ok.injEq] at hrules
          cases hrules
          simp only [List.mem_flatten, mem_of_mapM_eq_ok hmapM, Except.ok.injEq,
            exists_eq_left']
          grind

/-- **The rules of a compiled set** are those of the lines that are read. -/
theorem mem_added_iff (h : index.OnlyReads machine) {sources : List RuleSource} {set : FilterSet}
    (hset : compiled index machine sources = .ok set) {rule : FilterRule} :
    rule ∈ set.added ↔
      ∃ line directory, IsRead index machine sources line directory ∧
        rule ∈ rulesOfLine line directory := by
  rw [compiled_eq h] at hset
  cases hmapM : sources.mapM fun source => ((RuleSource.rules index source).on machine).1 with
  | error fault => simp [hmapM, Except.map] at hset
  | ok parts =>
      rw [hmapM] at hset
      cases hset
      show rule ∈ [] ++ parts.flatten ↔ _
      rw [List.nil_append, List.mem_flatten]
      constructor
      · rintro ⟨part, hpart, hrule⟩
        obtain ⟨source, hsource, hpart⟩ := (mem_of_mapM_eq_ok hmapM).mp hpart
        obtain ⟨files, hfiles, file, hfile, own, hown, hrule⟩ :=
          (RuleSource.mem_of_rules h hpart).mp hrule
        obtain ⟨content, hread, line, hline, hrule⟩ := (IgnoreFile.mem_of_rules hown).mp hrule
        exact ⟨line, file.directory, ⟨source, hsource, files, hfiles, file, hfile, content, hread,
          hline, rfl⟩, hrule⟩
      · rintro ⟨line, _, ⟨source, hsource, files, hfiles, file, hfile, content, hread, hline, rfl⟩,
          hrule⟩
        obtain ⟨part, hpart⟩ := exists_eq_ok_of_mapM_eq_ok hmapM source hsource
        have hown : (file.rules.on machine).1 = .ok (IgnoreFile.rulesOfText file.directory content) := by
          rw [IgnoreFile.on_rules, hread]
          rfl
        refine ⟨part, (mem_of_mapM_eq_ok hmapM).mpr ⟨source, hsource, hpart⟩, ?_⟩
        refine (RuleSource.mem_of_rules h hpart).mpr ⟨files, hfiles, file, hfile, _, hown, ?_⟩
        exact (IgnoreFile.mem_of_rules hown).mpr ⟨content, hread, line, hline, hrule⟩

/-! ## reading a compiled set back -/

/-- **The written set can be read back**: every written rule gives its rule.  The text
of the set is cut into its rules exactly where no line that is read breaks it, and
among the sets that are, the text determines the set. -/
theorem compile_text_splits_iff (h : index.OnlyReads machine) {sources : List RuleSource}
    {set : FilterSet} (hset : compiled index machine sources = .ok set) :
    set.lines.map FilterRule.ofLine? = set.rules.map some ∧
      (Text.pieces '\n' set.text = set.lines ++ [[]] ↔
        ∀ line directory, IsRead index machine sources line directory → ¬ Breaks line directory) ∧
      ∀ set' : FilterSet, Text.pieces '\n' set.text = set.lines ++ [[]] →
        Text.pieces '\n' set'.text = set'.lines ++ [[]] → set.text = set'.text → set = set' := by
  refine ⟨?_, ?_, ?_⟩
  · rw [FilterSet.lines, List.map_map]
    exact List.map_congr_left fun rule _ => rule.ofLine?_line
  · have hmetadata : '\n' ∉ FilterRule.metadata.pattern := by decide
    rw [FilterSet.pieces_text_iff, FilterSet.rules, List.forall_mem_cons]
    constructor
    · rintro ⟨-, hfeed⟩ line directory hread hbreaks
      obtain ⟨rule, hrule, hmem⟩ :=
        (exists_feed_rulesOfLine_iff directory hread.feed_not_mem).mpr hbreaks
      exact hfeed rule ((mem_added_iff h hset).mpr ⟨line, directory, hread, hrule⟩) hmem
    · intro hunbroken
      refine ⟨hmetadata, fun rule hrule hmem => ?_⟩
      obtain ⟨line, directory, hread, hrule⟩ := (mem_added_iff h hset).mp hrule
      exact hunbroken line directory hread
        ((exists_feed_rulesOfLine_iff directory hread.feed_not_mem).mp ⟨rule, hrule, hmem⟩)
  · intro set' hsplits hsplits' htext
    rw [htext, hsplits', List.append_cancel_right_eq] at hsplits
    exact FilterSet.eq_of_lines_eq hsplits.symm

/-- The set of an ignore file for object files and archives. -/
def objectSet : FilterSet := ⟨[⟨.excludes, "*.o"⟩, ⟨.excludes, "*.a"⟩]⟩

/-- A root with the line `*.[oa]`, which breaks nothing. -/
theorem compile_text_splits_objects :
    rootIndex.OnlyReads (ignoringMachine "*.[oa]\n") ∧
      compiled rootIndex (ignoringMachine "*.[oa]\n") [.root] = .ok objectSet ∧
      objectSet.lines.map FilterRule.ofLine? = objectSet.rules.map some ∧
      (Text.pieces '\n' objectSet.text = objectSet.lines ++ [[]] ↔
        ∀ line directory, IsRead rootIndex (ignoringMachine "*.[oa]\n") [.root] line directory →
          ¬ Breaks line directory) ∧
      ∀ set' : FilterSet, Text.pieces '\n' objectSet.text = objectSet.lines ++ [[]] →
        Text.pieces '\n' set'.text = set'.lines ++ [[]] → objectSet.text = set'.text →
          objectSet = set' := by
  have hreads : rootIndex.OnlyReads (ignoringMachine "*.[oa]\n") :=
    ⟨onlyReads_pure none, onlyReads_pure []⟩
  have hset : compiled rootIndex (ignoringMachine "*.[oa]\n") [.root] = .ok objectSet :=
    eq_ok_of_toOption (by decide +kernel)
  exact ⟨hreads, hset, compile_text_splits_iff hreads hset⟩

/-- A range that goes over the line feed, and a directory with one in its name: one rule
takes two lines. -/
theorem feed_splits_rule :
    (∃ set, compiled rootIndex (ignoringMachine "x[\t-\x0b]y\n") [.root] = .ok set ∧
      set.lines = ["- .git".toList, "- x\ty".toList, "- x\ny".toList, "- x\x0by".toList] ∧
      Text.pieces '\n' set.text ≠ set.lines ++ [[]]) ∧
    ∃ set, compiled trackingTree.ignoreIndex (trackingMachine "a\nb" "/out\n")
        [.subdirectories] = .ok set ∧
      set.lines = ["- .git".toList, "- /a\nb/out".toList] ∧
      Text.pieces '\n' set.text ≠ set.lines ++ [[]] := by
  refine ⟨⟨⟨[⟨.excludes, "x\ty"⟩, ⟨.excludes, "x\ny"⟩, ⟨.excludes, "x\x0by"⟩]⟩, ?_, ?_, ?_⟩,
    ⟨[⟨.excludes, "/a\nb/out"⟩]⟩, ?_, ?_, ?_⟩
  · exact eq_ok_of_toOption (by decide +kernel)
  · decide
  · decide
  · exact compiled_of_reads (reads_compile_trackingMachine (by decide +kernel)
      (by decide +kernel) (eq_ok_of_toOption (by decide +kernel)))
  · decide
  · decide

end TreeSync
