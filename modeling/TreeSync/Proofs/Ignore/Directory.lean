import TreeSync.Ignore.Line
import TreeSync.Proofs.Filter.Reading
import TreeSync.Proofs.Pattern.Expansion

/-!
# TreeSync.Proofs.Ignore.Directory

The rules of an ignore file stay inside its directory.

Every rule of a line in a directory is the directory, quoted, and a pattern that
begins with a slash (`rulesOfLine_below_directory`).  Two things carry that:

* every expansion keeps the slash in front (`head?_of_mem_patterns`);
* the quoted directory reads as itself in every pattern it is put in front of
  (`signsOf_under`), although what a backslash means there depends on the
  pattern as well.
-/

namespace TreeSync

namespace IgnoreRule

open Pattern

/-! ## the quoted directory -/

theorem isWildcard_eq_isWild : isWildcard = Sign.isWild := by
  funext c
  rw [Bool.eq_iff_iff]
  simp [isWildcard, Sign.isWild, or_assoc]

/-- Quoting neither adds nor removes wildcards. -/
theorem isWildPattern_quoteDirectory (doubled : Bool) (dir : Text) :
    isWildPattern (quoteDirectory doubled dir) = isWildPattern dir := by
  induction dir with
  | nil => rfl
  | cons c dir ih =>
      rw [isWildPattern, quoteDirectory, List.flatMap_cons, List.any_append]
      rw [isWildPattern, quoteDirectory] at ih
      rw [ih, isWildPattern, isWildPattern, List.any_cons, isWildcard_eq_isWild]
      by_cases hw : Sign.isWild c = true
      · simp [hw]
      · by_cases hc : c = '\\'
        · subst hc
          cases doubled <;> rfl
        · simp [hw, hc]

/-- A directory without wildcards is written as it is, unless it has backslashes
and they quote. -/
theorem quoteDirectory_of_not_isWild {doubled : Bool} {dir : Text}
    (h : isWildPattern dir = false) (hquote : doubled = true → '\\' ∉ dir) :
    quoteDirectory doubled dir = dir := by
  induction dir with
  | nil => rfl
  | cons c dir ih =>
      rw [isWildPattern, List.any_cons, Bool.or_eq_false_iff] at h
      have hc : ¬ isWildcard c = true := by rw [isWildcard_eq_isWild, h.1]; exact Bool.false_ne_true
      have hdoubled : ¬ (decide (c = '\\') && doubled) = true := by
        rw [Bool.and_eq_true, decide_eq_true_eq]
        intro hex
        obtain ⟨rfl, hd⟩ := hex
        exact hquote hd List.mem_cons_self
      have hrest : quoteDirectory doubled dir = dir :=
        ih h.2 fun hd hmem => hquote hd (List.mem_cons_of_mem c hmem)
      rw [quoteDirectory, List.flatMap_cons, if_neg hc, if_neg hdoubled, ← quoteDirectory, hrest]
      rfl

/-- Where backslashes quote, the quoted directory reads as itself, whatever
follows it. -/
theorem readQuoted_quoteDirectory_append (dir below : Text) :
    Sign.readQuoted (quoteDirectory true dir ++ below) =
      dir.map .literal ++ Sign.readQuoted below := by
  induction dir with
  | nil => rfl
  | cons c dir ih =>
      rw [quoteDirectory] at ih ⊢
      rw [List.flatMap_cons, List.append_assoc, List.map_cons, List.cons_append, ← ih]
      by_cases hw : isWildcard c = true
      · rw [if_pos hw]
        rfl
      · rw [if_neg hw]
        by_cases hc : c = '\\'
        · subst hc
          rfl
        · have hsign : Sign.plain c = .literal c := by
            apply Sign.plain_of_not_isWild
            rw [← isWildcard_eq_isWild]
            exact Bool.not_eq_true _ ▸ hw
          simp only [hc, decide_false, Bool.false_and, Bool.false_eq_true, if_false]
          rw [List.singleton_append, Sign.readQuoted_cons hc, hsign]

/-- **A directory in front of a pattern**: it reads as its own characters, none
of them a wildcard, and the pattern is read after it. -/
theorem signsOf_under (dir pattern : Text) :
    ∃ quoted, under (some dir) pattern = quoted ++ pattern ∧
      Sign.read (isWildPattern (under (some dir) pattern)) quoted = dir.map .literal ∧
      signsOf (under (some dir) pattern) =
        dir.map .literal ++ Sign.read (isWildPattern (under (some dir) pattern)) pattern := by
  have hdoubled : (dir.any isWildcard || pattern.any isWildcard) =
      isWildPattern (under (some dir) pattern) := by
    rw [under, isWildPattern, List.any_append, ← isWildPattern, ← isWildPattern,
      isWildPattern_quoteDirectory, isWildcard_eq_isWild]
    rfl
  have hunder : under (some dir) pattern =
      quoteDirectory (isWildPattern (under (some dir) pattern)) dir ++ pattern := by
    rw [← hdoubled]
    rfl
  refine ⟨_, hunder, ?_⟩
  rw [signsOf]
  cases hw : isWildPattern (under (some dir) pattern) with
  | true =>
      rw [hw] at hunder
      have hread := readQuoted_quoteDirectory_append dir []
      rw [List.append_nil, Sign.readQuoted, List.append_nil] at hread
      constructor
      · exact hread
      · rw [hunder]
        exact readQuoted_quoteDirectory_append dir pattern
  | false =>
      rw [hw] at hdoubled hunder
      have hdir : isWildPattern dir = false := by
        rw [Bool.or_eq_false_iff, isWildcard_eq_isWild] at hdoubled
        exact hdoubled.1
      rw [quoteDirectory_of_not_isWild hdir Bool.false_ne_true.elim] at hunder ⊢
      constructor
      · rfl
      · rw [hunder]
        simp [Sign.read]

/-! ## the slash after it -/

theorem directory_of_parse {line : Text} {dir : Option Text} {rule : IgnoreRule}
    (h : parse line dir = some rule) : rule.directory = dir.filter (· ≠ []) := by
  simp only [parse] at h
  split at h
  · contradiction
  · split at h
    · contradiction
    · rw [← Option.some.inj h]

/-- Below a directory the placed pattern begins with a slash. -/
theorem head?_relativePattern {rule : IgnoreRule} (h : rule.directory.isSome = true) :
    ∃ r, rule.relativePattern = '/' :: r := by
  unfold relativePattern
  split
  · next hc =>
      have hnone : rule.directory.isNone = false := by
        rw [← Option.not_isSome, h]
        rfl
      rw [hnone, Bool.false_or, decide_eq_true_eq] at hc
      exact List.head?_eq_some_iff.mp hc
  · split
    · exact ⟨_, rfl⟩
    · exact ⟨_, rfl⟩

/-- Every expansion of a line in a directory keeps the slash in front. -/
theorem head?_of_mem_patterns {rule : IgnoreRule} (h : rule.directory.isSome = true)
    {pattern : Text} (hp : pattern ∈ rule.patterns) : pattern.head? = some '/' := by
  obtain ⟨r, hr⟩ := head?_relativePattern h
  rw [patterns, hr, expandAnyDepth_cons (by decide), List.flatMap_map] at hp
  obtain ⟨variant, -, hgroup⟩ := List.mem_flatMap.mp (List.mem_filter.mp hp).1
  rw [expandGroups_cons (by decide)] at hgroup
  obtain ⟨expanded, -, rfl⟩ := List.mem_map.mp hgroup
  rfl

end IgnoreRule

/-! ## the rules of a line -/

open IgnoreRule in
/-- **Rules stay inside their directory**: every rule of a line in a directory is
the directory, quoted, and a pattern that begins with a slash; and as the rule is
read, the directory stands for exactly its own characters. -/
theorem rulesOfLine_below_directory (line dir : Text) (hdir : dir ≠ []) :
    ∀ rule ∈ rulesOfLine line (some dir),
      ∃ quoted below, rule.pattern = quoted ++ below ∧ below.head? = some '/' ∧
        Sign.read (isWildPattern rule.pattern) quoted = dir.map .literal ∧
        signsOf rule.pattern =
          dir.map .literal ++ Sign.read (isWildPattern rule.pattern) below := by
  intro rule hrule
  rw [rulesOfLine] at hrule
  cases hparse : parse line (some dir) with
  | none =>
      rw [hparse] at hrule
      contradiction
  | some parsed =>
      rw [hparse] at hrule
      have hdirectory : parsed.directory = some dir := by
        rw [directory_of_parse hparse, Option.filter_some, if_pos (decide_eq_true hdir)]
      obtain ⟨pattern, hpattern, rfl⟩ := List.mem_map.mp hrule
      have hhead := head?_of_mem_patterns (by rw [hdirectory]; rfl) hpattern
      rw [hdirectory]
      obtain ⟨quoted, hsplit, hquoted, hsigns⟩ := signsOf_under dir pattern
      exact ⟨quoted, pattern, hsplit, hhead, hquoted, hsigns⟩

/-- A directory named after a pattern: its brackets are quoted. -/
theorem rulesOfLine_below_bracketed :
    "/v[12]".toList ≠ [] ∧
      (⟨.excludes, "/v\\[12]/**/*.o".toList⟩ : FilterRule) ∈
        rulesOfLine "*.o".toList (some "/v[12]".toList) ∧
      ∃ quoted below, "/v\\[12]/**/*.o".toList = quoted ++ below ∧ below.head? = some '/' ∧
        Sign.read (isWildPattern "/v\\[12]/**/*.o".toList) quoted =
          "/v[12]".toList.map .literal ∧
        signsOf "/v\\[12]/**/*.o".toList =
          "/v[12]".toList.map .literal ++
            Sign.read (isWildPattern "/v\\[12]/**/*.o".toList) below :=
  ⟨by decide, by decide, rulesOfLine_below_directory "*.o".toList "/v[12]".toList (by decide)
    ⟨.excludes, "/v\\[12]/**/*.o".toList⟩ (by decide)⟩

end TreeSync
