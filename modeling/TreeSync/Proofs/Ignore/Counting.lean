import TreeSync.Proofs.Ignore.Directory
import TreeSync.Proofs.Ignore.Escaping
import TreeSync.Proofs.Pattern.Combinations
import TreeSync.Proofs.Pattern.Tokens

/-!
# TreeSync.Proofs.Ignore.Counting

How many rules a line has, and which lines have none.

A line says nothing where it is empty or a comment once its blanks are stripped, or where
its pattern has slashes alone left without its tokens (`SaysNothing`).  That is seen from
the pattern as it stands, while a rule would be empty only after some of its tokens are
removed and a slash may have been put in front.  The two agree:

* placing a pattern in a directory keeps what it names (`namesNothing_relativePattern`);
* each variant has all that is left without the tokens (`withoutAnyDepth_sublist`), so
  none of a pattern that names something is empty, and neither is what its groups are
  spelled out to (`patterns_eq_flatMap`).

So a line that says something has as many rules as the expansions give
(`rulesOfLine_eq_nil_iff`).
-/

namespace TreeSync

open Pattern

namespace Pattern

/-! ## what every variant has -/

/-- A character that begins no token stays. -/
theorem withoutAnyDepth_cons_of_not_token {c : Char} {t : Text}
    (h : ∀ r, c = '*' → t = '*' :: '/' :: r → False) :
    withoutAnyDepth (c :: t) = c :: withoutAnyDepth t := by
  rw [withoutAnyDepth]
  exact h

/-- A text without stars stays in front. -/
theorem withoutAnyDepth_append {front : Text} (h : '*' ∉ front) (t : Text) :
    withoutAnyDepth (front ++ t) = front ++ withoutAnyDepth t := by
  induction front with
  | nil => rfl
  | cons c front ih =>
      rw [List.mem_cons, not_or] at h
      rw [List.cons_append, withoutAnyDepth_cons_of_not_token fun _ hc _ => h.1 hc.symm, ih h.2,
        List.cons_append]

/-- A variant has all that is left of the pattern without its tokens. -/
theorem withoutAnyDepth_sublist_of_mem_spell {pattern variant : Text}
    (h : variant ∈ (Cuts.ofText pattern).spell) : (withoutAnyDepth pattern).Sublist variant := by
  induction pattern using withoutAnyDepth.induct generalizing variant with
  | case1 => simp [withoutAnyDepth]
  | case2 r ih =>
      change variant ∈ (Cuts.ofText (anyDepth ++ r)).spell at h
      rw [Cuts.spell_anyDepth_append, List.mem_append] at h
      obtain h | h := h
      · obtain ⟨tail, htail, rfl⟩ := List.mem_map.mp h
        exact (ih htail).trans (List.sublist_append_right anyDepth tail)
      · exact ih h
  | case3 c r hc ih =>
      rw [Cuts.ofText_cons_of_not_token hc, Cuts.spell_prepend] at h
      obtain ⟨tail, htail, rfl⟩ := List.mem_map.mp h
      rw [withoutAnyDepth_cons_of_not_token hc]
      exact (ih htail).cons_cons c

/-- The pattern without its tokens is part of every variant. -/
theorem withoutAnyDepth_sublist {pattern variant : Text} (h : variant ∈ expandAnyDepth pattern) :
    (withoutAnyDepth pattern).Sublist variant := by
  rw [expandAnyDepth] at h
  split at h
  · exact withoutAnyDepth_sublist_of_mem_spell h
  · obtain rfl := List.mem_singleton.mp h
    exact sublist_of_mem_spell (withoutAnyDepth_mem_spell variant)

/-- Every variant of the groups has a character for each part. -/
theorem length_of_mem_expandGroups {pattern t : Text} (h : t ∈ expandGroups pattern) :
    t.length = (Part.ofText pattern).length := by
  rw [expandGroups] at h
  split at h
  · exact (Part.mem_combinations_iff.mp h).length_eq.symm
  · simp [List.mem_singleton.mp h]

/-- Groups are never spelled out to nothing. -/
theorem ne_nil_of_mem_expandGroups {pattern t : Text} (hne : pattern ≠ [])
    (h : t ∈ expandGroups pattern) : t ≠ [] := by
  rintro rfl
  have hparts : Part.ofText pattern = [] := by
    simpa using (length_of_mem_expandGroups h).symm
  have htext := Part.flatMap_text_ofText pattern
  rw [hparts] at htext
  exact hne htext.symm

end Pattern

namespace IgnoreRule

/-! ## what a placed pattern names -/

/-- A front without stars names nothing if it is slashes only. -/
theorem namesNothing_append {front : Text} (h : '*' ∉ front) (t : Text) :
    namesNothing (front ++ t) = (front.all (· == '/') && namesNothing t) := by
  rw [namesNothing, withoutAnyDepth_append h, List.all_append, namesNothing]

theorem namesNothing_slash_cons (t : Text) : namesNothing ('/' :: t) = namesNothing t :=
  namesNothing_append (by decide : '*' ∉ ['/']) t

theorem namesNothing_anyDepth_append (t : Text) :
    namesNothing (anyDepth ++ t) = namesNothing t := rfl

/-- A pattern names something wherever it is placed. -/
theorem namesNothing_relativePattern (rule : IgnoreRule) :
    namesNothing rule.relativePattern = namesNothing rule.pattern := by
  unfold relativePattern
  split
  · rfl
  · split
    · rw [namesNothing_slash_cons]
    · rw [namesNothing_slash_cons, namesNothing_anyDepth_append]

/-- A variant of a pattern that names something is not empty. -/
theorem ne_nil_of_mem_expandAnyDepth {pattern variant : Text}
    (hname : namesNothing pattern = false) (h : variant ∈ expandAnyDepth pattern) :
    variant ≠ [] := by
  rintro rfl
  have hempty : withoutAnyDepth pattern = [] := List.sublist_nil.mp (withoutAnyDepth_sublist h)
  rw [namesNothing, hempty] at hname
  contradiction

/-- **No pattern is empty**: leaving out the empty ones leaves out none. -/
theorem patterns_eq_flatMap {rule : IgnoreRule} (hname : namesNothing rule.pattern = false) :
    rule.patterns = (expandAnyDepth rule.relativePattern).flatMap expandGroups := by
  rw [patterns, List.filter_eq_self]
  intro t ht
  obtain ⟨variant, hvariant, ht⟩ := List.mem_flatMap.mp ht
  rw [← namesNothing_relativePattern] at hname
  simpa using ne_nil_of_mem_expandGroups (ne_nil_of_mem_expandAnyDepth hname hvariant) ht

/-! ## the lines that say nothing -/

/-- Without its blanks a line is empty or a comment, or slashes alone are left of its
unescaped pattern when its tokens are removed. -/
def SaysNothing (line : Text) : Prop :=
  stripLine line = [] ∨ (stripLine line).head? = some '#' ∨
    Text.dropAroundWhile (· == '/')
      (withoutAnyDepth (halveBackslashes (dropQuote (readSense (stripLine line)).2))) = []

instance : DecidablePred SaysNothing := fun _ => inferInstanceAs (Decidable (_ ∨ _ ∨ _))

/-- A pattern names nothing if nothing but slashes is left without its tokens. -/
theorem namesNothing_iff {pattern : Text} :
    namesNothing pattern = true ↔
      Text.dropAroundWhile (· == '/') (withoutAnyDepth pattern) = [] := by
  rw [← not_iff_not, Bool.not_eq_true, namesNothing_eq_false_iff]

/-- **A line without a rule** is one that says nothing. -/
theorem parse_eq_none_iff (line : Text) (directory : Option Text) :
    parse line directory = none ↔ SaysNothing line := by
  rw [SaysNothing, ← namesNothing_iff, ← or_assoc]
  simp only [parse]
  split
  · next h => simp_all
  · next h => simp_all

/-- A line with a rule names something. -/
theorem namesNothing_of_parse {line : Text} {directory : Option Text} {rule : IgnoreRule}
    (h : parse line directory = some rule) : namesNothing rule.pattern = false := by
  simp only [parse] at h
  split at h
  · contradiction
  · split at h
    · contradiction
    · next hname =>
        cases h
        exact Bool.not_eq_true _ ▸ hname

/-! ## the number of rules -/

theorem under_ne_nil (directory : Option Text) {pattern : Text} (h : pattern ≠ []) :
    under directory pattern ≠ [] := by
  cases directory <;> simp [under, h]

section
variable {rule : IgnoreRule} (hname : namesNothing rule.pattern = false)
include hname

/-- A line has as many rules as its variants have spellings. -/
theorem length_rules : rule.rules.length =
    ((expandAnyDepth rule.relativePattern).map fun variant => (expandGroups variant).length).sum := by
  rw [rules, List.length_map, patterns_eq_flatMap hname, List.length_flatMap]

/-- A line that says something has a rule. -/
theorem rules_ne_nil : rule.rules ≠ [] := by
  obtain ⟨variant, hvariant⟩ := List.exists_mem_of_ne_nil _ (expandAnyDepth_ne_nil rule.relativePattern)
  obtain ⟨t, ht⟩ := List.exists_mem_of_ne_nil _ (expandGroups_ne_nil variant)
  have hmem : t ∈ rule.patterns := by
    rw [patterns_eq_flatMap hname]
    exact List.mem_flatMap.mpr ⟨variant, hvariant, ht⟩
  simpa [rules] using List.ne_nil_of_mem hmem

/-- Each of the two expansions keeps to its limit. -/
theorem length_rules_le : rule.rules.length ≤ 2 ^ 20 := by
  rw [length_rules hname]
  calc
    ((expandAnyDepth rule.relativePattern).map fun variant => (expandGroups variant).length).sum
      ≤ (expandAnyDepth rule.relativePattern).length * maxVariants := by
        have hsum := List.sum_le_card_nsmul
          ((expandAnyDepth rule.relativePattern).map fun variant => (expandGroups variant).length)
          maxVariants (by simpa using fun variant _ => length_expandGroups_le variant)
        simpa using hsum
    _ ≤ maxVariants * maxVariants := Nat.mul_le_mul_right _ (length_expandAnyDepth_le _)
    _ = 2 ^ 20 := by decide

end

/-- No rule has an empty pattern. -/
theorem ne_nil_of_mem_rules {rule : IgnoreRule} {filterRule : FilterRule}
    (h : filterRule ∈ rule.rules) : filterRule.pattern ≠ [] := by
  obtain ⟨pattern, hpattern, rfl⟩ := List.mem_map.mp h
  exact under_ne_nil _ (by simpa using (List.mem_filter.mp hpattern).2)

end IgnoreRule

open IgnoreRule in
/-- **A line has no rule exactly where it says nothing.**  Every other line has as many
rules as its variants have combinations, at least one and at most `2 ^ 20`, and none of
them is empty. -/
theorem rulesOfLine_eq_nil_iff (line : Text) (directory : Option Text) :
    (rulesOfLine line directory = [] ↔ SaysNothing line) ∧
      (¬ SaysNothing line → ∃ rule, parse line directory = some rule ∧
        (rulesOfLine line directory).length =
          ((expandAnyDepth rule.relativePattern).map fun variant =>
            (expandGroups variant).length).sum ∧
        1 ≤ (rulesOfLine line directory).length ∧
        (rulesOfLine line directory).length ≤ 2 ^ 20 ∧
        ∀ filterRule ∈ rulesOfLine line directory, filterRule.pattern ≠ []) := by
  rw [← parse_eq_none_iff line directory, rulesOfLine]
  cases hparse : parse line directory with
  | none => simp
  | some rule =>
      have hname := namesNothing_of_parse hparse
      have hrules := rules_ne_nil hname
      constructor
      · simpa using hrules
      · intro _
        exact ⟨rule, rfl, length_rules hname, List.length_pos_of_ne_nil hrules,
          length_rules_le hname, fun _ => ne_nil_of_mem_rules⟩

/-- A token at the end and a group, in a directory. -/
theorem rulesOfLine_eq_nil_iff_objects :
    ¬ IgnoreRule.SaysNothing "!*.[oa]/**/ " ∧
      ∃ rule, IgnoreRule.parse "!*.[oa]/**/ " (some "/sub".toList) = some rule ∧
        (rulesOfLine "!*.[oa]/**/ " (some "/sub".toList)).length =
          ((expandAnyDepth rule.relativePattern).map fun variant =>
            (expandGroups variant).length).sum ∧
        (rulesOfLine "!*.[oa]/**/ " (some "/sub".toList)).length = 8 := by
  have hspeaks : ¬ IgnoreRule.SaysNothing "!*.[oa]/**/ " := by decide
  obtain ⟨rule, hparse, hlength, -⟩ :=
    (rulesOfLine_eq_nil_iff "!*.[oa]/**/ " (some "/sub".toList)).2 hspeaks
  exact ⟨hspeaks, rule, hparse, hlength, by decide⟩

end TreeSync
