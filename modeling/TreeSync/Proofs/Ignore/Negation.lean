import TreeSync.Proofs.Ignore.Placing

/-!
# TreeSync.Proofs.Ignore.Negation

A mark in front of a line turns its sense around, and changes nothing else.

```
line      without      with !
"*.o"     - *.o        + *.o
"\!x"     - !x         + !x
"a\ "     - "a "       + "a "
"  "      (none)       (none)
```

The mark is looked at after the end of the line is stripped and before any escape is
read, so it must not change what is stripped (`stripLine_mark_cons`), and what is left
behind it must not be taken for another mark or for a comment.
-/

namespace TreeSync

namespace IgnoreRule

/-- The rule with the same pattern that takes paths back. -/
def negated (rule : IgnoreRule) : IgnoreRule := { rule with sense := .includes }

/-- Nothing is left of a line of blanks. -/
theorem stripLine_of_blank {line : Text} (h : Text.trimEnd line = []) : stripLine line = [] := by
  simpa using stripLine_append_blank (w := []) (by simp) (by simp) h

/-- A mark in front stays, and the line behind it is stripped as without it. -/
theorem stripLine_mark_cons (line : Text) : stripLine ('!' :: line) = '!' :: stripLine line := by
  by_cases hblank : Text.trimEnd line = []
  · rw [stripLine_of_blank hblank]
    exact stripLine_append_blank (List.forall_mem_singleton.mpr (by decide)) (by decide) hblank
  · show stripLine (['!'] ++ line) = ['!'] ++ stripLine line
    exact stripLine_append (by decide) hblank

section
variable {line : Text} (hmark : line.head? ≠ some '!') (hcomment : line.head? ≠ some '#')
  (directory : Option Text)
include hmark

/-- A line without a mark excludes. -/
theorem sense_of_parse {rule : IgnoreRule} (h : parse line directory = some rule) :
    rule.sense = .excludes := by
  have hstripped : (stripLine line).head? ≠ some '!' :=
    mt (head?_of_head?_stripLine (by decide)) hmark
  have hsense : readSense (stripLine line) = (.excludes, stripLine line) :=
    readSense_lineMark_append .excludes hstripped
  simp only [parse, hsense] at h
  split at h
  · contradiction
  · split at h
    · contradiction
    · cases h
      rfl

include hcomment

/-- **Reading a line behind a mark** gives the rule without it, of the other sense. -/
theorem parse_mark_cons : parse ('!' :: line) directory = (parse line directory).map negated := by
  have hstripped : (stripLine line).head? ≠ some '!' :=
    mt (head?_of_head?_stripLine (by decide)) hmark
  have hsays : (stripLine line).head? ≠ some '#' :=
    mt (head?_of_head?_stripLine (by decide)) hcomment
  have hsense : readSense (stripLine line) = (.excludes, stripLine line) :=
    readSense_lineMark_append .excludes hstripped
  have hnegated : readSense ('!' :: stripLine line) = (.includes, stripLine line) := rfl
  simp only [parse, stripLine_mark_cons, hsense, hnegated]
  by_cases hempty : stripLine line = []
  · -- Nothing is behind the mark, and nothing names nothing.
    rw [hempty]
    rfl
  · by_cases hname : namesNothing (halveBackslashes (dropQuote (stripLine line))) = true
    · simp [hempty, hsays, hname]
    · simp [hempty, hsays, hname, negated]

end

/-- The patterns of a rule do not depend on its sense. -/
theorem rules_negated (rule : IgnoreRule) :
    rule.negated.rules =
      rule.rules.map fun filterRule => { filterRule with sense := .includes } := by
  have hpatterns : rule.negated.patterns = rule.patterns := rfl
  rw [rules, rules, hpatterns, List.map_map]
  rfl

end IgnoreRule

open IgnoreRule in
/-- **Negation only flips the sense.**  A line that begins with neither mark has rules
that exclude, and with `!` in front of it the same patterns, in the same order, include. -/
theorem rulesOfLine_mark_cons {line : Text} (hmark : line.head? ≠ some '!')
    (hcomment : line.head? ≠ some '#') (directory : Option Text) :
    (∀ rule ∈ rulesOfLine line directory, rule.sense = .excludes) ∧
      rulesOfLine ('!' :: line) directory =
        (rulesOfLine line directory).map fun rule => { rule with sense := .includes } := by
  rw [rulesOfLine, rulesOfLine, parse_mark_cons hmark hcomment]
  cases hparse : parse line directory with
  | none => simp
  | some rule =>
      refine ⟨fun filterRule hmem => ?_, rules_negated rule⟩
      obtain ⟨pattern, -, rfl⟩ := List.mem_map.mp hmem
      exact sense_of_parse hmark directory hparse

/-- A quoted mark, a group and a quoted space at the end, in a directory. -/
theorem rulesOfLine_mark_cons_quoted :
    let line := "\\!x[ab]\\ ".toList
    line.head? ≠ some '!' ∧ line.head? ≠ some '#' ∧
      rulesOfLine line (some "/sub".toList) =
        [⟨.excludes, "/sub/**/!xa "⟩, ⟨.excludes, "/sub/**/!xb "⟩,
         ⟨.excludes, "/sub/!xa "⟩, ⟨.excludes, "/sub/!xb "⟩] ∧
      rulesOfLine ('!' :: line) (some "/sub".toList) =
        [⟨.includes, "/sub/**/!xa "⟩, ⟨.includes, "/sub/**/!xb "⟩,
         ⟨.includes, "/sub/!xa "⟩, ⟨.includes, "/sub/!xb "⟩] := by
  intro line
  have hmark : line.head? ≠ some '!' := by decide
  have hcomment : line.head? ≠ some '#' := by decide
  have hrules : rulesOfLine line (some "/sub".toList) =
      [⟨.excludes, "/sub/**/!xa "⟩, ⟨.excludes, "/sub/**/!xb "⟩,
       ⟨.excludes, "/sub/!xa "⟩, ⟨.excludes, "/sub/!xb "⟩] := by decide
  refine ⟨hmark, hcomment, hrules, ?_⟩
  rw [(rulesOfLine_mark_cons hmark hcomment (some "/sub".toList)).2, hrules]
  rfl

end TreeSync
