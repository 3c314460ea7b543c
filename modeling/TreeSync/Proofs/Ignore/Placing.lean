import TreeSync.Proofs.Ignore.Counting

/-!
# TreeSync.Proofs.Ignore.Placing

A line in a directory, and the line at the root with the directory spelled out.

```
body            in /dir  =  /dir ++ joint body ++ body   at the root
joint "/out"    = ""        (the directory is followed directly)
joint "**/out"  = "/"       (the token already passes over names)
joint "out"     = "/**/"    (at any depth below the directory)
```

One way puts the directory in front last, the other way puts it into the line before
anything is read.  So every step from the line to its rules has to leave a text in front
as it is: stripping the end (`stripLine_append`), reading the escapes
(`halveBackslashes_append`), and both expansions with their limits.  What stands between
directory and pattern is chosen by the pattern in the one way and by the line in the other;
reading a line does not change how it begins (`joint_pattern`).
-/

namespace TreeSync

open Pattern

namespace Text

/-! ## the end of a text behind another -/

/-- What is not all dropped keeps the front. -/
theorem dropEndWhile_append_of_ne_nil {p : Char → Bool} (a : Text) {b : Text}
    (h : dropEndWhile p b ≠ []) : dropEndWhile p (a ++ b) = a ++ dropEndWhile p b := by
  have hne : (b.reverse.dropWhile p).isEmpty = false := by
    simpa [dropEndWhile] using h
  simp [dropEndWhile, List.dropWhile_append, hne]

/-- Counting from the end does not go into a front without that character. -/
theorem countEndWhile_append_of_not_mem {c : Char} {a : Text} (h : c ∉ a) (b : Text) :
    countEndWhile (· == c) (a ++ b) = countEndWhile (· == c) b := by
  have hnone : a.reverse.takeWhile (· == c) = [] := by
    cases hreverse : a.reverse with
    | nil => rfl
    | cons d r =>
        have hd : d ∈ a := List.mem_reverse.mp (hreverse ▸ List.mem_cons_self)
        have hne : d ≠ c := fun heq => h (heq ▸ hd)
        simp [hne]
  rw [countEndWhile, countEndWhile, List.reverse_append, List.takeWhile_append, hnone]
  split <;> simp_all

/-- Text that holds no blanks has none at its end. -/
theorem trimEnd_of_not_blank {t : Text} (h : ∀ c ∈ t, isBlank c = false) : trimEnd t = t := by
  obtain rfl | ⟨front, c, rfl⟩ := List.eq_nil_or_concat t
  · rfl
  · rw [List.concat_eq_append] at h ⊢
    exact dropEndWhile_concat (h c (by simp)) front

theorem dropEndWhile_eq_nil_iff {p : Char → Bool} {t : Text} :
    dropEndWhile p t = [] ↔ ∀ c ∈ t, p c = true := by
  simp [dropEndWhile]

end Text

namespace IgnoreRule

/-! ## reading behind a text -/

/-- **A text in front is not stripped**, and what is behind it is stripped as without. -/
theorem stripLine_append {front body : Text} (hquote : '\\' ∉ front)
    (hbody : Text.trimEnd body ≠ []) : stripLine (front ++ body) = front ++ stripLine body := by
  have hkept : Text.trimEnd (front ++ body) = front ++ Text.trimEnd body :=
    Text.dropEndWhile_append_of_ne_nil front hbody
  have hremoved : (front ++ body).drop (front ++ Text.trimEnd body).length =
      body.drop (Text.trimEnd body).length := by
    rw [List.length_append, List.drop_append]
    simp
  simp only [stripLine, hkept, hremoved, Text.countEndWhile_append_of_not_mem hquote,
    List.dropLast_append_of_ne_nil hbody]
  split <;> simp

/-- A front without backslashes stays. -/
theorem halveBackslashes_append {front : Text} (h : '\\' ∉ front) (t : Text) :
    halveBackslashes (front ++ t) = front ++ halveBackslashes t := by
  induction front with
  | nil => rfl
  | cons c front ih =>
      rw [List.mem_cons, not_or] at h
      rw [List.cons_append, halveBackslashes_cons (Ne.symm h.1), ih h.2, List.cons_append]

/-- A line with something besides blanks is not stripped to nothing. -/
theorem stripLine_ne_nil {t : Text} (h : Text.trimEnd t ≠ []) : stripLine t ≠ [] := by
  rw [stripLine]
  split <;> simp [h]

/-! ## how a line begins -/

section
variable {w t : Text} (hblank : ∀ c ∈ w, Text.isBlank c = false)
include hblank

/-- Blanks behind a text are all stripped. -/
theorem stripLine_append_blank (hquote : '\\' ∉ w) (ht : Text.trimEnd t = []) :
    stripLine (w ++ t) = w := by
  have hkept : Text.trimEnd (w ++ t) = w := by
    rw [Text.trimEnd, Text.dropEndWhile_append (Text.dropEndWhile_eq_nil_iff.mp ht)]
    exact Text.trimEnd_of_not_blank hblank
  have hend : Text.countEndWhile (· == '\\') w = 0 := by
    simpa [Text.countEndWhile] using Text.countEndWhile_append_of_not_mem hquote []
  simp [stripLine, hkept, hend]

/-- Stripping takes from the end only. -/
theorem prefix_of_prefix_stripLine (h : w <+: stripLine t) : w <+: t := by
  have hkept : Text.trimEnd t <+: t := Text.dropEndWhile_prefix Text.isBlank t
  rw [stripLine] at h
  split at h
  · -- The space that was quoted ends the line, so it is not in what begins it.
    obtain hwhole | hrest := List.prefix_concat_iff.mp h
    · exact absurd (hblank ' ' (by simp [hwhole])) (by decide)
    · exact hrest.trans ((List.dropLast_prefix _).trans hkept)
  · exact h.trans hkept

/-- A front without a backslash that a line has is not stripped off. -/
theorem prefix_stripLine (hquote : '\\' ∉ w) (h : w <+: t) : w <+: stripLine t := by
  obtain ⟨rest, rfl⟩ := h
  by_cases hrest : Text.trimEnd rest = []
  · simp [stripLine_append_blank hblank hquote hrest]
  · rw [stripLine_append hquote hrest]
    exact List.prefix_append w _

end

/-- Halving backslashes neither adds nor takes a front without any. -/
theorem prefix_halveBackslashes_iff {w t : Text} (h : '\\' ∉ w) :
    w <+: halveBackslashes t ↔ w <+: t := by
  induction w generalizing t with
  | nil => simp
  | cons c w ih =>
      rw [List.mem_cons, not_or] at h
      fun_cases halveBackslashes t with
      | case1 => simp
      | case2 r => simp [List.cons_prefix_cons, Ne.symm h.1]
      | case3 d r => simp [List.cons_prefix_cons, ih h.2]

theorem singleton_prefix_iff {c : Char} {t : Text} : [c] <+: t ↔ t.head? = some c := by
  cases t <;> simp [List.cons_prefix_cons, eq_comm]

/-- What a stripped line begins with, the line begins with. -/
theorem head?_of_head?_stripLine {c : Char} {t : Text} (hc : Text.isBlank c = false)
    (h : (stripLine t).head? = some c) : t.head? = some c := by
  rw [← singleton_prefix_iff] at h ⊢
  exact prefix_of_prefix_stripLine (by simpa using hc) h

/-- The pattern of a line without quotes in front begins as the line does. -/
theorem prefix_pattern_iff {w t : Text} (hblank : ∀ c ∈ w, Text.isBlank c = false)
    (hquote : '\\' ∉ w) : w <+: halveBackslashes (stripLine t) ↔ w <+: t := by
  rw [prefix_halveBackslashes_iff hquote]
  exact ⟨prefix_of_prefix_stripLine hblank, prefix_stripLine hblank hquote⟩

/-! ## lines that begin with no mark -/

/-- A text begins with nothing that says something about a line. -/
def Unmarked (body : Text) : Prop :=
  body.head? ≠ some '!' ∧ body.head? ≠ some '#' ∧ body.head? ≠ some '\\'

instance : DecidablePred Unmarked := fun _ => inferInstanceAs (Decidable (_ ∧ _ ∧ _))

/-- Without a backslash in front there is no quote to drop. -/
theorem dropQuote_of_head?_ne {t : Text} (h : t.head? ≠ some '\\') : dropQuote t = t := by
  unfold dropQuote
  split <;> simp_all

/-- **Behind its mark a line is read** as it stands, but for its end and its pairs of
backslashes. -/
theorem parse_lineMark_append (sense : Sense) {body : Text} (hbody : Text.trimEnd body ≠ [])
    (hfront : Unmarked body) (directory : Option Text) :
    parse (sense.lineMark ++ body) directory =
      if namesNothing (halveBackslashes (stripLine body)) then none
      else some ⟨sense, halveBackslashes (stripLine body), directory.filter (· ≠ [])⟩ := by
  have hne : stripLine body ≠ [] := stripLine_ne_nil hbody
  have hmark : (stripLine body).head? ≠ some '!' :=
    fun h => hfront.1 (head?_of_head?_stripLine (by decide) h)
  have hcomment : (stripLine body).head? ≠ some '#' :=
    fun h => hfront.2.1 (head?_of_head?_stripLine (by decide) h)
  have hquote : (stripLine body).head? ≠ some '\\' :=
    fun h => hfront.2.2 (head?_of_head?_stripLine (by decide) h)
  have hstrip : stripLine (sense.lineMark ++ body) = sense.lineMark ++ stripLine body :=
    stripLine_append (by cases sense <;> decide) hbody
  have hsays : ¬ (decide (sense.lineMark ++ stripLine body = []) ||
      decide ((sense.lineMark ++ stripLine body).head? = some '#')) = true := by
    cases sense <;> simp [Sense.lineMark, hne, hcomment]
  simp only [parse, hstrip, if_neg hsays, readSense_lineMark_append sense hmark,
    dropQuote_of_head?_ne hquote]

/-- A line of blanks behind its mark says nothing. -/
theorem trimEnd_ne_nil_of_parse {sense : Sense} {body : Text} {directory : Option Text}
    (h : (parse (sense.lineMark ++ body) directory).isSome = true) : Text.trimEnd body ≠ [] := by
  intro hblank
  have hmark : ∀ c ∈ sense.lineMark, Text.isBlank c = false := by
    cases sense with
    | includes => exact List.forall_mem_singleton.mpr (by decide)
    | excludes => simp [Sense.lineMark]
  have hstrip : stripLine (sense.lineMark ++ body) = sense.lineMark :=
    stripLine_append_blank hmark (by cases sense <;> decide) hblank
  have hnone : parse (sense.lineMark ++ body) directory = none := by
    rw [parse_eq_none_iff, SaysNothing, hstrip]
    cases sense <;> decide
  rw [hnone] at h
  contradiction

/-! ## between the directory and the pattern -/

/-- What is put between a directory and a pattern below it: nothing before a slash, and
else a slash, with a token behind it unless the pattern begins with one. -/
def joint (pattern : Text) : Text :=
  if pattern.head? = some '/' then []
  else if anyDepth.isPrefixOf pattern then ['/']
  else '/' :: anyDepth

/-- In a directory a pattern is put behind what joins it to the directory. -/
theorem relativePattern_eq_joint {rule : IgnoreRule} (h : rule.directory.isSome = true) :
    rule.relativePattern = joint rule.pattern ++ rule.pattern := by
  have hnone : rule.directory.isNone = false := by simpa using h
  unfold relativePattern joint
  rw [hnone]
  split <;> split <;> simp_all

theorem backslash_not_mem_joint (pattern : Text) : '\\' ∉ joint pattern := by
  unfold joint
  split
  · simp
  · split <;> decide

/-- Joining a pattern to a directory does not make it name anything. -/
theorem namesNothing_joint_append (pattern : Text) :
    namesNothing (joint pattern ++ pattern) = namesNothing pattern := by
  unfold joint
  split
  · rfl
  · split <;> exact namesNothing_slash_cons _

theorem isBlank_of_mem_anyDepth {c : Char} (h : c ∈ anyDepth) : Text.isBlank c = false := by
  simp only [anyDepth, List.mem_cons, List.not_mem_nil, or_false] at h
  obtain rfl | rfl | rfl := h <;> decide

/-- **Reading does not change how a line is placed.** -/
theorem joint_pattern (body : Text) : joint (halveBackslashes (stripLine body)) = joint body := by
  have hslash : (halveBackslashes (stripLine body)).head? = some '/' ↔ body.head? = some '/' := by
    rw [← singleton_prefix_iff, ← singleton_prefix_iff]
    exact prefix_pattern_iff (List.forall_mem_singleton.mpr (by decide)) (by decide)
  have htoken : anyDepth.isPrefixOf (halveBackslashes (stripLine body)) = true ↔
      anyDepth.isPrefixOf body = true := by
    rw [List.isPrefixOf_iff_prefix, List.isPrefixOf_iff_prefix]
    exact prefix_pattern_iff (fun _ => isBlank_of_mem_anyDepth) (by decide)
  simp only [joint, hslash, htoken]

/-! ## the rules -/

section
variable {directory : Text}
  (hplain : ∀ c ∈ directory, isWildcard c = false ∧ c ≠ '\\')
include hplain

/-- A directory without wildcards and backslashes is put in front as it is. -/
theorem under_of_plain (pattern : Text) : under (some directory) pattern = directory ++ pattern := by
  have hwild : isWildPattern directory = false := by
    rw [isWildPattern, List.any_eq_false, ← isWildcard_eq_isWild]
    exact fun c hc => by simp [(hplain c hc).1]
  rw [under, quoteDirectory_of_not_isWild hwild fun _ hmem => (hplain _ hmem).2 rfl]

theorem star_not_mem_of_plain : '*' ∉ directory :=
  fun hmem => absurd (hplain _ hmem).1 (by decide)

/-- What a pattern names is named behind a directory too. -/
theorem namesNothing_joined {pattern : Text} (hname : namesNothing pattern = false) :
    namesNothing (directory ++ (joint pattern ++ pattern)) = false := by
  rw [namesNothing_append (star_not_mem_of_plain hplain), namesNothing_joint_append, hname,
    Bool.and_false]

/-- **The expansions leave a directory in front**, with all their limits. -/
theorem rules_eq_rules_joined (sense : Sense) {pattern : Text}
    (hname : namesNothing pattern = false) :
    rules ⟨sense, pattern, some directory⟩ =
      rules ⟨sense, directory ++ (joint pattern ++ pattern), none⟩ := by
  have hopening : '[' ∉ directory := fun hmem => absurd (hplain _ hmem).1 (by decide)
  have hbelow : patterns ⟨sense, pattern, some directory⟩ =
      (expandAnyDepth (joint pattern ++ pattern)).flatMap expandGroups := by
    rw [patterns_eq_flatMap hname, relativePattern_eq_joint rfl]
  have hroot : patterns ⟨sense, directory ++ (joint pattern ++ pattern), none⟩ =
      ((expandAnyDepth (joint pattern ++ pattern)).flatMap expandGroups).map (directory ++ ·) := by
    have hunplaced : relativePattern ⟨sense, directory ++ (joint pattern ++ pattern), none⟩ =
        directory ++ (joint pattern ++ pattern) := rfl
    rw [patterns_eq_flatMap (namesNothing_joined hplain hname), hunplaced,
      expandAnyDepth_append (star_not_mem_of_plain hplain), List.flatMap_map, List.map_flatMap]
    simp only [expandGroups_append hopening]
  rw [rules, rules, hbelow, hroot, List.map_map]
  simp only [under_of_plain hplain]
  rfl

end

end IgnoreRule

open IgnoreRule in
/-- **A line in a directory means the line with the directory spelled out**: the same
rules in the same order, whichever limit is exceeded. -/
theorem rulesOfLine_eq_rulesOfLine_joined (sense : Sense) {directory body : Text}
    (hslash : directory.head? = some '/')
    (hplain : ∀ c ∈ directory, isWildcard c = false ∧ c ≠ '\\') (hbody : Unmarked body)
    (hparse : (parse (sense.lineMark ++ body) (some directory)).isSome = true) :
    rulesOfLine (sense.lineMark ++ body) (some directory) =
      rulesOfLine (sense.lineMark ++ (directory ++ (joint body ++ body))) none := by
  have hend : Text.trimEnd body ≠ [] := trimEnd_ne_nil_of_parse hparse
  have hquote : '\\' ∉ directory ++ joint body := by
    rw [List.mem_append, not_or]
    exact ⟨fun hmem => (hplain _ hmem).2 rfl, backslash_not_mem_joint body⟩
  have hfilter : (some directory).filter (· ≠ []) = some directory := by
    have hne : directory ≠ [] := by
      rintro rfl
      contradiction
    rw [Option.filter_some, if_pos (decide_eq_true hne)]
  rw [parse_lineMark_append sense hend hbody] at hparse
  have hname : namesNothing (halveBackslashes (stripLine body)) = false := by
    by_contra hnothing
    simp [hnothing] at hparse
  have hend' : Text.trimEnd (directory ++ (joint body ++ body)) ≠ [] := by
    rw [← List.append_assoc, Text.trimEnd, Text.dropEndWhile_append_of_ne_nil _ hend]
    exact List.append_ne_nil_of_right_ne_nil _ hend
  have hbody' : Unmarked (directory ++ (joint body ++ body)) := by
    simp [Unmarked, List.head?_append, hslash]
  have hread : halveBackslashes (stripLine (directory ++ (joint body ++ body))) =
      directory ++ (joint (halveBackslashes (stripLine body)) ++
        halveBackslashes (stripLine body)) := by
    rw [joint_pattern, ← List.append_assoc, stripLine_append hquote hend,
      halveBackslashes_append hquote, List.append_assoc]
  rw [rulesOfLine, rulesOfLine, parse_lineMark_append sense hend hbody, if_neg (by simp [hname]),
    parse_lineMark_append sense hend' hbody', hread,
    if_neg (by simp [namesNothing_joined hplain hname]), hfilter]
  exact rules_eq_rules_joined hplain sense hname

/-- A line that takes back, with a token, a group and a quoted space at its end. -/
theorem rulesOfLine_joined_takenBack :
    "/sub dir".toList.head? = some '/' ∧
      (∀ c ∈ "/sub dir".toList, IgnoreRule.isWildcard c = false ∧ c ≠ '\\') ∧
      IgnoreRule.Unmarked "**/x[ab]\\ ".toList ∧
      (IgnoreRule.parse "!**/x[ab]\\ " (some "/sub dir".toList)).isSome = true ∧
      rulesOfLine "!**/x[ab]\\ " (some "/sub dir".toList) =
        rulesOfLine "!/sub dir/**/x[ab]\\ " none := by
  have hplain : ∀ c ∈ "/sub dir".toList, IgnoreRule.isWildcard c = false ∧ c ≠ '\\' := by
    have hall : ("/sub dir".toList.all fun c => !IgnoreRule.isWildcard c && c != '\\') = true := by
      decide
    simpa only [List.all_eq_true, Bool.and_eq_true, Bool.not_eq_true', bne_iff_ne] using hall
  exact ⟨by decide, hplain, by decide, by decide,
    rulesOfLine_eq_rulesOfLine_joined .includes (by decide) hplain (by decide) (by decide)⟩

end TreeSync
