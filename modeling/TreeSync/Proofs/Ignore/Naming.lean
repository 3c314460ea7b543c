import TreeSync.Proofs.Ignore.Directory
import TreeSync.Proofs.Ignore.Glob
import TreeSync.Proofs.Ignore.Line

/-!
# TreeSync.Proofs.Ignore.Naming

The rules of a line match the paths that the line names
(`names_iff_rule_reaches`).

1. The variants of a line are the choices at its tokens, each written out
   (`GlobStep.spell_written`), so its rules are known one by one
   (`GlobLine.rulesOfLine_text`).
2. The signs of a written choice are the pieces of its steps
   (`GlobStep.map_plain_pathText`), so a rule matches what these tread
   (`reaches_iff_begins`).
3. What all choices tread together is what the steps follow
   (`GlobStep.follows_iff_treads`).
-/

namespace TreeSync

open Pattern

/-! ## the characters of a line -/

/-- True of the characters that a line of names may hold. -/
def isLineChar (c : Char) : Bool := c = '/' || isGlobChar c

/-- Such characters are no blanks and have no meaning for the reader of a line or
for the expansion of groups. -/
theorem of_isLineChar {c : Char} (h : isLineChar c = true) :
    Text.isBlank c = false ∧ c ≠ '\\' ∧ c ≠ '[' ∧ c ≠ '!' ∧ c ≠ '#' := by
  rw [isLineChar, isGlobChar, Bool.or_eq_true, Bool.or_eq_true, Bool.or_eq_true] at h
  simp only [decide_eq_true_eq] at h
  obtain rfl | (h | rfl) | rfl := h
  · decide
  · rw [isOrdinary, Bool.and_eq_true] at h
    refine ⟨by simpa using h.1, ?_, ?_, ?_, ?_⟩ <;>
      · intro heq
        subst heq
        exact absurd h.2 (by decide)
  · decide
  · decide

namespace GlobStep

theorem isLineChar_of_mem_text {step : GlobStep} {c : Char} (hc : c ∈ step.text) :
    isLineChar c = true := by
  have hname : c ∈ step.name → isLineChar c = true := by
    intro h
    rw [isLineChar, isGlobChar_of_mem h, Bool.or_true]
  rw [text, List.mem_append] at hc
  obtain hc | hc := hc
  · split at hc
    · have htoken : anyDepth.all isLineChar = true := by decide
      exact List.all_eq_true.mp htoken c hc
    · contradiction
  · exact hname hc

theorem isLineChar_of_mem_pathText {steps : List GlobStep} {c : Char}
    (hc : c ∈ pathText steps) : isLineChar c = true := by
  rw [pathText, List.mem_flatMap] at hc
  obtain ⟨step, -, hc⟩ := hc
  obtain rfl | hc := List.mem_cons.mp hc
  · decide
  · exact isLineChar_of_mem_text hc

/-- Steps are written with a slash each, so no star comes first. -/
theorem head?_pathText_ne_star (steps : List GlobStep) : (pathText steps).head? ≠ some '*' := by
  cases steps with
  | nil => simp
  | cons step steps =>
      rw [pathText_cons]
      simp

/-! ## the variants of a line -/

/-- **One step in front**: each of its choices stands in front of every variant of the
rest. -/
theorem spell_text_append (step : GlobStep) {t : Text} (ht : t.head? ≠ some '*') :
    (Cuts.ofText (step.text ++ t)).spell =
      step.choices.flatMap fun chosen => (Cuts.ofText t).spell.map (chosen.text ++ ·) := by
  have hname : (Cuts.ofText (step.name ++ t)).spell =
      (Cuts.ofText t).spell.map (step.name ++ ·) := by
    rw [Cuts.ofText_append step.single ht, Cuts.spell_prepend]
  obtain ⟨deep, name, _, _, _⟩ := step
  cases deep with
  | false => simpa [choices, text] using hname
  | true =>
      simp only [text, if_true, List.append_assoc]
      rw [Cuts.spell_anyDepth_append, hname]
      simp [choices, elide, Function.comp_def]

/-- The variants of written steps are the choices at their tokens. -/
theorem spell_pathText (steps : List GlobStep) :
    (Cuts.ofText (pathText steps)).spell = (elisions steps).map pathText := by
  induction steps with
  | nil => rfl
  | cons step steps ih =>
      rw [pathText_cons, Cuts.ofText_cons (by decide), Cuts.spell_prepend,
        spell_text_append step (head?_pathText_ne_star steps), ih, elisions]
      simp [List.map_flatMap, pathText_cons, Function.comp_def]

/-- A deep step has a token more than the steps behind it. -/
theorem anyDepthCount_text_append (step : GlobStep) {t : Text} (ht : t.head? ≠ some '*') :
    anyDepthCount (step.text ++ t) = (if step.deep then 1 else 0) + anyDepthCount t := by
  have hname : anyDepthCount (step.name ++ t) = anyDepthCount t := by
    rw [anyDepthCount, Cuts.ofText_append step.single ht]
    rfl
  rw [text]
  cases step.deep with
  | false => simpa using hname
  | true =>
      simp only [if_true, List.append_assoc]
      rw [anyDepthCount, Cuts.ofText_anyDepth_append, List.length_cons, ← anyDepthCount, hname]
      omega

/-- A path has as many tokens as deep steps. -/
theorem anyDepthCount_pathText (steps : List GlobStep) :
    anyDepthCount (pathText steps) = steps.countP (·.deep) := by
  induction steps with
  | nil => rfl
  | cons step steps ih =>
      have hslash : anyDepthCount (pathText (step :: steps)) =
          anyDepthCount (step.text ++ pathText steps) := by
        rw [pathText_cons, anyDepthCount, Cuts.ofText_cons (by decide)]
        rfl
      rw [hslash, anyDepthCount_text_append step (head?_pathText_ne_star steps), ih,
        List.countP_cons]
      omega

/-- Steps as they are written, with the first slash or without it. -/
def written (slashed : Bool) (steps : List GlobStep) : Text :=
  if slashed then pathText steps else (pathText steps).tail

theorem written_false_cons (step : GlobStep) (steps : List GlobStep) :
    written false (step :: steps) = step.text ++ pathText steps := by
  rw [written, if_neg Bool.false_ne_true, pathText_cons, List.tail_cons]

theorem isLineChar_of_mem_written {slashed : Bool} {steps : List GlobStep} {c : Char}
    (hc : c ∈ written slashed steps) : isLineChar c = true := by
  unfold written at hc
  split at hc
  · exact isLineChar_of_mem_pathText hc
  · exact isLineChar_of_mem_pathText (List.mem_of_mem_tail hc)

/-- What is written is not only slashes. -/
theorem exists_mem_written (slashed : Bool) (step : GlobStep) (steps : List GlobStep) :
    ∃ c ∈ written slashed (step :: steps), c ≠ '/' := by
  obtain ⟨c, hc⟩ := List.exists_mem_of_ne_nil _ step.ne_nil
  have hstep : c ∈ step.text ++ pathText steps :=
    List.mem_append_left _ (List.mem_append_right _ hc)
  refine ⟨c, ?_, ?_⟩
  · cases slashed with
    | true =>
        rw [written, if_pos rfl, pathText_cons]
        exact List.mem_cons_of_mem _ hstep
    | false =>
        rw [written_false_cons]
        exact hstep
  · intro heq
    subst heq
    exact absurd (GlobStep.isGlobChar_of_mem hc) (by decide)

/-- The variants of written steps are the elisions of the steps, written. -/
theorem spell_written (slashed : Bool) (step : GlobStep) (steps : List GlobStep) :
    (Cuts.ofText (written slashed (step :: steps))).spell =
      (elisions (step :: steps)).map (written slashed) := by
  cases slashed with
  | true => exact spell_pathText (step :: steps)
  | false =>
      rw [written_false_cons, spell_text_append step (head?_pathText_ne_star steps),
        spell_pathText, elisions]
      simp [List.map_flatMap, written_false_cons, Function.comp_def]

/-- Written steps have as many tokens as deep steps. -/
theorem anyDepthCount_written (slashed : Bool) (step : GlobStep) (steps : List GlobStep) :
    anyDepthCount (written slashed (step :: steps)) = (step :: steps).countP (·.deep) := by
  cases slashed with
  | true => exact anyDepthCount_pathText (step :: steps)
  | false =>
      rw [written_false_cons, anyDepthCount_text_append step (head?_pathText_ne_star steps),
        anyDepthCount_pathText, List.countP_cons]
      omega

/-! ## the pieces of a written line -/

theorem slash_not_mem_pieces {step : GlobStep} {piece : List Sign} (h : piece ∈ step.pieces) :
    Sign.slash ∉ piece := by
  have hname : Sign.slash ∉ step.signs := by
    intro hmem
    obtain ⟨c, hc, hslash⟩ := List.mem_map.mp hmem
    have hc' : c = '/' := by
      unfold Sign.plain at hslash
      split at hslash
      · contradiction
      · exact Sign.literal.inj hslash
    subst hc'
    exact absurd (GlobStep.isGlobChar_of_mem hc) (by decide)
  rw [pieces, List.mem_append] at h
  obtain h | h := h
  · split at h
    · rw [List.mem_singleton.mp h]
      decide
    · contradiction
  · rw [List.mem_singleton.mp h]
    exact hname

theorem ne_nil_of_mem_pieces {step : GlobStep} {piece : List Sign} (h : piece ∈ step.pieces) :
    piece ≠ [] := by
  rw [pieces, List.mem_append] at h
  obtain h | h := h
  · split at h
    · rw [List.mem_singleton.mp h]
      decide
    · contradiction
  · rw [List.mem_singleton.mp h, signs, ne_eq, List.map_eq_nil_iff]
    exact step.ne_nil

/-- The signs of a written step are its pieces. -/
theorem map_plain_text (step : GlobStep) :
    .slash :: step.text.map Sign.plain = step.pieces.flatMap (Sign.slash :: ·) := by
  have htoken : anyDepth.map Sign.plain = Sign.anyNames ++ [Sign.slash] := by decide
  rw [text, pieces]
  cases step.deep with
  | true => simp [htoken, signs]
  | false => simp [signs]

/-- The signs of a path are its pieces, with a slash before each. -/
theorem map_plain_pathText (steps : List GlobStep) :
    (pathText steps).map Sign.plain = (steps.flatMap pieces).flatMap (Sign.slash :: ·) := by
  induction steps with
  | nil => rfl
  | cons step steps ih =>
      rw [pathText_cons, List.flatMap_cons, List.flatMap_append, ← map_plain_text, ← ih,
        List.map_cons, List.map_append]
      rfl

end GlobStep

/-! ## the directory in front -/

/-- An ordinary character is no wildcard, no backslash and no slash. -/
theorem of_isOrdinary {c : Char} (h : isOrdinary c = true) :
    Sign.isWild c = false ∧ c ≠ '\\' ∧ c ≠ '/' := by
  rw [isOrdinary, Bool.and_eq_true] at h
  have hc := h.2
  simp only [Bool.not_eq_true', List.contains_eq_mem, decide_eq_false_iff_not, List.mem_cons,
    List.not_mem_nil, or_false, not_or] at hc
  obtain ⟨hslash, hstar, hquestion, hbracket, -, hquote, -⟩ := hc
  refine ⟨?_, hquote, hslash⟩
  simp [Sign.isWild, hstar, hquestion, hbracket]

/-- The text of a directory holds neither wildcards nor backslashes. -/
theorem of_mem_directoryText {directory : List PlainName} {c : Char}
    (hc : c ∈ directoryText directory) : Sign.isWild c = false ∧ c ≠ '\\' := by
  obtain ⟨name, -, hc⟩ := List.mem_flatMap.mp hc
  obtain rfl | hc := List.mem_cons.mp hc
  · decide
  · obtain ⟨hwild, hquote, -⟩ := of_isOrdinary (PlainName.isOrdinary_of_mem hc)
    exact ⟨hwild, hquote⟩

/-- A directory of plain names is put in front of a pattern as it stands. -/
theorem under_directoryPlace (directory : List PlainName) (pattern : Text) :
    IgnoreRule.under (directoryPlace directory) pattern = directoryText directory ++ pattern := by
  cases directory with
  | nil => rfl
  | cons name names =>
      have hwild : isWildPattern (directoryText (name :: names)) = false := by
        rw [isWildPattern, List.any_eq_false]
        intro c hc
        rw [(of_mem_directoryText hc).1]
        exact Bool.false_ne_true
      rw [directoryPlace, IgnoreRule.under, IgnoreRule.quoteDirectory_of_not_isWild hwild]
      intro _ hquote
      exact (of_mem_directoryText hquote).2 rfl

/-- The signs of a directory are the literal signs of its names, with a slash before
each. -/
theorem map_plain_directoryText (directory : List PlainName) :
    (directoryText directory).map Sign.plain =
      ((directory.map (·.text)).map (·.map Sign.literal)).flatMap (Sign.slash :: ·) := by
  induction directory with
  | nil => rfl
  | cons name names ih =>
      have hname : name.text.map Sign.plain = name.text.map Sign.literal := by
        apply List.map_congr_left
        intro c hc
        exact Sign.plain_of_not_isWild (of_isOrdinary (PlainName.isOrdinary_of_mem hc)).1
      rw [directoryText, List.flatMap_cons, List.map_append, ← directoryText, ih,
        List.map_cons, hname]
      rfl

theorem slash_not_mem_literals {directory : List PlainName} {piece : List Sign}
    (h : piece ∈ (directory.map (·.text)).map (·.map Sign.literal)) : Sign.slash ∉ piece := by
  obtain ⟨t, ht, rfl⟩ := List.mem_map.mp h
  obtain ⟨name, -, rfl⟩ := List.mem_map.mp ht
  intro hslash
  obtain ⟨c, hc, hliteral⟩ := List.mem_map.mp hslash
  exact (of_isOrdinary (PlainName.isOrdinary_of_mem hc)).2.2 (Sign.literal.inj hliteral)

/-- Variants without groups are the patterns of a rule. -/
theorem IgnoreRule.patterns_of_not_mem {rule : IgnoreRule}
    (h : ∀ variant ∈ expandAnyDepth rule.relativePattern, variant ≠ [] ∧ '[' ∉ variant) :
    rule.patterns = expandAnyDepth rule.relativePattern := by
  have hgroups : (expandAnyDepth rule.relativePattern).map expandGroups =
      (expandAnyDepth rule.relativePattern).map ([·]) :=
    List.map_congr_left fun variant hv => expandGroups_of_not_mem (h variant hv).2
  rw [patterns, List.flatMap_def, hgroups, ← List.flatMap_def, List.flatMap_singleton',
    List.filter_eq_self]
  intro variant hv
  exact decide_eq_true (h variant hv).1

namespace GlobLine

/-! ## the rules of a line -/

/-- True when a slash stands in front of the placed steps. -/
def slashed (line : GlobLine) (directory : List PlainName) : Bool :=
  line.anchored || !directory.isEmpty

/-- A line that is anchored, by itself or by its directory, is placed as it is
written. -/
theorem placed_of_slashed {line : GlobLine} {directory : List PlainName}
    (h : line.slashed directory = true) : line.placed directory = line.reading := by
  rw [placed, reading]
  cases directory with
  | nil =>
      rw [slashed, List.isEmpty_nil, Bool.not_true, Bool.or_false] at h
      rw [h]
      rfl
  | cons name names => rw [List.isEmpty_cons, Bool.or_false]

/-- A line that is not anchored is one of the root, with nothing to anchor it. -/
theorem of_not_slashed {line : GlobLine} {directory : List PlainName}
    (h : line.slashed directory = false) : line.anchored = false ∧ directory = [] := by
  rw [slashed, Bool.or_eq_false_iff, Bool.not_eq_false', List.isEmpty_iff] at h
  exact h

/-- A line is written as its steps are. -/
theorem text_eq_written (line : GlobLine) :
    line.text = GlobStep.written line.anchored (line.first :: line.rest) := by
  rw [text]
  cases line.anchored with
  | true => rw [GlobStep.written, if_pos rfl, if_pos rfl, GlobStep.pathText_cons]; rfl
  | false => rw [GlobStep.written_false_cons]; rfl

theorem isLineChar_of_mem_text {line : GlobLine} {c : Char} (hc : c ∈ line.text) :
    isLineChar c = true := by
  rw [text_eq_written] at hc
  exact GlobStep.isLineChar_of_mem_written hc

/-- A line names something: its first name is left when its tokens are removed. -/
theorem namesNothing_text (line : GlobLine) : IgnoreRule.namesNothing line.text = false := by
  have hmem := withoutAnyDepth_mem_spell line.text
  rw [text_eq_written, GlobStep.spell_written] at hmem
  obtain ⟨kept, hkept, htext⟩ := List.mem_map.mp hmem
  obtain ⟨chosen, hchosen, rest, -, rfl⟩ := GlobStep.mem_elisions_cons.mp hkept
  obtain ⟨c, hwritten, hslash⟩ := GlobStep.exists_mem_written line.anchored chosen rest
  rw [IgnoreRule.namesNothing, text_eq_written, ← htext, List.all_eq_false]
  exact ⟨c, hwritten, by simpa using hslash⟩

/-- A line with either mark is its sense and itself. -/
theorem parse_text (sense : Sense) (line : GlobLine) (directory : List PlainName) :
    IgnoreRule.parse (sense.lineMark ++ line.text) (directoryPlace directory) =
      some ⟨sense, line.text, directoryPlace directory⟩ := by
  have hchars : ∀ c ∈ line.text,
      Text.isBlank c = false ∧ c ≠ '\\' ∧ c ≠ '[' ∧ c ≠ '!' ∧ c ≠ '#' :=
    fun c hc => of_isLineChar (isLineChar_of_mem_text hc)
  rw [IgnoreRule.parse_of_unescaped sense _ _ _ _ (namesNothing_text line)]
  · cases directory <;> rfl
  · exact fun c hc => (hchars c hc).1
  · exact fun hc => (hchars _ hc).2.1 rfl
  · exact fun hc => (hchars _ (List.mem_of_head? hc)).2.2.2.2 rfl
  · exact fun hc => (hchars _ (List.mem_of_head? hc)).2.2.2.1 rfl

theorem head?_text_append_ne_slash (step : GlobStep) (t : Text) :
    (step.text ++ t).head? ≠ some '/' := by
  obtain ⟨c, name, hname⟩ := List.exists_cons_of_ne_nil step.ne_nil
  have hc : c ≠ '/' := by
    intro heq
    subst heq
    have hmem : '/' ∈ step.name := by rw [hname]; exact List.mem_cons_self
    exact absurd (GlobStep.isGlobChar_of_mem hmem) (by decide)
  rw [GlobStep.text, hname]
  cases step.deep with
  | true => simp [anyDepth]
  | false => simpa using hc

/-- A token in front, unless there is one: a line that begins with neither a slash
nor a token is one name. -/
theorem deepen_text (step : GlobStep) (steps : List GlobStep)
    (h : step.deep = true ∨ steps = []) :
    (if anyDepth.isPrefixOf (step.text ++ GlobStep.pathText steps) then
      '/' :: (step.text ++ GlobStep.pathText steps)
    else '/' :: (anyDepth ++ (step.text ++ GlobStep.pathText steps))) =
      GlobStep.pathText (step.deepen :: steps) := by
  rw [GlobStep.pathText_cons]
  cases hdeep : step.deep with
  | true =>
      have htext : step.text = anyDepth ++ step.name := by
        rw [GlobStep.text, hdeep, if_pos rfl]
      have htoken : anyDepth.isPrefixOf (step.text ++ GlobStep.pathText steps) = true := by
        rw [htext, List.append_assoc, List.isPrefixOf_iff_prefix]
        exact List.prefix_append _ _
      rw [if_pos htoken, htext]
      rfl
  | false =>
      have hsteps : steps = [] := by
        rw [hdeep] at h
        simpa using h
      have htext : step.text = step.name := by
        rw [GlobStep.text, hdeep, if_neg Bool.false_ne_true, List.nil_append]
      have htoken : ¬ anyDepth.isPrefixOf step.name = true := by
        rw [List.isPrefixOf_iff_prefix]
        intro hprefix
        have hstars : ['*', '*'] <+: anyDepth := ⟨['/'], rfl⟩
        exact step.single (hstars.trans hprefix).isInfix
      rw [hsteps, GlobStep.pathText_nil, List.append_nil, List.append_nil, htext, if_neg htoken]
      rfl

/-- The placed pattern of a line is its placed steps, written out. -/
theorem relativePattern_text (sense : Sense) (line : GlobLine) (directory : List PlainName) :
    IgnoreRule.relativePattern ⟨sense, line.text, directoryPlace directory⟩ =
      GlobStep.written (line.slashed directory) (line.placed directory) := by
  rw [IgnoreRule.relativePattern, text_eq_written, slashed, placed]
  cases directory with
  | nil => simp [directoryPlace]
  | cons name names =>
      rw [List.isEmpty_cons, Bool.not_false, Bool.or_true, Bool.or_false]
      cases hanchored : line.anchored with
      | true =>
          rw [if_pos]
          · rfl
          · exact Bool.or_eq_true_iff.mpr (Or.inr rfl)
      | false =>
          have hopening : line.first.deep = true ∨ line.rest = [] := by
            have hopening := line.opening
            rw [hanchored] at hopening
            simpa using hopening
          have hslash : ¬ ((directoryPlace (name :: names)).isNone ||
              decide ((line.first.text ++ GlobStep.pathText line.rest).head? = some '/')) =
                true := by
            rw [directoryPlace, Option.isNone_some, Bool.false_or, decide_eq_true_eq]
            exact head?_text_append_ne_slash line.first (GlobStep.pathText line.rest)
          rw [GlobStep.written_false_cons, if_neg hslash, deepen_text _ _ hopening]
          rfl

/-- The choices at the tokens of a line, written out, are the variants of its
placed pattern. -/
theorem expandAnyDepth_text (sense : Sense) (line : GlobLine) (directory : List PlainName)
    (htokens : (line.placed directory).countP (·.deep) ≤ 10) :
    expandAnyDepth (IgnoreRule.relativePattern ⟨sense, line.text, directoryPlace directory⟩) =
      (GlobStep.elisions (line.placed directory)).map
        (GlobStep.written (line.slashed directory)) := by
  rw [relativePattern_text, expandAnyDepth_of_count_le]
  · exact GlobStep.spell_written _ _ _
  · exact Nat.le_trans (Nat.le_of_eq (GlobStep.anyDepthCount_written _ _ _)) htokens

theorem bracket_not_mem_written {slashed : Bool} {steps : List GlobStep} :
    '[' ∉ GlobStep.written slashed steps :=
  fun h => (of_isLineChar (GlobStep.isLineChar_of_mem_written h)).2.2.1 rfl

/-- The choices at its tokens are the rules of a line. -/
theorem rulesOfLine_text (sense : Sense) (line : GlobLine) (directory : List PlainName)
    (htokens : (line.placed directory).countP (·.deep) ≤ 10) :
    rulesOfLine (sense.lineMark ++ line.text) (directoryPlace directory) =
      (GlobStep.elisions (line.placed directory)).map fun kept =>
        ⟨sense, directoryText directory ++ GlobStep.written (line.slashed directory) kept⟩ := by
  have hspell := expandAnyDepth_text sense line directory htokens
  rw [rulesOfLine, parse_text]
  show IgnoreRule.rules ⟨sense, line.text, directoryPlace directory⟩ = _
  rw [IgnoreRule.rules, IgnoreRule.patterns_of_not_mem, hspell, List.map_map]
  · apply List.map_congr_left
    intro kept _
    rw [Function.comp_apply, under_directoryPlace]
  · rw [hspell, List.forall_mem_map]
    intro kept hkept
    obtain ⟨chosen, -, rest, -, rfl⟩ := GlobStep.mem_elisions_cons.mp hkept
    obtain ⟨c, hc, -⟩ := GlobStep.exists_mem_written (line.slashed directory) chosen rest
    exact ⟨List.ne_nil_of_mem hc, bracket_not_mem_written⟩

/-- The rules of a line say just what it says. -/
theorem isApproximate_text (sense : Sense) (line : GlobLine) (directory : List PlainName)
    (htokens : (line.placed directory).countP (·.deep) ≤ 10) :
    IgnoreRule.isApproximate ⟨sense, line.text, directoryPlace directory⟩ = false := by
  have hfits : anyDepthFits
      (IgnoreRule.relativePattern ⟨sense, line.text, directoryPlace directory⟩) = true := by
    rw [relativePattern_text]
    exact anyDepthFits_of_count_le
      (Nat.le_trans (Nat.le_of_eq (GlobStep.anyDepthCount_written _ _ _)) htokens)
  rw [IgnoreRule.isApproximate, hfits, expandAnyDepth_text sense line directory htokens,
    Bool.not_true, Bool.false_or, List.any_map, List.any_eq_false]
  intro kept _
  rw [Function.comp_apply, widensGroups_of_not_mem bracket_not_mem_written]
  exact Bool.false_ne_true

end GlobLine

/-! ## the paths of the rules -/

/-- A directory and written steps behind it hold no group, so every sign is plain. -/
theorem signsOf_placed (directory : List PlainName) (slashed : Bool) (steps : List GlobStep) :
    signsOf (directoryText directory ++ GlobStep.written slashed steps) =
      (directoryText directory).map .plain ++ (GlobStep.written slashed steps).map .plain := by
  rw [signsOf_of_not_mem, List.map_append]
  intro h
  obtain h | h := List.mem_append.mp h
  · exact (of_mem_directoryText h).2 rfl
  · exact (of_isLineChar (GlobStep.isLineChar_of_mem_written h)).2.1 rfl

/-- A rule with a slash in front matches below its directory. -/
theorem reaches_slashed (directory : List PlainName) (step : GlobStep) (steps : List GlobStep)
    (path : List Text) :
    FilterRule.reaches
        ⟨.excludes, directoryText directory ++ GlobStep.written true (step :: steps)⟩ path = true ↔
      ∃ below, path = directory.map (·.text) ++ below ∧
        Sign.treads ((step :: steps).flatMap GlobStep.pieces) below = true := by
  rw [FilterRule.reaches_of_slash, Sign.treads_literals_append]
  · rw [List.flatMap_cons, GlobStep.pieces]
    simp
  · intro piece hpiece
    obtain hpiece | hpiece := List.mem_append.mp hpiece
    · exact slash_not_mem_literals hpiece
    · obtain ⟨s, -, hpiece⟩ := List.mem_flatMap.mp hpiece
      exact GlobStep.slash_not_mem_pieces hpiece
  · rw [signsOf_placed, map_plain_directoryText, List.flatMap_append]
    congr 1
    exact GlobStep.map_plain_pathText (step :: steps)

/-- A rule without one matches at any depth. -/
theorem reaches_floating (step : GlobStep) (steps : List GlobStep) (path : List Text) :
    FilterRule.reaches
        ⟨.excludes, directoryText [] ++ GlobStep.written false (step :: steps)⟩ path =
      someTail (Sign.treads ((step :: steps).flatMap GlobStep.pieces)) path := by
  obtain ⟨piece, pieces, hpieces⟩ : ∃ piece pieces,
      (step :: steps).flatMap GlobStep.pieces = piece :: pieces := by
    apply List.exists_cons_of_ne_nil
    rw [List.flatMap_cons, GlobStep.pieces]
    simp
  have hmem : ∀ p ∈ piece :: pieces, Sign.slash ∉ p := by
    rw [← hpieces]
    intro p hp
    obtain ⟨s, -, hp⟩ := List.mem_flatMap.mp hp
    exact GlobStep.slash_not_mem_pieces hp
  have hsigns := GlobStep.map_plain_pathText (step :: steps)
  rw [hpieces, List.flatMap_cons, GlobStep.pathText_cons, List.map_cons,
    List.cons_append] at hsigns
  rw [hpieces]
  apply FilterRule.reaches_of_name
  · have hpiece : piece ∈ (step :: steps).flatMap GlobStep.pieces := by
      rw [hpieces]
      exact List.mem_cons_self
    obtain ⟨s, -, hpiece⟩ := List.mem_flatMap.mp hpiece
    exact GlobStep.ne_nil_of_mem_pieces hpiece
  · exact hmem
  · rw [signsOf_placed, GlobStep.written_false_cons]
    exact (List.cons.inj hsigns).2

/-- Where a placed pattern begins in a path: below its directory, or anywhere. -/
def Begins (slashed : Bool) (directory : List PlainName) (path below : List Text) : Prop :=
  if slashed then path = directory.map (·.text) ++ below else below <:+ path

/-- **A placed variant** reaches a path that begins with the directory and whose
remaining names its pieces tread. -/
theorem reaches_iff_begins {slashed : Bool} {directory : List PlainName}
    (h : slashed = false → directory = []) (step : GlobStep) (steps : List GlobStep)
    (path : List Text) :
    FilterRule.reaches
        ⟨.excludes, directoryText directory ++ GlobStep.written slashed (step :: steps)⟩ path =
          true ↔
      ∃ below, Begins slashed directory path below ∧
        Sign.treads ((step :: steps).flatMap GlobStep.pieces) below = true := by
  cases slashed with
  | true => exact reaches_slashed directory step steps path
  | false =>
      rw [h rfl, reaches_floating, someTail_iff]
      rfl

/-- A line names the paths in which its placed steps are followed from where they
begin. -/
theorem names_iff_begins (line : GlobLine) (directory : List PlainName) (path : List Text) :
    line.Names directory path ↔
      ∃ below, Begins (line.slashed directory) directory path below ∧
        GlobStep.follows (line.placed directory) below = true := by
  cases hslashed : line.slashed directory with
  | true =>
      rw [GlobLine.placed_of_slashed hslashed]
      rfl
  | false =>
      obtain ⟨hanchored, rfl⟩ := GlobLine.of_not_slashed hslashed
      have hplaced : line.placed [] = line.first :: line.rest := by
        rw [GlobLine.placed, List.isEmpty_nil, Bool.or_true, if_pos rfl]
      have hnames : line.Names [] path ↔
          GlobStep.follows (line.first.deepen :: line.rest) path = true := by
        rw [GlobLine.Names, GlobLine.reading, hanchored]
        simp
      rw [hnames, hplaced, GlobStep.follows_deepen, someTail_iff]
      rfl

/-- **A line names what its rules match**: with at most ten tokens in the placed
pattern, a line of an ignore file names a path below its directory exactly when
one of the rules it is translated to matches that path. -/
theorem names_iff_rule_reaches (line : GlobLine) (directory : List PlainName)
    (htokens : (line.placed directory).countP (·.deep) ≤ 10) (path : List Text) :
    line.Names directory path ↔
      ∃ rule ∈ rulesOfLine line.text (directoryPlace directory), rule.reaches path = true := by
  have hrules := GlobLine.rulesOfLine_text .excludes line directory htokens
  rw [Sense.lineMark, List.nil_append] at hrules
  have hroot : line.slashed directory = false → directory = [] :=
    fun h => (GlobLine.of_not_slashed h).2
  rw [names_iff_begins, hrules]
  constructor
  · intro hnames
    obtain ⟨below, hbegins, hfollows⟩ := hnames
    obtain ⟨kept, hkept, htreads⟩ := (GlobStep.follows_iff_treads _ below).mp hfollows
    obtain ⟨chosen, -, rest, -, rfl⟩ := GlobStep.mem_elisions_cons.mp hkept
    refine ⟨_, List.mem_map.mpr ⟨_, hkept, rfl⟩, ?_⟩
    exact (reaches_iff_begins hroot chosen rest path).mpr ⟨below, hbegins, htreads⟩
  · intro hreached
    obtain ⟨rule, hrule, hreaches⟩ := hreached
    obtain ⟨kept, hkept, rfl⟩ := List.mem_map.mp hrule
    obtain ⟨chosen, -, rest, -, rfl⟩ := GlobStep.mem_elisions_cons.mp hkept
    obtain ⟨below, hbegins, htreads⟩ := (reaches_iff_begins hroot chosen rest path).mp hreaches
    exact ⟨below, hbegins, (GlobStep.follows_iff_treads _ below).mpr ⟨_, hkept, htreads⟩⟩

/-- The line `**/lib*/**/?.o`. -/
def objectLine : GlobLine :=
  ⟨false, ⟨true, "lib*", by decide, by decide, by decide⟩,
    [⟨true, "?.o", by decide, by decide, by decide⟩], by decide⟩

/-- The directory `/src`. -/
def sourceDirectory : List PlainName := [⟨"src", by decide, by decide⟩]

/-- The line `**/lib*/**/?.o` of the directory `src`, at `src/lib2/a.o`. -/
theorem objectLine_names_iff :
    objectLine.text = "**/lib*/**/?.o".toList ∧
      (objectLine.placed sourceDirectory).countP (·.deep) ≤ 10 ∧
      (objectLine.Names sourceDirectory ["src".toList, "lib2".toList, "a.o".toList] ↔
        ∃ rule ∈ rulesOfLine objectLine.text (directoryPlace sourceDirectory),
          rule.reaches ["src".toList, "lib2".toList, "a.o".toList] = true) :=
  ⟨by decide, by decide, names_iff_rule_reaches objectLine sourceDirectory (by decide) _⟩

end TreeSync
