import TreeSync.Proofs.Ignore.Directory
import TreeSync.Proofs.Ignore.Line
import TreeSync.Proofs.Pattern.Parts
import Mathlib.Data.List.Induction

/-!
# TreeSync.Proofs.Ignore.Quoting

Lines that quote the name of a file.

A line that quotes a name has a backslash in front of every character that could
mean something else (`quoteName`).  Which of these backslashes are gone when the line
is read, and which are left in its pattern, is not the same for all of them:

1. two backslashes become one, a `!` or `#` in front loses its backslash, and so does
   a space at the end; blanks at the end that are no spaces are not part of the name
   (`stripLine_concat_blank`);
2. every other backslash is left (`parse_quoteName`), for the reader of the rule: it
   quotes in a pattern with a wildcard, and stands for itself in every other.

So the rule denotes the name where the backslashes that are left are just the ones
that its reader takes for quotes (`QuotesHold`, `rulesOfLine_quoteName_denotes`).
-/

namespace TreeSync

open Pattern

/-! ## the quoted name -/

/-- The characters that a line quotes: those that could mean something else. -/
def isMark (c : Char) : Bool := "\\*?[]!# ".toList.contains c

/-- The line that quotes a name. -/
def quoteName (name : Text) : Text := name.flatMap fun c => if isMark c then ['\\', c] else [c]

theorem quoteName_cons (c : Char) (name : Text) :
    quoteName (c :: name) = (if isMark c then ['\\', c] else [c]) ++ quoteName name := rfl

/-- Names are quoted character by character. -/
theorem quoteName_append (a b : Text) : quoteName (a ++ b) = quoteName a ++ quoteName b := by
  simp [quoteName]

/-- A quoted name ends as the name does. -/
theorem exists_quoteName_concat (name : Text) (c : Char) :
    ∃ front, quoteName (name ++ [c]) = front ++ [c] := by
  rw [quoteName_append]
  by_cases hc : isMark c = true
  · exact ⟨quoteName name ++ ['\\'], by simp [quoteName, hc]⟩
  · exact ⟨quoteName name, by simp [quoteName, hc]⟩

/-- Backslashes at the end of a quoted name come in pairs. -/
theorem countEndWhile_quoteName (name : Text) :
    Text.countEndWhile (· == '\\') (quoteName name) % 2 = 0 := by
  induction name using List.reverseRecOn with
  | nil => rfl
  | append_singleton name c ih =>
      by_cases hslash : c = '\\'
      · subst hslash
        have hpair : quoteName ['\\'] = ['\\'] ++ ['\\'] := by decide
        rw [quoteName_append, hpair, ← List.append_assoc, Text.countEndWhile_concat_self,
          Text.countEndWhile_concat_self]
        omega
      · obtain ⟨front, hfront⟩ := exists_quoteName_concat name c
        rw [hfront, Text.countEndWhile_concat_of_ne hslash]

namespace IgnoreRule

/-! ## stripping it -/

/-- The quoted name without the backslash of a space at its end. -/
def softened : Text → Text
  | [] => []
  | [' '] => [' ']
  | c :: r => (if isMark c then ['\\', c] else [c]) ++ softened r

/-- What is read of a quoted name, one character first; only a blank at the very end
is read otherwise. -/
theorem softened_cons {c : Char} {r : Text} (h : ¬ (c = ' ' ∧ r = [])) :
    softened (c :: r) = (if isMark c then ['\\', c] else [c]) ++ softened r := by
  rw [softened]
  exact fun hc hr => h ⟨hc, hr⟩

/-- A blank at the end loses its backslash. -/
theorem softened_concat_space (name : Text) : softened (name ++ [' ']) = quoteName name ++ [' '] := by
  induction name with
  | nil => rfl
  | cons c name ih =>
      rw [List.cons_append, softened, ih, quoteName_cons, List.append_assoc]
      simp

/-- Without a blank at its end a quoted name is read as it was written. -/
theorem softened_of_getLast?_ne {name : Text} (h : name.getLast? ≠ some ' ') :
    softened name = quoteName name := by
  fun_induction softened name with
  | case1 => rfl
  | case2 => simp at h
  | case3 c r hc ih =>
      rw [quoteName_cons]
      cases r with
      | nil => rfl
      | cons d r => rw [ih (by simpa using h)]

/-- **A quoted name loses nothing at its end**, unless it ends in a blank that is no
space. -/
theorem stripLine_quoteName {name : Text}
    (h : ∀ c ∈ name.getLast?, Text.isBlank c = true → c = ' ') :
    stripLine (quoteName name) = softened name := by
  by_cases hspace : name.getLast? = some ' '
  · obtain ⟨front, rfl⟩ := List.getLast?_eq_some_iff.mp hspace
    have hquoted : quoteName (front ++ [' ']) = quoteName front ++ ['\\', ' '] := by
      have hlast : quoteName [' '] = ['\\', ' '] := by decide
      rw [quoteName_append, hlast]
    rw [softened_concat_space, hquoted,
      stripLine_concat_quoted_space (countEndWhile_quoteName front)]
  · rw [softened_of_getLast?_ne hspace]
    obtain rfl | ⟨front, c, rfl⟩ := List.eq_nil_or_concat name
    · rfl
    · have hblank : Text.isBlank c = false := by
        rw [Bool.eq_false_iff]
        intro hblank
        exact hspace (by simp [h c (by simp) hblank])
      obtain ⟨quoted, hquoted⟩ := exists_quoteName_concat front c
      rw [List.concat_eq_append, hquoted, stripLine_concat hblank]

/-! ## reading it -/

/-- What reading leaves of a quoted name behind its first character: two backslashes
become one, and all other quotes stay. -/
def remains : Text → Text
  | [] => []
  | [' '] => [' ']
  | c :: r => (if isMark c && c != '\\' then ['\\', c] else [c]) ++ remains r

/-- What is left of the backslashes, one character first. -/
theorem remains_cons {c : Char} {r : Text} (h : ¬ (c = ' ' ∧ r = [])) :
    remains (c :: r) = (if isMark c && c != '\\' then ['\\', c] else [c]) ++ remains r := by
  rw [remains]
  exact fun hc hr => h ⟨hc, hr⟩

/-- A backslash before any other character stays. -/
theorem halveBackslashes_quoted {c : Char} (hc : c ≠ '\\') (t : Text) :
    halveBackslashes ('\\' :: c :: t) = '\\' :: c :: halveBackslashes t := by
  rw [halveBackslashes, halveBackslashes_cons hc]
  intro r _ h
  simp_all

/-- Halving the backslashes of a quoted name leaves `remains` of it. -/
theorem halveBackslashes_softened (name : Text) :
    halveBackslashes (softened name) = remains name := by
  fun_induction softened name with
  | case1 => rfl
  | case2 => rfl
  | case3 c r hlast ih =>
      rw [remains_cons fun h => hlast h.1 h.2]
      by_cases hslash : c = '\\'
      · subst hslash
        have hmark : isMark '\\' = true := by decide
        simp [hmark, halveBackslashes, ih]
      · by_cases hc : isMark c = true
        · simp [hc, hslash, halveBackslashes_quoted hslash, ih]
        · simp [hc, halveBackslashes_cons hslash, ih]

/-- The pattern of a quoted name: a `!` or `#` in front has lost its quote as well. -/
def patternOf : Text → Text
  | [] => []
  | c :: r => if c = '!' ∨ c = '#' then c :: remains r else remains (c :: r)

/-- The mark of a negation or a comment stands quoted at the front. -/
theorem softened_of_front {c : Char} (hc : c = '!' ∨ c = '#') (r : Text) :
    softened (c :: r) = '\\' :: c :: softened r := by
  obtain rfl | rfl := hc <;> simp [softened, isMark]

/-- Behind any other character there is no quote to drop. -/
theorem dropQuote_softened {c : Char} (hc : ¬ (c = '!' ∨ c = '#')) (r : Text) :
    dropQuote (softened (c :: r)) = softened (c :: r) := by
  by_cases hlast : c = ' ' ∧ r = []
  · obtain ⟨rfl, rfl⟩ := hlast
    rfl
  · rw [softened_cons hlast]
    by_cases hmark : isMark c = true
    · simp [hmark, dropQuote, not_or.mp hc]
    · have hslash : c ≠ '\\' := by
        rintro rfl
        exact hmark (by decide)
      simp [hmark, dropQuote, hslash]

/-- **What a quoted name is translated to** is `patternOf` it. -/
theorem halveBackslashes_dropQuote_softened (name : Text) :
    halveBackslashes (dropQuote (softened name)) = patternOf name := by
  cases name with
  | nil => rfl
  | cons c r =>
      rw [patternOf]
      split
      · next hc =>
          have hslash : c ≠ '\\' := by
            obtain rfl | rfl := hc <;> decide
          have hdrop : dropQuote ('\\' :: c :: softened r) = c :: softened r := by
            obtain rfl | rfl := hc <;> rfl
          rw [softened_of_front hc, hdrop, halveBackslashes_cons hslash, halveBackslashes_softened]
      · next hc => rw [dropQuote_softened hc, halveBackslashes_softened]

/-! ## its pattern -/

theorem slash_mem_remains {name : Text} : '/' ∈ remains name ↔ '/' ∈ name := by
  fun_induction remains name with
  | case1 => simp
  | case2 => simp
  | case3 c r hlast ih =>
      rw [List.mem_append, ih, List.mem_cons]
      split <;> simp_all

theorem slash_mem_patternOf {name : Text} : '/' ∈ patternOf name ↔ '/' ∈ name := by
  fun_cases patternOf name <;> simp [slash_mem_remains]

/-- A name leaves something. -/
theorem remains_ne_nil {name : Text} (h : name ≠ []) : remains name ≠ [] := by
  fun_cases remains name with
  | case1 => exact absurd rfl h
  | case2 => simp
  | case3 c r => split <;> simp

theorem patternOf_ne_nil {name : Text} (h : name ≠ []) : patternOf name ≠ [] := by
  fun_cases patternOf name with
  | case1 => exact absurd rfl h
  | case2 c r => simp
  | case3 c r => exact remains_ne_nil h

/-- A pattern without slashes names something. -/
theorem namesNothing_of_slash_not_mem {pattern : Text} (hne : pattern ≠ []) (h : '/' ∉ pattern) :
    namesNothing pattern = false := by
  have hwhole := withoutAnyDepth_of_cuts (Cuts.ofText_of_slash_not_mem h)
  obtain ⟨c, r, rfl⟩ := List.exists_cons_of_ne_nil hne
  have hc : c ≠ '/' := fun heq => h (heq ▸ List.mem_cons_self)
  rw [namesNothing, hwhole, List.all_cons, beq_false_of_ne hc, Bool.false_and]

/-- A quoted name begins with no mark that says something about the line. -/
theorem exists_softened_cons (c : Char) (r : Text) :
    ∃ d t, softened (c :: r) = d :: t ∧ d ≠ '!' ∧ d ≠ '#' := by
  by_cases hlast : c = ' ' ∧ r = []
  · obtain ⟨rfl, rfl⟩ := hlast
    exact ⟨' ', [], rfl, by decide, by decide⟩
  · by_cases hmark : isMark c = true
    · exact ⟨'\\', c :: softened r, by simp [softened_cons hlast, hmark], by decide, by decide⟩
    · have hfront : c ≠ '!' ∧ c ≠ '#' := by
        constructor <;>
        · rintro rfl
          exact hmark (by decide)
      exact ⟨c, softened r, by simp [softened_cons hlast, hmark], hfront⟩

/-- **A quoted name is read** as a pattern that excludes. -/
theorem parse_quoteName {name : Text} (hne : name ≠ []) (hslash : '/' ∉ name)
    (hend : ∀ c ∈ name.getLast?, Text.isBlank c = true → c = ' ') (directory : Option Text) :
    parse (quoteName name) directory =
      some ⟨.excludes, patternOf name, directory.filter (· ≠ [])⟩ := by
  have hnames : namesNothing (patternOf name) = false :=
    namesNothing_of_slash_not_mem (patternOf_ne_nil hne) (mt slash_mem_patternOf.mp hslash)
  have hpattern := halveBackslashes_dropQuote_softened name
  obtain ⟨c, r, rfl⟩ := List.exists_cons_of_ne_nil hne
  obtain ⟨d, t, hsoftened, hmark, hcomment⟩ := exists_softened_cons c r
  have hsense : readSense (d :: t) = (.excludes, d :: t) := by
    simp [readSense, hmark]
  rw [hsoftened] at hpattern
  simp [parse, stripLine_quoteName hend, hsoftened, hcomment, hsense, hpattern, hnames]

/-! ## its rule -/

/-- Quoting neither adds nor takes brackets. -/
theorem filter_remains (name : Text) :
    (remains name).filter (fun c => c = '[' || c = ']') = name.filter fun c => c = '[' || c = ']' := by
  fun_induction remains name with
  | case1 => rfl
  | case2 => rfl
  | case3 c r hlast ih =>
      rw [List.filter_append, ih, List.filter_cons]
      split <;> split <;> simp_all

theorem filter_patternOf (name : Text) :
    (patternOf name).filter (fun c => c = '[' || c = ']') =
      name.filter fun c => c = '[' || c = ']' := by
  fun_cases patternOf name with
  | case1 => rfl
  | case2 c r => simp [List.filter_cons, filter_remains]
  | case3 c r => exact filter_remains (c :: r)

/-- A name without an opening bracket before a closing one makes no group. -/
theorem not_hasGroup_patternOf {name : Text} (h : ¬ ['[', ']'].Sublist name) :
    ¬ HasGroup (patternOf name) := by
  intro hgroup
  have hbrackets := (sublist_of_hasGroup hgroup).filter fun c => c = '[' || c = ']'
  rw [filter_patternOf] at hbrackets
  exact h (hbrackets.trans List.filter_sublist)

/-- **A quoted name has one rule**, where no bracket of it closes. -/
theorem rulesOfLine_quoteName {name : Text} (hne : name ≠ []) (hslash : '/' ∉ name)
    (hend : ∀ c ∈ name.getLast?, Text.isBlank c = true → c = ' ')
    (hunclosed : ¬ ['[', ']'].Sublist name) :
    rulesOfLine (quoteName name) none = [⟨.excludes, patternOf name⟩] := by
  have hvariants : expandAnyDepth (patternOf name) = [patternOf name] :=
    expandAnyDepth_of_slash_not_mem (mt slash_mem_patternOf.mp hslash)
  have hgroups : expandGroups (patternOf name) = [patternOf name] :=
    expandGroups_of_not_hasGroup (not_hasGroup_patternOf hunclosed)
  rw [rulesOfLine, parse_quoteName hne hslash hend]
  simp [rules, patterns, relativePattern, under, hvariants, hgroups, patternOf_ne_nil hne]

/-! ## how the rule is read -/

/-- What follows a backslash of a name is not changed by it where backslashes quote:
there is nothing, or something that is quoted by a backslash of its own and stands
for itself without. -/
def Shielded (after : Text) : Prop :=
  after = [] ∨ ∃ c r, after = c :: r ∧ (c = ']' ∨ c = '!' ∨ c = '#' ∨ c = ' ' ∧ r ≠ [])

/-- Every wildcard is quoted. -/
theorem isMark_of_isWild {c : Char} (h : Sign.isWild c = true) : isMark c = true := by
  simp [Sign.isWild] at h
  obtain rfl | rfl | rfl := h <;> decide

/-- A rule reads what is left of a quoted character as that character. -/
theorem readQuoted_remains_cons {c : Char} (hc : c ≠ '\\') (r : Text) :
    Sign.readQuoted (remains (c :: r)) = .literal c :: Sign.readQuoted (remains r) := by
  by_cases hlast : c = ' ' ∧ r = []
  · obtain ⟨rfl, rfl⟩ := hlast
    rfl
  · rw [remains_cons hlast]
    by_cases hmark : isMark c = true
    · simp [hmark, hc, Sign.readQuoted]
    · have hwild : Sign.isWild c = false := by
        rw [Bool.eq_false_iff]
        exact fun h => hmark (isMark_of_isWild h)
      simp [hmark, Sign.readQuoted_cons hc, Sign.plain_of_not_isWild hwild]

/-- Where backslashes quote, a quoted name reads as itself. -/
theorem readQuoted_remains {name : Text}
    (h : ∀ after, ('\\' :: after) <:+ name → Shielded after) :
    Sign.readQuoted (remains name) = name.map .literal := by
  induction name with
  | nil => rfl
  | cons c r ih =>
      have hr : ∀ after, ('\\' :: after) <:+ r → Shielded after :=
        fun after hafter => h after (hafter.trans (List.suffix_cons c r))
      have hread := ih hr
      by_cases hc : c = '\\'
      · subst hc
        obtain rfl | ⟨d, r', rfl, hd⟩ := h r List.suffix_rfl
        · rfl
        · -- The backslash of the name quotes the one in front of what follows it.
          have hmark : isMark d = true ∧ d ≠ '\\' ∧ Sign.isWild d = false := by
            obtain rfl | rfl | rfl | ⟨rfl, -⟩ := hd <;> decide
          have hlast : ¬ (d = ' ' ∧ r' = []) := by
            rintro ⟨rfl, rfl⟩
            simp at hd
          have hremains : remains (d :: r') = '\\' :: d :: remains r' := by
            simp [remains_cons hlast, hmark]
          have hwhole : remains ('\\' :: d :: r') = '\\' :: remains (d :: r') := by
            rw [remains_cons (by simp)]
            rfl
          rw [hremains, Sign.readQuoted, List.map_cons, List.cons.injEq] at hread
          rw [hwhole, hremains, Sign.readQuoted, Sign.readQuoted_cons hmark.2.1,
            Sign.plain_of_not_isWild hmark.2.2, hread.2]
          rfl
      · rw [readQuoted_remains_cons hc, hread, List.map_cons]

/-- Elsewhere the pattern is the name, if it leaves no quotes. -/
theorem remains_eq {name : Text} (hwild : isWildPattern name = false) (hbracket : ']' ∉ name)
    (hmark : '!' ∉ name) (hcomment : '#' ∉ name) (hspace : ' ' ∉ name.dropLast) :
    remains name = name := by
  fun_induction remains name with
  | case1 => rfl
  | case2 => rfl
  | case3 c r hlast ih =>
      rw [isWildPattern, List.any_cons, Bool.or_eq_false_iff] at hwild
      have hspace' : c ≠ ' ' ∧ ' ' ∉ r.dropLast := by
        cases r with
        | nil => exact ⟨fun hc => hlast hc rfl, by simp⟩
        | cons d r =>
            rw [List.dropLast_cons_cons, List.mem_cons, not_or] at hspace
            exact ⟨Ne.symm hspace.1, hspace.2⟩
      rw [List.mem_cons, not_or] at hbracket hmark hcomment
      have hc : (isMark c && c != '\\') = false := by
        simp [isMark, Sign.isWild] at hwild ⊢
        grind
      simp [hc, ih hwild.2 hbracket.2 hmark.2 hcomment.2 hspace'.2]

/-- Quoting leaves a wildcard character where there was one, so the rule is read as a
wildcard pattern as before. -/
theorem isWildPattern_remains (name : Text) : isWildPattern (remains name) = isWildPattern name := by
  fun_induction remains name with
  | case1 => rfl
  | case2 => rfl
  | case3 c r hlast ih =>
      rw [isWildPattern] at ih ⊢
      rw [List.any_append, ih, isWildPattern, isWildPattern, List.any_cons]
      split <;> simp [Sign.isWild]

theorem isWildPattern_patternOf (name : Text) :
    isWildPattern (patternOf name) = isWildPattern name := by
  fun_cases patternOf name with
  | case1 => rfl
  | case2 c r =>
      have hr := isWildPattern_remains r
      rw [isWildPattern] at hr
      rw [isWildPattern, isWildPattern, List.any_cons, List.any_cons, hr, isWildPattern]
  | case3 c r => exact isWildPattern_remains (c :: r)

/-- A name in which nothing needs a quote is its own pattern. -/
theorem patternOf_eq {name : Text} (hwild : isWildPattern name = false) (hbracket : ']' ∉ name)
    (hmark : '!' ∉ name.tail) (hcomment : '#' ∉ name.tail) (hspace : ' ' ∉ name.dropLast) :
    patternOf name = name := by
  fun_cases patternOf name with
  | case1 => rfl
  | case2 c r =>
      rw [isWildPattern, List.any_cons, Bool.or_eq_false_iff] at hwild
      have hspace' : ' ' ∉ r.dropLast := by
        cases r with
        | nil => simp
        | cons d r => exact fun hmem => hspace (List.mem_cons_of_mem c hmem)
      rw [remains_eq hwild.2 (fun hmem => hbracket (List.mem_cons_of_mem c hmem)) hmark hcomment
        hspace']
  | case3 c r hc =>
      have hfront : '!' ≠ c ∧ '#' ≠ c :=
        ⟨fun heq => hc (.inl heq.symm), fun heq => hc (.inr heq.symm)⟩
      have hmark' : '!' ∉ c :: r := by simpa [hfront] using hmark
      have hcomment' : '#' ∉ c :: r := by simpa [hfront] using hcomment
      exact remains_eq hwild hbracket hmark' hcomment' hspace

/-- No quote of a name is lost that the reader of its rule needs, and none is left that
the reader takes for a character. -/
structure QuotesHold (name : Text) : Prop where
  ending : ∀ c ∈ name.getLast?, Text.isBlank c = true → c = ' '
  unclosed : ¬ ['[', ']'].Sublist name
  shielded : isWildPattern name = true → ∀ after, ('\\' :: after) <:+ name → Shielded after
  bare : isWildPattern name = false →
    ']' ∉ name ∧ '!' ∉ name.tail ∧ '#' ∉ name.tail ∧ ' ' ∉ name.dropLast

/-- **Read back**: where the quotes hold, the rule is read as the characters of the
name. -/
theorem signsOf_patternOf {name : Text} (h : QuotesHold name) :
    signsOf (patternOf name) = name.map .literal := by
  rw [signsOf, isWildPattern_patternOf]
  cases hwild : isWildPattern name with
  | true =>
      have hshielded := h.shielded hwild
      rw [Sign.read, if_pos rfl]
      fun_cases patternOf name with
      | case1 => rfl
      | case2 c r hc =>
          have hplain : c ≠ '\\' ∧ Sign.isWild c = false := by
            obtain rfl | rfl := hc <;> decide
          have hr := readQuoted_remains fun after hafter =>
            hshielded after (hafter.trans (List.suffix_cons c r))
          rw [Sign.readQuoted_cons hplain.1, Sign.plain_of_not_isWild hplain.2, hr, List.map_cons]
      | case3 c r => exact readQuoted_remains hshielded
  | false =>
      obtain ⟨hbracket, hmark, hcomment, hspace⟩ := h.bare hwild
      rw [patternOf_eq hwild hbracket hmark hcomment hspace]
      rfl

/-! ## names -/

/-- **A line that quotes a name denotes it**: blanks at the end of the name that are no
spaces do not count, and where the quotes hold, the line has one rule, which excludes
and is read as the name. -/
theorem rulesOfLine_quoteName_denotes {name : Text} (hne : name ≠ []) (hslash : '/' ∉ name) :
    (∀ b, Text.isBlank b = true → b ≠ ' ' → ∀ directory,
      rulesOfLine (quoteName (name ++ [b])) directory = rulesOfLine (quoteName name) directory) ∧
    (QuotesHold name → ∃ pattern, rulesOfLine (quoteName name) none = [⟨.excludes, pattern⟩] ∧
      signsOf pattern = name.map .literal) := by
  constructor
  · intro b hblank hspace directory
    have hmark : isMark b = false := by
      rw [Bool.eq_false_iff]
      intro hmark
      have hblank' : b = ' ' ∨ Text.isBlank b = false := by
        simp [isMark] at hmark
        obtain rfl | rfl | rfl | rfl | rfl | rfl | rfl | rfl := hmark <;> decide
      simp_all
    have hquoted : quoteName (name ++ [b]) = quoteName name ++ [b] := by
      simp [quoteName, hmark]
    rw [rulesOfLine, rulesOfLine, parse, parse, hquoted, stripLine_concat_blank hblank hspace]
  · intro h
    exact ⟨patternOf name, rulesOfLine_quoteName hne hslash h.ending h.unclosed,
      signsOf_patternOf h⟩

/-- A name of many marks, with a wildcard: all quotes are left, and all are read. -/
theorem rulesOfLine_quoteName_denotes_starred :
    "what! a *new* [1".toList ≠ [] ∧ '/' ∉ "what! a *new* [1".toList ∧
      QuotesHold "what! a *new* [1".toList ∧
      ∃ pattern, rulesOfLine "what\\!\\ a\\ \\*new\\*\\ \\[1" none = [⟨.excludes, pattern⟩] ∧
        signsOf pattern = "what! a *new* [1".toList.map .literal := by
  have hne : "what! a *new* [1".toList ≠ [] := by decide
  have hslash : '/' ∉ "what! a *new* [1".toList := by decide
  have hholds : QuotesHold "what! a *new* [1".toList := by
    refine ⟨?_, by decide, ?_, ?_⟩
    · rintro _ ⟨⟩ hblank
      exact absurd hblank (by decide)
    · intro _ after hafter
      exact absurd (hafter.subset List.mem_cons_self) (by decide)
    · intro hwild
      exact absurd hwild (by decide)
  exact ⟨hne, hslash, hholds, (rulesOfLine_quoteName_denotes hne hslash).2 hholds⟩

/-- A tab at the end of a name is taken for a blank at the end of the line. -/
theorem tab_stripped_from_name :
    "a\t".toList ≠ [] ∧ '/' ∉ "a\t".toList ∧
      rulesOfLine (quoteName "a\t") none = [⟨.excludes, "a"⟩] ∧
      ¬ ∃ pattern, rulesOfLine (quoteName "a\t") none = [⟨.excludes, pattern⟩] ∧
        signsOf pattern = "a\t".toList.map .literal := by
  have hrules : rulesOfLine (quoteName "a\t") none = [⟨.excludes, "a"⟩] := by decide
  refine ⟨by decide, by decide, hrules, ?_⟩
  rintro ⟨pattern, hpattern, hsigns⟩
  rw [hrules] at hpattern
  cases hpattern
  revert hsigns
  decide

end IgnoreRule

end TreeSync
