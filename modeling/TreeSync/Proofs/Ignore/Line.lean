import TreeSync.Ignore.Line

/-!
# TreeSync.Proofs.Ignore.Line

What reading makes of a line.

1. Reading only ever leaves characters out: the pattern is put together of
   characters of the line, in their order (`sublist_of_parse`).
2. Without blanks and backslashes a line is read by its first character alone: `!`
   gives it its sense (`Sense.lineMark`), and all the rest of it is the pattern
   (`parse_of_unescaped`).
-/

namespace TreeSync

/-- What a line of either sense begins with. -/
def Sense.lineMark : Sense → Text
  | .includes => ['!']
  | .excludes => []

namespace IgnoreRule

open Pattern

/-! ## what reading leaves of a line -/

theorem stripLine_sublist (line : Text) : (stripLine line).Sublist line := by
  have hkept : Text.trimEnd line <+: line := Text.dropEndWhile_prefix Text.isBlank line
  obtain ⟨removed, hline⟩ := hkept
  have hremoved : (Text.trimEnd line ++ removed).drop (Text.trimEnd line).length = removed :=
    List.drop_left
  rw [hline] at hremoved
  rw [stripLine, hremoved]
  split
  · next hspace =>
      -- The space that stays is the first of the blanks that were removed.
      rw [Bool.and_eq_true, decide_eq_true_eq, List.head?_eq_some_iff] at hspace
      obtain ⟨⟨rest, rfl⟩, -⟩ := hspace
      have hspace : [' '].Sublist (' ' :: rest) := by simp
      have hsublist := (List.dropLast_sublist (Text.trimEnd line)).append hspace
      rwa [hline] at hsublist
  · exact List.IsPrefix.sublist ⟨removed, hline⟩

/-- A blank at the end that is no space is taken off, and what is left is stripped. -/
theorem stripLine_concat_blank {b : Char} (hblank : Text.isBlank b = true) (hspace : b ≠ ' ')
    (line : Text) : stripLine (line ++ [b]) = stripLine line := by
  have hkept : Text.trimEnd (line ++ [b]) = Text.trimEnd line :=
    Text.dropEndWhile_append (by simpa using hblank)
  have hprefix : Text.trimEnd line <+: line := Text.dropEndWhile_prefix Text.isBlank line
  obtain ⟨removed, hline⟩ := hprefix
  have hdrop : ∀ more, (line ++ more).drop (Text.trimEnd line).length = removed ++ more := by
    intro more
    have hwhole : line ++ more = Text.trimEnd line ++ (removed ++ more) := by
      rw [← List.append_assoc, hline]
    rw [hwhole, List.drop_left]
  have hhere := hdrop []
  rw [List.append_nil, List.append_nil] at hhere
  have hhead : (removed ++ [b]).head? = some ' ' ↔ removed.head? = some ' ' := by
    cases removed <;> simp [hspace]
  simp only [stripLine, hkept, hdrop, hhere, hhead]

/-- A space at the end stays where a backslash quotes it, which itself is not quoted. -/
theorem stripLine_concat_quoted_space {line : Text}
    (h : Text.countEndWhile (· == '\\') line % 2 = 0) :
    stripLine (line ++ ['\\', ' ']) = line ++ [' '] := by
  have hsplit : line ++ ['\\', ' '] = (line ++ ['\\']) ++ [' '] := List.append_cons line '\\' [' ']
  have hkept : Text.trimEnd ((line ++ ['\\']) ++ [' ']) = line ++ ['\\'] := by
    have hspace : ∀ c ∈ [' '], Text.isBlank c = true := List.forall_mem_singleton.mpr (by decide)
    rw [Text.trimEnd, Text.dropEndWhile_append hspace, Text.dropEndWhile_concat (by decide)]
  have hodd : Text.countEndWhile (· == '\\') (line ++ ['\\']) % 2 = 1 := by
    rw [Text.countEndWhile_concat_self]
    omega
  rw [hsplit, stripLine, hkept, List.drop_left, hodd]
  simp

/-- A line that ends in no blank is stripped already. -/
theorem stripLine_concat {c : Char} (hblank : Text.isBlank c = false) (line : Text) :
    stripLine (line ++ [c]) = line ++ [c] := by
  rw [stripLine, Text.trimEnd, Text.dropEndWhile_concat hblank, List.drop_length]
  rfl

theorem dropQuote_sublist (t : Text) : (dropQuote t).Sublist t := by
  unfold dropQuote
  split <;> simp

theorem halveBackslashes_sublist (t : Text) : (halveBackslashes t).Sublist t := by
  induction t using halveBackslashes.induct with
  | case1 => simp [halveBackslashes]
  | case2 r ih => simpa [halveBackslashes] using ih.trans (List.sublist_cons_self '\\' r)
  | case3 c r hc ih =>
      rw [halveBackslashes]
      · exact ih.cons_cons c
      · exact hc

theorem readSense_sublist (t : Text) : (readSense t).2.Sublist t := by
  unfold readSense
  split <;> simp

/-- **The pattern of a line** is put together of characters of the line, in their order. -/
theorem sublist_of_parse {line : Text} {dir : Option Text} {rule : IgnoreRule}
    (h : parse line dir = some rule) : rule.pattern.Sublist line := by
  simp only [parse] at h
  split at h
  · contradiction
  · split at h
    · contradiction
    · cases h
      exact (halveBackslashes_sublist _).trans <| (dropQuote_sublist _).trans <|
        (readSense_sublist _).trans (stripLine_sublist line)

/-! ## lines with nothing to unescape -/

theorem stripLine_of_not_blank {line : Text} (h : ∀ c ∈ line, Text.isBlank c = false) :
    stripLine line = line := by
  obtain rfl | ⟨front, c, rfl⟩ := List.eq_nil_or_concat line
  · rfl
  · rw [List.concat_eq_append] at h ⊢
    exact stripLine_concat (h c (List.mem_append_right front List.mem_cons_self)) front

theorem dropQuote_of_not_mem {t : Text} (h : '\\' ∉ t) : dropQuote t = t := by
  unfold dropQuote
  split
  · exact absurd List.mem_cons_self h
  · exact absurd List.mem_cons_self h
  · rfl

theorem halveBackslashes_cons {c : Char} (hc : c ≠ '\\') (t : Text) :
    halveBackslashes (c :: t) = c :: halveBackslashes t := by
  rw [halveBackslashes]
  intro r h
  exact absurd h hc

theorem halveBackslashes_of_not_mem {t : Text} (h : '\\' ∉ t) : halveBackslashes t = t := by
  induction t with
  | nil => rfl
  | cons c t ih =>
      rw [List.mem_cons, not_or] at h
      rw [halveBackslashes_cons (Ne.symm h.1), ih h.2]

/-- The mark gives the sense of a line whose pattern does not begin with one. -/
theorem readSense_lineMark_append (sense : Sense) {pattern : Text}
    (h : pattern.head? ≠ some '!') : readSense (sense.lineMark ++ pattern) = (sense, pattern) := by
  cases sense with
  | includes => rfl
  | excludes =>
      rw [Sense.lineMark, List.nil_append]
      unfold readSense
      split
      · exact absurd rfl h
      · rfl

/-- **Lines without blanks and backslashes** are a mark and a pattern, which is
read as it stands. -/
theorem parse_of_unescaped (sense : Sense) {pattern : Text}
    (hblank : ∀ c ∈ pattern, Text.isBlank c = false) (hquote : '\\' ∉ pattern)
    (hcomment : pattern.head? ≠ some '#') (hmark : pattern.head? ≠ some '!')
    (hname : namesNothing pattern = false) (directory : Option Text) :
    parse (sense.lineMark ++ pattern) directory =
      some ⟨sense, pattern, directory.filter (· ≠ [])⟩ := by
  have hne : pattern ≠ [] := by
    intro heq
    subst heq
    exact absurd hname (by decide)
  have hstrip : stripLine (sense.lineMark ++ pattern) = sense.lineMark ++ pattern := by
    apply stripLine_of_not_blank
    intro c hc
    obtain hc | hc := List.mem_append.mp hc
    · have hmark : sense.lineMark.all (Text.isBlank · = false) = true := by
        cases sense <;> decide
      exact of_decide_eq_true (List.all_eq_true.mp hmark c hc)
    · exact hblank c hc
  have hsays : ¬ (decide (sense.lineMark ++ pattern = []) ||
      decide ((sense.lineMark ++ pattern).head? = some '#')) = true := by
    cases sense <;> simp [Sense.lineMark, hne, hcomment]
  have hpattern : halveBackslashes (dropQuote pattern) = pattern := by
    rw [dropQuote_of_not_mem hquote, halveBackslashes_of_not_mem hquote]
  simp only [parse, hstrip, if_neg hsays, readSense_lineMark_append sense hmark, hpattern,
    hname, Bool.false_eq_true, if_false]

end IgnoreRule

end TreeSync
