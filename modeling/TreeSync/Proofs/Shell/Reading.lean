import TreeSync.Shell.Word

/-!
# TreeSync.Proofs.Shell.Reading

How a POSIX shell reads the words of a command line.

1. Blanks separate words, and a line feed ends the command.
2. A backslash quotes the next character, and single quotes all characters up to
   the next single quote.
3. Between double quotes a backslash quotes only what would be special there, and
   `$@` stands for the arguments of the script: each is a word of its own, but the
   first goes on with the word that has begun, and the last is gone on with.
4. Quotes that hold nothing make a word; arguments that are none do not.

Where the shell would do something else than take words (expand, redirect, run a
second command, pass over a comment) nothing is read.  Tildes and braces are
characters like any other.

A text that is one word, with its quotes taken off (`unquote?`), is read as that word in
every line (`readWords_append_of_unquote?`).  `Quotes` says that some way of quoting
always gives such a text; the quoting that the program is run with does (`quotes_quote`).
-/

namespace TreeSync.Shell

/-! ## reading -/

/-- Where a character stands. -/
inductive Place
  | bare
  | single
  | double
  deriving DecidableEq, Repr

/-- A word with more text at its end; a word that has not begun begins with it. -/
def extend (begun : Option Text) (t : Text) : Option Text := some (begun.getD [] ++ t)

/-- The characters that are no part of a word unless they are quoted. -/
def isActive (c : Char) : Bool := "|&;<>()$`\\*?[".toList.contains c

/-- The characters that a backslash quotes between double quotes. -/
def isQuotable (c : Char) : Bool := "$`\"\\".toList.contains c

/-- Read words up to the end of the line: the words, and what follows the line.
`begun` is the word that is being read. -/
@[simp]
def readWords (arguments : List Text) : Place → Option Text → Text → Option (List Text × Text)
  | .bare, begun, [] => some (begun.toList, [])
  | .bare, begun, '\\' :: c :: r =>
      readWords arguments .bare (if c = '\n' then begun else extend begun [c]) r
  | .bare, begun, '"' :: '"' :: r => readWords arguments .bare (extend begun []) r
  | .bare, begun, c :: r =>
      if c = '\n' then some (begun.toList, r)
      else if c = ' ' ∨ c = '\t' then
        (readWords arguments .bare none r).map fun (words, rest) => (begun.toList ++ words, rest)
      else if c = '\'' then readWords arguments .single (extend begun []) r
      else if c = '"' then readWords arguments .double begun r
      else if isActive c ∨ (c = '#' ∧ begun = none) then none
      else readWords arguments .bare (extend begun [c]) r
  | .single, _, [] => none
  | .single, begun, c :: r =>
      if c = '\'' then readWords arguments .bare begun r
      else readWords arguments .single (extend begun [c]) r
  | .double, _, [] => none
  | .double, begun, '$' :: '@' :: r =>
      match arguments with
      | [] => readWords arguments .double begun r
      | first :: others =>
          let joined := (begun.getD [] ++ first) :: others
          (readWords arguments .double joined.getLast? r).map fun (words, rest) =>
            (joined.dropLast ++ words, rest)
  | .double, begun, '\\' :: c :: r =>
      readWords arguments .double
        (if c = '\n' then begun
         else if isQuotable c then extend begun [c]
         else extend begun ['\\', c]) r
  | .double, begun, c :: r =>
      if c = '"' then readWords arguments .bare begun r
      else if isQuotable c then none
      else readWords arguments .double (extend begun [c]) r

/-- The word that a text is, its quotes taken off.  A text is no word if a blank or the end of
a line in it ends one, if a quote is left open, or if the shell would do something else. -/
@[simp]
def unquote? : Place → Option Text → Text → Option Text
  | .bare, begun, [] => begun
  | .bare, begun, '\\' :: c :: r =>
      unquote? .bare (if c = '\n' then begun else extend begun [c]) r
  | .bare, begun, '"' :: '"' :: r => unquote? .bare (extend begun []) r
  | .bare, begun, c :: r =>
      if c = '\n' ∨ c = ' ' ∨ c = '\t' then none
      else if c = '\'' then unquote? .single (extend begun []) r
      else if c = '"' then unquote? .double begun r
      else if isActive c ∨ (c = '#' ∧ begun = none) then none
      else unquote? .bare (extend begun [c]) r
  | .single, _, [] => none
  | .single, begun, c :: r =>
      if c = '\'' then unquote? .bare begun r else unquote? .single (extend begun [c]) r
  | .double, _, [] => none
  | .double, begun, '\\' :: c :: r =>
      unquote? .double
        (if c = '\n' then begun
         else if isQuotable c then extend begun [c]
         else extend begun ['\\', c]) r
  | .double, begun, c :: r =>
      if c = '"' then unquote? .bare begun r
      else if isQuotable c then none
      else unquote? .double (extend begun [c]) r

/-- **What is relied on of quoting**: a quoted word is one word for a shell, and is that
word when its quotes are taken off. -/
structure Quotes (quote : Text → Text) : Prop where
  unquote?_quote : ∀ word, unquote? .bare none (quote word) = some word

variable {arguments : List Text}

/-! ## words in a line -/

/-- A character that neither ends a word nor has a meaning of its own. -/
theorem readWords_bare {begun : Option Text} {c : Char} (hends : ¬ (c = '\n' ∨ c = ' ' ∨ c = '\t'))
    (hsingle : c ≠ '\'') (hdouble : c ≠ '"') (hactive : ¬ (isActive c ∨ (c = '#' ∧ begun = none)))
    (r : Text) :
    readWords arguments .bare begun (c :: r) = readWords arguments .bare (extend begun [c]) r := by
  obtain ⟨hfeed, hblank⟩ := not_or.mp hends
  rw [readWords]
  · rw [if_neg hfeed, if_neg hblank, if_neg hsingle, if_neg hdouble, if_neg hactive]
  · rintro _ _ rfl
    exact absurd (.inl (by decide)) hactive
  · exact fun _ hc => absurd hc hdouble

/-- **A text that is one word** is read as that word, whatever follows it. -/
theorem readWords_append_of_unquote? {place : Place} {begun : Option Text} {t word : Text}
    (h : unquote? place begun t = some word) (rest : Text) :
    readWords arguments place begun (t ++ rest) = readWords arguments .bare (some word) rest := by
  induction place, begun, t using unquote?.induct with
  | case1 begun =>
      rw [unquote?] at h
      rw [h, List.nil_append]
  | case2 begun c r ih | case3 begun r ih =>
      rw [unquote?] at h
      simpa only [List.cons_append, readWords] using ih h
  | case4 begun c r hescape hempty hends =>
      rw [unquote?, if_pos hends] at h
      · contradiction
      · exact hescape
      · exact hempty
  | case5 begun r _ _ _ ih =>
      simp only [unquote?] at h
      simpa [readWords] using ih h
  | case6 begun r _ hempty _ _ ih =>
      -- Behind a double quote that opens there is more than the one that closes it at once.
      cases r with
      | nil => simp [unquote?] at h
      | cons c r =>
          have hc : c ≠ '"' := by
            rintro rfl
            exact hempty r rfl rfl
          have hword : unquote? .double begun (c :: r) = some word := by simpa [unquote?] using h
          simpa [readWords, hc] using ih hword
  | case7 begun c r hescape hempty hends hsingle hdouble hactive =>
      rw [unquote?, if_neg hends, if_neg hsingle, if_neg hdouble, if_pos hactive] at h
      · contradiction
      · exact hescape
      · exact hempty
  | case8 begun c r hescape hempty hends hsingle hdouble hactive ih =>
      rw [unquote?, if_neg hends, if_neg hsingle, if_neg hdouble, if_neg hactive] at h
      · rw [List.cons_append, readWords_bare hends hsingle hdouble hactive, ih h]
      · exact hescape
      · exact hempty
  | case9 begun | case12 begun => simp [unquote?] at h
  | case10 begun r ih =>
      simp only [unquote?, if_true] at h
      simpa [readWords] using ih h
  | case11 begun c r hne ih =>
      simp only [unquote?, hne, if_false] at h
      simpa [readWords, hne] using ih h
  | case13 begun c r ih =>
      rw [unquote?] at h
      simpa only [List.cons_append, readWords] using ih h
  | case14 begun r _ ih =>
      simp only [unquote?, if_true] at h
      simpa [readWords] using ih h
  | case15 begun c r hescape hne hactive =>
      rw [unquote?, if_neg hne, if_pos hactive] at h
      · contradiction
      · exact hescape
  | case16 begun c r hescape hne hactive ih =>
      rw [unquote?, if_neg hne, if_neg hactive] at h
      · have hquotable : c ≠ '$' ∧ c ≠ '\\' := by
          constructor <;> rintro rfl <;> exact absurd rfl hactive
        simpa [readWords, hne, hactive, hquotable] using ih h
      · exact hescape

/-- A blank ends a word. -/
theorem readWords_blank (begun : Option Text) (rest : Text) :
    readWords arguments .bare begun (' ' :: rest) =
      (readWords arguments .bare none rest).map fun (words, after) =>
        (begun.toList ++ words, after) := by
  simp [readWords]

/-- **The words of a line** are those that its texts are, followed by those after them. -/
theorem readWords_join_append {texts words : List Text}
    (h : texts.map (unquote? .bare none) = words.map some) (rest : Text) :
    readWords arguments .bare none (Text.joinWith [' '] texts ++ ' ' :: rest) =
      (readWords arguments .bare none rest).map fun (more, after) => (words ++ more, after) := by
  induction texts generalizing words with
  | nil =>
      obtain rfl : words = [] := by simpa using h
      simp [Text.joinWith]
  | cons t texts ih =>
      cases words with
      | nil => simp at h
      | cons word words =>
          simp only [List.map_cons, List.cons.injEq] at h
          cases texts with
          | nil =>
              obtain rfl : words = [] := by simpa using h.2
              simp [Text.joinWith, readWords_append_of_unquote? h.1]
          | cons next texts =>
              have hjoin : Text.joinWith [' '] (t :: next :: texts) ++ ' ' :: rest =
                  t ++ ' ' :: (Text.joinWith [' '] (next :: texts) ++ ' ' :: rest) := by
                simp [Text.joinWith]
              rw [hjoin, readWords_append_of_unquote? h.1, readWords_blank, ih h.2]
              simp [Function.comp_def]

/-- The arguments of the script, and the end of the line. -/
theorem readWords_arguments : readWords arguments .bare none "\"$@\"\n".toList =
    some (arguments, []) := by
  cases arguments with
  | nil => simp [readWords]
  | cons first others =>
      have hlast : (first :: others).dropLast ++ (first :: others).getLast?.toList =
          first :: others := by
        rw [List.getLast?_eq_some_getLast (List.cons_ne_nil first others)]
        exact List.dropLast_concat_getLast (List.cons_ne_nil first others)
      simpa [readWords] using hlast

/-! ## the quoting that the program is run with -/

/-- What a shell may read as something else than itself is special. -/
theorem of_not_isSpecial {c : Char} (h : isSpecial c = false) :
    ¬ (c = '\n' ∨ c = ' ' ∨ c = '\t') ∧ c ≠ '\'' ∧ c ≠ '"' ∧ c ≠ '\\' ∧ c ≠ '#' ∧
      isActive c = false := by
  simp [isSpecial] at h
  simp [isActive, h]

theorem unquote?_bare {c : Char} (h : isSpecial c = false) (begun : Option Text) (r : Text) :
    unquote? .bare begun (c :: r) = unquote? .bare (extend begun [c]) r := by
  obtain ⟨hends, hsingle, hdouble, hslash, hcomment, hactive⟩ := of_not_isSpecial h
  have hinner : ¬ (isActive c = true ∨ c = '#' ∧ begun = none) := by simp [hactive, hcomment]
  rw [unquote?, if_neg hends, if_neg hsingle, if_neg hdouble, if_neg hinner]
  · exact fun _ _ hc => absurd hc hslash
  · exact fun _ hc => absurd hc hdouble

/-- Characters that are not special are taken into the word. -/
theorem unquote?_plain {word : Text} (h : word.any isSpecial = false) (t : Text) :
    unquote? .bare (some t) word = some (t ++ word) := by
  induction word generalizing t with
  | nil => rw [unquote?, List.append_nil]
  | cons c word ih =>
      simp only [List.any_cons, Bool.or_eq_false_iff] at h
      rw [unquote?_bare h.1, extend, Option.getD_some, ih h.2, List.append_assoc,
        List.singleton_append]

/-- Between single quotes every character is taken into the word, a single quote
by leaving the quotes for it. -/
theorem unquote?_single (word t : Text) :
    unquote? .single (some t)
        ((word.flatMap fun c => if c = '\'' then "'\\''".toList else [c]) ++ ['\'']) =
      some (t ++ word) := by
  induction word generalizing t with
  | nil => simp [unquote?]
  | cons c word ih =>
      rw [List.flatMap_cons, List.append_assoc]
      by_cases hc : c = '\''
      · subst hc
        simpa [unquote?, extend] using ih (t ++ ['\''])
      · simpa [unquote?, extend, hc] using ih (t ++ [c])

/-- **A quoted word is one word**, and that word when its quotes are taken off. -/
theorem quotes_quote : Quotes quote where
  unquote?_quote word := by
    unfold quote
    split
    · next h => simp [h, unquote?, extend]
    · split
      · have hread := unquote?_single word []
        rw [List.nil_append] at hread
        simpa [singleQuoted, unquote?, extend] using hread
      · next hne hplain =>
          cases word with
          | nil => exact absurd rfl hne
          | cons c word =>
              rw [Bool.not_eq_true, List.any_cons, Bool.or_eq_false_iff] at hplain
              rw [unquote?_bare hplain.1, extend]
              exact unquote?_plain hplain.2 [c]

end TreeSync.Shell
