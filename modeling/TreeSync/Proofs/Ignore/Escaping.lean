import TreeSync.Proofs.Ignore.Line
import Mathlib.Data.List.DropRight
import Mathlib.Data.List.Induction

/-!
# TreeSync.Proofs.Ignore.Escaping

Patterns that are escaped to be read as they stand.

A pattern is escaped (`escape`) in three places, each of which some rule of reading
undoes:

1. every backslash is doubled, as two of them are read as one;
2. a first `!` or `#` gets a backslash, which reading takes off;
3. a space at the end gets one, so that it is not stripped with its backslash.

The first and the third meet at the end of a line, where reading counts backslashes to
tell whether the last one quotes.  Doubled backslashes come in pairs, so only the one of
the third rule is left over (`countEndWhile_quoteFront`), and an escaped pattern is read
back for every run of backslashes (`parse_escape`).
-/

namespace TreeSync

/-- Nothing is left of a text without its ends where all of it is one end. -/
theorem Text.dropAroundWhile_eq_nil_iff {p : Char → Bool} {t : Text} :
    Text.dropAroundWhile p t = [] ↔ ∀ c ∈ t, p c = true := by
  rw [Text.dropAroundWhile, Text.dropEndWhile, List.reverse_eq_nil_iff, List.dropWhile_eq_nil_iff]
  simp only [List.mem_reverse]
  constructor
  · intro h
    have hrest : (t.dropWhile p).dropWhile p = [] := List.dropWhile_eq_nil_iff.mpr h
    rwa [List.dropWhile_idempotent, List.dropWhile_eq_nil_iff] at hrest
  · exact fun h c hc => h c ((List.dropWhile_sublist p).subset hc)

namespace IgnoreRule

open Pattern

/-! ## the escaped pattern -/

/-- Text with two backslashes for each one. -/
def doubleBackslashes (t : Text) : Text :=
  t.flatMap fun c => if c = '\\' then ['\\', '\\'] else [c]

/-- Text with a backslash before a first `!` or `#`. -/
def quoteFront (t : Text) : Text :=
  if t.head? = some '!' ∨ t.head? = some '#' then '\\' :: t else t

/-- Text with a backslash before a space at its end. -/
def quoteEnd (t : Text) : Text :=
  if t.getLast? = some ' ' then t.dropLast ++ ['\\', ' '] else t

/-- A pattern written so that it is read as it stands. -/
def escape (pattern : Text) : Text := quoteEnd (quoteFront (doubleBackslashes pattern))

@[simp] theorem doubleBackslashes_nil : doubleBackslashes [] = [] := rfl

theorem doubleBackslashes_cons (c : Char) (t : Text) :
    doubleBackslashes (c :: t) = (if c = '\\' then ['\\', '\\'] else [c]) ++ doubleBackslashes t :=
  rfl

theorem doubleBackslashes_concat (t : Text) {c : Char} (hc : c ≠ '\\') :
    doubleBackslashes (t ++ [c]) = doubleBackslashes t ++ [c] := by
  simp [doubleBackslashes, hc]

theorem doubleBackslashes_concat_backslash (t : Text) :
    doubleBackslashes (t ++ ['\\']) = doubleBackslashes t ++ ['\\', '\\'] := by
  simp [doubleBackslashes]

/-- Doubling changes no first character. -/
theorem head?_doubleBackslashes (t : Text) : (doubleBackslashes t).head? = t.head? := by
  cases t with
  | nil => rfl
  | cons c t => by_cases hc : c = '\\' <;> simp [doubleBackslashes_cons, hc]

theorem doubleBackslashes_eq_nil_iff {t : Text} : doubleBackslashes t = [] ↔ t = [] := by
  rw [← List.head?_eq_none_iff, head?_doubleBackslashes, List.head?_eq_none_iff]

/-- What follows the front of a text does not change how the front is quoted. -/
theorem quoteFront_append (a : Text) {b : Text} (hb : b.head? ≠ some '!' ∧ b.head? ≠ some '#') :
    quoteFront (a ++ b) = quoteFront a ++ b := by
  cases a with
  | nil => simp [quoteFront, hb]
  | cons c a => by_cases hc : c = '!' ∨ c = '#' <;> simp [quoteFront, hc]

/-- The front is quoted, or left as it is. -/
theorem quoteFront_cases (t : Text) : quoteFront t = '\\' :: t ∨ quoteFront t = t := by
  unfold quoteFront
  split
  · exact Or.inl rfl
  · exact Or.inr rfl

/-- Doubling and quoting leave the end of a text as it is. -/
theorem exists_quoteFront_concat (t : Text) (c : Char) :
    ∃ front, quoteFront (doubleBackslashes (t ++ [c])) = front ++ [c] := by
  obtain ⟨doubled, hdoubled⟩ : ∃ doubled, doubleBackslashes (t ++ [c]) = doubled ++ [c] := by
    by_cases hc : c = '\\'
    · exact ⟨doubleBackslashes t ++ ['\\'], by simp [doubleBackslashes, hc]⟩
    · exact ⟨doubleBackslashes t, by simp [doubleBackslashes, hc]⟩
  rw [hdoubled]
  obtain h | h := quoteFront_cases (doubled ++ [c])
  · exact ⟨'\\' :: doubled, h⟩
  · exact ⟨doubled, h⟩

/-- A quoted text begins with no mark. -/
theorem head?_quoteFront_ne (t : Text) :
    (quoteFront t).head? ≠ some '!' ∧ (quoteFront t).head? ≠ some '#' := by
  unfold quoteFront
  split
  · simp
  · next h => exact not_or.mp h

theorem quoteFront_ne_nil {t : Text} (h : t ≠ []) : quoteFront t ≠ [] := by
  by_cases hfront : t.head? = some '!' ∨ t.head? = some '#' <;> simp [quoteFront, hfront, h]

/-- A blank at the end is quoted. -/
theorem quoteEnd_concat_space (t : Text) : quoteEnd (t ++ [' ']) = t ++ ['\\', ' '] := by
  simp [quoteEnd]

/-- Nothing else at the end is. -/
theorem quoteEnd_concat (t : Text) {c : Char} (hc : c ≠ ' ') : quoteEnd (t ++ [c]) = t ++ [c] := by
  simp [quoteEnd, hc]

/-! ## stripping it -/

/-- Backslashes at the end of an escaped pattern come in pairs, a line's mark included. -/
theorem countEndWhile_quoteFront (sense : Sense) (t : Text) :
    Text.countEndWhile (· == '\\') (sense.lineMark ++ quoteFront (doubleBackslashes t)) % 2 =
      0 := by
  induction t using List.reverseRecOn with
  | nil => cases sense <;> decide
  | append_singleton t c ih =>
      by_cases hc : c = '\\'
      · have hpair : quoteFront (doubleBackslashes (t ++ ['\\'])) =
            quoteFront (doubleBackslashes t) ++ ['\\'] ++ ['\\'] := by
          rw [doubleBackslashes_concat_backslash, quoteFront_append _ (by simp), List.append_cons]
        rw [hc, hpair, ← List.append_assoc, ← List.append_assoc, Text.countEndWhile_concat_self,
          Text.countEndWhile_concat_self]
        omega
      · obtain ⟨front, hfront⟩ := exists_quoteFront_concat t c
        rw [hfront, ← List.append_assoc, Text.countEndWhile_concat_of_ne hc]

/-- **An escaped pattern loses nothing at its end** but the quote of a space. -/
theorem stripLine_escape (sense : Sense) {pattern : Text}
    (hend : ∀ c ∈ pattern.getLast?, Text.isBlank c = true → c = ' ') :
    stripLine (sense.lineMark ++ escape pattern) =
      sense.lineMark ++ quoteFront (doubleBackslashes pattern) := by
  obtain rfl | ⟨front, c, rfl⟩ := List.eq_nil_or_concat pattern
  · cases sense <;> rfl
  · rw [List.concat_eq_append] at hend ⊢
    by_cases hspace : c = ' '
    · have hquoted : quoteFront (doubleBackslashes (front ++ [' '])) =
          quoteFront (doubleBackslashes front) ++ [' '] := by
        rw [doubleBackslashes_concat front (by decide), quoteFront_append _ (by simp)]
      rw [hspace, escape, hquoted, quoteEnd_concat_space, ← List.append_assoc,
        stripLine_concat_quoted_space (countEndWhile_quoteFront sense front), List.append_assoc]
    · have hblank : Text.isBlank c = false := by
        rw [Bool.eq_false_iff]
        exact fun h => hspace (hend c (by simp) h)
      obtain ⟨quoted, hquoted⟩ := exists_quoteFront_concat front c
      rw [escape, hquoted, quoteEnd_concat _ hspace, ← List.append_assoc, stripLine_concat hblank]

/-! ## reading it -/

/-- **Doubled backslashes** are halved to what they were. -/
theorem halveBackslashes_doubleBackslashes (t : Text) :
    halveBackslashes (doubleBackslashes t) = t := by
  induction t with
  | nil => rfl
  | cons c t ih =>
      by_cases hc : c = '\\'
      · simp [doubleBackslashes_cons, hc, halveBackslashes, ih]
      · simp [doubleBackslashes_cons, hc, halveBackslashes_cons hc, ih]

/-- Reading takes off the quote in front, and no doubled backslash for one. -/
theorem dropQuote_quoteFront (t : Text) :
    dropQuote (quoteFront (doubleBackslashes t)) = doubleBackslashes t := by
  cases t with
  | nil => rfl
  | cons c t =>
      by_cases hc : c = '\\'
      · simp [quoteFront, doubleBackslashes_cons, hc, dropQuote]
      · by_cases hmark : c = '!' ∨ c = '#'
        · obtain rfl | rfl := hmark <;> simp [quoteFront, doubleBackslashes_cons, dropQuote]
        · simp [quoteFront, doubleBackslashes_cons, hc, hmark, dropQuote]

/-- An escaped pattern of either sense is read back. -/
theorem parse_lineMark_escape (sense : Sense) {pattern : Text}
    (hname : namesNothing pattern = false)
    (hend : ∀ c ∈ pattern.getLast?, Text.isBlank c = true → c = ' ') (directory : Option Text) :
    parse (sense.lineMark ++ escape pattern) directory =
      some ⟨sense, pattern, directory.filter (· ≠ [])⟩ := by
  have hne : pattern ≠ [] := by
    rintro rfl
    exact absurd hname (by decide)
  obtain ⟨hmark, hcomment⟩ := head?_quoteFront_ne (doubleBackslashes pattern)
  have hquoted : quoteFront (doubleBackslashes pattern) ≠ [] :=
    quoteFront_ne_nil (mt doubleBackslashes_eq_nil_iff.mp hne)
  have hsays : ¬ (decide (sense.lineMark ++ quoteFront (doubleBackslashes pattern) = []) ||
      decide ((sense.lineMark ++ quoteFront (doubleBackslashes pattern)).head? = some '#')) =
        true := by
    cases sense <;> simp [Sense.lineMark, hquoted, hcomment]
  simp only [parse, stripLine_escape sense hend, if_neg hsays,
    readSense_lineMark_append sense hmark, dropQuote_quoteFront,
    halveBackslashes_doubleBackslashes, hname, Bool.false_eq_true, if_false]

/-- A pattern names something where more than slashes is left without its tokens. -/
theorem namesNothing_eq_false_iff {pattern : Text} :
    namesNothing pattern = false ↔
      Text.dropAroundWhile (· == '/') (withoutAnyDepth pattern) ≠ [] := by
  rw [Ne, Text.dropAroundWhile_eq_nil_iff, namesNothing, ← Bool.not_eq_true, List.all_eq_true]

/-- **Reading undoes escaping**: a pattern that names something is read back from its
escaped form, as a rule that excludes, and with `!` in front as one that includes. -/
theorem parse_escape {pattern : Text}
    (hname : Text.dropAroundWhile (· == '/') (withoutAnyDepth pattern) ≠ [])
    (hend : ∀ c ∈ pattern.getLast?, Text.isBlank c = true → c = ' ') (directory : Option Text) :
    parse (escape pattern) directory =
        some ⟨.excludes, pattern, directory.filter (· ≠ [])⟩ ∧
      parse ('!' :: escape pattern) directory =
        some ⟨.includes, pattern, directory.filter (· ≠ [])⟩ :=
  have hname := namesNothing_eq_false_iff.mpr hname
  ⟨parse_lineMark_escape .excludes hname hend directory,
    parse_lineMark_escape .includes hname hend directory⟩

/-- A mark in front, backslashes before a blank and a quoted space at the end. -/
theorem parse_escape_marked :
    escape "!\\\\ # \\ " = "\\!\\\\\\\\ # \\\\\\ ".toList ∧
      Text.dropAroundWhile (· == '/') (withoutAnyDepth "!\\\\ # \\ ") ≠ [] ∧
      (∀ c ∈ List.getLast? "!\\\\ # \\ ".toList, Text.isBlank c = true → c = ' ') ∧
      parse (escape "!\\\\ # \\ ") (some "/sub".toList) =
          some ⟨.excludes, "!\\\\ # \\ ", some "/sub".toList⟩ ∧
        parse ('!' :: escape "!\\\\ # \\ ") (some "/sub".toList) =
          some ⟨.includes, "!\\\\ # \\ ", some "/sub".toList⟩ := by
  have hlast : List.getLast? "!\\\\ # \\ ".toList = some ' ' := by decide
  have hend : ∀ c ∈ List.getLast? "!\\\\ # \\ ".toList, Text.isBlank c = true → c = ' ' := by
    intro c hc _
    rw [hlast] at hc
    exact (Option.mem_some_iff.mp hc).symm
  exact ⟨by decide, by decide, hend, parse_escape (by decide) hend (some "/sub".toList)⟩

end IgnoreRule

end TreeSync
