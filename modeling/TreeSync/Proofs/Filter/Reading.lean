import TreeSync.Text

/-!
# TreeSync.Proofs.Filter.Reading

How a transfer reads the pattern of a filter rule, character by character.

1. A pattern with a star, a question mark or an opening bracket in it is a
   wildcard pattern.  There a backslash quotes the character after it, which
   then stands for itself.
2. In every other pattern all characters stand for themselves, backslashes too.

So the meaning of a backslash depends on the whole pattern, and a part of a
pattern can only be read once the whole is known (`Sign.read`).
-/

namespace TreeSync

/-- A character of a pattern as it is read. -/
inductive Sign
  /-- It stands for itself. -/
  | literal (c : Char)
  /-- It acts as a wildcard. -/
  | wildcard (c : Char)
  deriving DecidableEq, Repr

namespace Sign

/-- The characters that act as wildcards unless they are quoted. -/
def isWild (c : Char) : Bool := ['*', '?', '['].contains c

/-- A character that is not quoted. -/
def plain (c : Char) : Sign := if isWild c then .wildcard c else .literal c

/-- Read text in which backslashes quote. -/
def readQuoted : Text → List Sign
  | [] => []
  | '\\' :: c :: r => .literal c :: readQuoted r
  | c :: r => plain c :: readQuoted r

/-- Read a part of a pattern; `quoting` tells whether backslashes quote in it. -/
def read (quoting : Bool) (t : Text) : List Sign :=
  if quoting then readQuoted t else t.map .literal

theorem readQuoted_cons {c : Char} (hc : c ≠ '\\') (t : Text) :
    readQuoted (c :: t) = plain c :: readQuoted t := by
  rw [readQuoted]
  intro d r h
  exact absurd h hc

theorem plain_of_not_isWild {c : Char} (hc : isWild c = false) : plain c = .literal c := by
  simp [plain, hc]

/-- Without backslashes there is nothing to quote. -/
theorem readQuoted_of_not_mem {t : Text} (h : '\\' ∉ t) : readQuoted t = t.map plain := by
  induction t with
  | nil => rfl
  | cons c t ih =>
      rw [List.mem_cons, not_or] at h
      rw [readQuoted_cons (Ne.symm h.1), ih h.2, List.map_cons]

end Sign

/-- True of wildcard patterns. -/
def isWildPattern (pattern : Text) : Bool := pattern.any Sign.isWild

/-- The signs of a whole pattern. -/
def signsOf (pattern : Text) : List Sign := Sign.read (isWildPattern pattern) pattern

/-- Without backslashes every character is read by itself. -/
theorem signsOf_of_not_mem {pattern : Text} (h : '\\' ∉ pattern) :
    signsOf pattern = pattern.map Sign.plain := by
  rw [signsOf, Sign.read]
  split
  · exact Sign.readQuoted_of_not_mem h
  · next hw =>
      rw [isWildPattern, List.any_eq_true] at hw
      apply List.map_congr_left
      intro c hc
      have hwild : Sign.isWild c = false := by
        rw [← Bool.not_eq_true]
        exact fun h => hw ⟨c, hc, h⟩
      rw [Sign.plain_of_not_isWild hwild]

end TreeSync
