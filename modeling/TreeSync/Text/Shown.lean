import TreeSync.Text

/-!
# TreeSync.Text.Shown

Text as it is shown to programmers: between double quotes and on one line, so that
nothing in it can be taken for something else.

1. Quotes, backslashes, tabs and line endings stand behind a backslash, the line
   endings and tabs by a letter.
2. A character that cannot be seen by itself is written by its code point:
   blanks other than the space, control and format characters, private
   characters, and marks that combine with the character before.
3. Every other character stands for itself.
-/

namespace TreeSync.Text

/-- The code points of blanks, control and format characters and private
characters. -/
def hiddenRanges : List (Nat × Nat) :=
  [(0x00, 0x1F), (0x7F, 0xA0), (0xAD, 0xAD), (0x600, 0x605), (0x61C, 0x61C), (0x6DD, 0x6DD),
   (0x70F, 0x70F), (0x1680, 0x1680), (0x180E, 0x180E), (0x2000, 0x200F), (0x2028, 0x202F),
   (0x205F, 0x206F), (0x3000, 0x3000), (0xE000, 0xF8FF), (0xFEFF, 0xFEFF), (0xFFF0, 0xFFFB),
   (0xFFFE, 0xFFFF), (0xE0000, 0x10FFFF)]

/-- The code points of combining marks. -/
def combiningRanges : List (Nat × Nat) :=
  [(0x300, 0x36F), (0x483, 0x489), (0x591, 0x5BD), (0x5BF, 0x5BF), (0x5C1, 0x5C2),
   (0x5C4, 0x5C5), (0x5C7, 0x5C7), (0x610, 0x61A), (0x64B, 0x65F), (0x670, 0x670),
   (0x1AB0, 0x1ACE), (0x1DC0, 0x1DFF), (0x20D0, 0x20F0), (0x302A, 0x302F), (0x3099, 0x309A),
   (0xFE00, 0xFE0F), (0xFE20, 0xFE2F)]

/-- True of the characters that cannot be seen by themselves. -/
def isHidden (c : Char) : Bool :=
  (hiddenRanges ++ combiningRanges).any fun (first, last) =>
    first ≤ c.toNat && c.toNat ≤ last

/-- A character between the quotes. -/
def shownChar (c : Char) : Text :=
  if c = '"' ∨ c = '\\' then ['\\', c]
  else if c = '\n' then ['\\', 'n']
  else if c = '\r' then ['\\', 'r']
  else if c = '\t' then ['\\', 't']
  else if c = '\x00' then ['\\', '0']
  else if isHidden c then ['\\', 'u', '\x7b'] ++ Nat.toDigits 16 c.toNat ++ ['\x7d']
  else [c]

/-- A text between quotes. -/
def shown (t : Text) : Text := '"' :: (t.flatMap shownChar ++ ['"'])

end TreeSync.Text
