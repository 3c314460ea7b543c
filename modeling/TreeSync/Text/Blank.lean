import TreeSync.Text

/-!
# TreeSync.Text.Blank

Blank characters and trimming.  Blank is the Unicode property White_Space,
25 characters in all, of which `Char.isWhitespace` knows only the ASCII part.
-/

namespace TreeSync.Text

/-- The ranges of the Unicode property White_Space, by code point. -/
def blankRanges : List (Nat × Nat) :=
  [(0x09, 0x0D), (0x20, 0x20), (0x85, 0x85), (0xA0, 0xA0), (0x1680, 0x1680),
   (0x2000, 0x200A), (0x2028, 0x2029), (0x202F, 0x202F), (0x205F, 0x205F), (0x3000, 0x3000)]

/-- True of the characters with the property White_Space. -/
def isBlank (c : Char) : Bool :=
  blankRanges.any fun (first, last) => first ≤ c.toNat && c.toNat ≤ last

/-- Text without the blanks at its end. -/
def trimEnd (t : Text) : Text := dropEndWhile isBlank t

/-- Text without the blanks at both ends. -/
def trim (t : Text) : Text := dropAroundWhile isBlank t

end TreeSync.Text
