import TreeSync.Text

/-!
# TreeSync.Toml.Lexeme

The smallest pieces of a TOML document: blanks, comments, line endings, strings
and keys.

A reader takes a text and gives what it read and the rest, or `none` where the
text does not begin with what it reads.
-/

namespace TreeSync.Toml

/-- Reads something at the start of a text. -/
abbrev Reader (α : Type) := Text → Option (α × Text)

/-! ## blanks, comments and line endings -/

/-- True of the two blanks inside a line. -/
def isBlank (c : Char) : Bool := c = ' ' || c = '\t'

/-- What follows the blanks at the start. -/
def skipBlanks (t : Text) : Text := t.dropWhile isBlank

/-- True of the characters of comments and strings: all but control characters,
of which only the tab is fine. -/
def isPrintable (c : Char) : Bool := c = '\t' || (' ' ≤ c && c ≠ '\x7f')

/-- What follows a line ending at the start. -/
def newline? : Text → Option Text
  | '\n' :: r => some r
  | '\r' :: '\n' :: r => some r
  | _ => none

/-- What follows a comment at the start, if there is one. -/
def skipComment : Text → Text
  | '#' :: r => r.dropWhile isPrintable
  | t => t

/-- What follows the rest of a line that has nothing more to say.  The document
may end here. -/
def lineEnd? (t : Text) : Option Text :=
  match skipComment (skipBlanks t) with
  | [] => some []
  | t => newline? t

/-- What follows blanks, line endings and comments.  `comment` tells that a
comment is open. -/
def skipSpace (comment : Bool) : Text → Text
  | [] => []
  | '\n' :: r => skipSpace false r
  | '\r' :: '\n' :: r => skipSpace false r
  | c :: r =>
      if comment then (if isPrintable c then skipSpace true r else c :: r)
      else if isBlank c then skipSpace false r
      else if c = '#' then skipSpace true r
      else c :: r

/-! ## strings -/

/-- The value of a hexadecimal digit. -/
def hexDigit? (c : Char) : Option Nat :=
  if '0' ≤ c ∧ c ≤ '9' then some (c.toNat - '0'.toNat)
  else if 'a' ≤ c ∧ c ≤ 'f' then some (c.toNat - 'a'.toNat + 10)
  else if 'A' ≤ c ∧ c ≤ 'F' then some (c.toNat - 'A'.toNat + 10)
  else none

/-- The character with a code point in hexadecimal. -/
def charOfHex? (digits : List Char) : Option Char := do
  let n := (← digits.mapM hexDigit?).foldl (fun n d => 16 * n + d) 0
  if h : n.isValidChar then some (Char.ofNatAux n h) else none

/-- The character that a letter after a backslash stands for. -/
def escaped? : Char → Option Char
  | 'b' => some '\x08'
  | 't' => some '\t'
  | 'n' => some '\n'
  | 'f' => some '\x0c'
  | 'r' => some '\r'
  | '"' => some '"'
  | '\\' => some '\\'
  | _ => none

/-- Put a character in front of what was read. -/
def consRead (c : Char) (read : Option (Text × Text)) : Option (Text × Text) :=
  read.map fun (t, rest) => (c :: t, rest)

/-- Read up to the double quote that ends a string on one line. -/
def basicString : Reader Text
  | [] => none
  | '"' :: r => some ([], r)
  | '\\' :: 'u' :: a :: b :: c :: d :: r =>
      (charOfHex? [a, b, c, d]).bind fun ch => consRead ch (basicString r)
  | '\\' :: 'U' :: a :: b :: c :: d :: e :: f :: g :: h :: r =>
      (charOfHex? [a, b, c, d, e, f, g, h]).bind fun ch => consRead ch (basicString r)
  | '\\' :: c :: r => (escaped? c).bind fun ch => consRead ch (basicString r)
  | c :: r => if c ≠ '\\' ∧ isPrintable c then consRead c (basicString r) else none

/-- Read up to the single quote that ends a literal string on one line. -/
def literalString : Reader Text
  | [] => none
  | '\'' :: r => some ([], r)
  | c :: r => if isPrintable c then consRead c (literalString r) else none

/-- True when only blanks stand before the end of the line. -/
def endsLine (t : Text) : Bool := (newline? (skipBlanks t)).isSome

/-- Read up to the three double quotes that end a string over several lines.  Of
more than three the first two belong to the string.  After a backslash at the
end of a line, blanks and line endings are skipped. -/
def multilineString (skipping : Bool) : Reader Text
  | [] => none
  | '"' :: '"' :: '"' :: '"' :: '"' :: r => some (['"', '"'], r)
  | '"' :: '"' :: '"' :: '"' :: r => some (['"'], r)
  | '"' :: '"' :: '"' :: r => some ([], r)
  | '\\' :: 'u' :: a :: b :: c :: d :: r =>
      (charOfHex? [a, b, c, d]).bind fun ch => consRead ch (multilineString false r)
  | '\\' :: 'U' :: a :: b :: c :: d :: e :: f :: g :: h :: r =>
      (charOfHex? [a, b, c, d, e, f, g, h]).bind fun ch => consRead ch (multilineString false r)
  | '\r' :: '\n' :: r =>
      if skipping then multilineString true r else consRead '\n' (multilineString false r)
  | '\n' :: r =>
      if skipping then multilineString true r else consRead '\n' (multilineString false r)
  | '\\' :: c :: r =>
      if endsLine (c :: r) then multilineString true (c :: r)
      else (escaped? c).bind fun ch => consRead ch (multilineString false r)
  | c :: r =>
      if skipping && isBlank c then multilineString true r
      else if c ≠ '\\' ∧ isPrintable c then consRead c (multilineString false r)
      else none

/-- Read up to the three single quotes that end a literal string over several
lines.  Of more than three the first two belong to the string. -/
def multilineLiteral : Reader Text
  | [] => none
  | '\'' :: '\'' :: '\'' :: '\'' :: '\'' :: r => some (['\'', '\''], r)
  | '\'' :: '\'' :: '\'' :: '\'' :: r => some (['\''], r)
  | '\'' :: '\'' :: '\'' :: r => some ([], r)
  | '\r' :: '\n' :: r => consRead '\n' (multilineLiteral r)
  | '\n' :: r => consRead '\n' (multilineLiteral r)
  | c :: r => if isPrintable c then consRead c (multilineLiteral r) else none

/-- What follows a line ending at the start, if there is one. -/
def dropNewline (t : Text) : Text := (newline? t).getD t

/-- Read a string of any of the four kinds. -/
def string : Reader Text
  | '"' :: '"' :: '"' :: r => multilineString false (dropNewline r)
  | '"' :: r => basicString r
  | '\'' :: '\'' :: '\'' :: r => multilineLiteral (dropNewline r)
  | '\'' :: r => literalString r
  | _ => none

/-! ## keys -/

/-- True of the characters of bare keys. -/
def isBareKeyChar (c : Char) : Bool := c.isAlphanum || c = '_' || c = '-'

/-- Read one part of a key. -/
def keyPart : Reader Text
  | '"' :: r => basicString r
  | '\'' :: r => literalString r
  | t =>
      match t.takeWhile isBareKeyChar with
      | [] => none
      | name => some (name, t.dropWhile isBareKeyChar)

/-- A key has fewer parts than this, and values are nested less deep. -/
def depthLimit : Nat := 80

/-- Read a key of at most `parts` parts, with dots between them and blanks
around each. -/
def key : Nat → Reader (List Text)
  | 0, _ => none
  | parts + 1, t => do
      let (name, rest) ← keyPart (skipBlanks t)
      match skipBlanks rest with
      | '.' :: r =>
          let (names, rest) ← key parts r
          some (name :: names, rest)
      | rest => some ([name], rest)

end TreeSync.Toml
