import TreeSync.Text

/-!
# TreeSync.Engine.Literal

Text between double quotes, as Lua reads it.

A backslash and a double quote are written behind a backslash, and so are line
feeds, carriage returns and tabs, by a letter.  So no value can end its literal,
and none breaks a line.
-/

namespace TreeSync.Engine

/-- A character inside a literal. -/
def escape : Char → Text
  | '\\' => "\\\\"
  | '"' => "\\\""
  | '\n' => "\\n"
  | '\r' => "\\r"
  | '\t' => "\\t"
  | c => [c]

/-- A text as a literal. -/
def literal (t : Text) : Text := '"' :: (t.flatMap escape ++ ['"'])

/-- The character that a letter after a backslash stands for. -/
def unescape? : Char → Option Char
  | '\\' => some '\\'
  | '"' => some '"'
  | 'n' => some '\n'
  | 'r' => some '\r'
  | 't' => some '\t'
  | _ => none

/-- Read a literal after its opening quote: its text, and what follows the
closing quote.  A line feed inside is refused. -/
def readLiteral? : Text → Option (Text × Text)
  | [] => none
  | '"' :: r => some ([], r)
  | '\\' :: c :: r =>
      (unescape? c).bind fun ch => (readLiteral? r).map fun (t, rest) => (ch :: t, rest)
  | c :: r =>
      if c = '\n' ∨ c = '\\' then none
      else (readLiteral? r).map fun (t, rest) => (c :: t, rest)

end TreeSync.Engine
