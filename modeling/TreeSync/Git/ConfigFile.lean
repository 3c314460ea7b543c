import TreeSync.Text.Utf8

/-!
# TreeSync.Git.ConfigFile

The text format of git configuration files, read and written.

1. A header names the section that follows, `[section]` or
   `[section "subsection"]`; the section is in any case, the subsection is not.
2. A variable is a name, an equals sign and a value; without the sign it has no
   value, which is not the same as an empty one.
3. Double quotes in a value only protect blanks and comment signs; a backslash
   stands before `"`, `\`, `n`, `t` and `b`, and at the end of a line that goes on
   in the next.
4. `#` and `;` outside quotes begin a comment.

The characters here are bytes, so that files need not be text.
-/

namespace TreeSync.Git

/-- One variable of a configuration file, by its full name. -/
structure Variable where
  name : Text
  /-- `none` for a variable without an equals sign. -/
  value : Option Text
  deriving DecidableEq, Repr

namespace ConfigFile

/-! ## pieces of a line -/

/-- True of the blanks of the format. -/
def isSpace (c : Char) : Bool :=
  c = ' ' || c = '\t' || c = '\n' || c = '\x0b' || c = '\x0c' || c = '\r'

/-- True of the characters of names. -/
def isNameChar (c : Char) : Bool := c.isAlphanum || c = '-'

/-- A line up to its comment, and the number of quotes in it.  `last` is the
character before, and `backslashes` how many backslashes stand right before. -/
def cutComment (quotes : Nat) (last : Option Char) (backslashes : Nat) : Text → Text × Nat
  | [] => ([], quotes)
  | c :: r =>
      let quotes := if c = '"' ∧ last.isSome ∧ last ≠ some '\\' then quotes + 1 else quotes
      if (c = ';' ∨ c = '#') ∧ quotes % 2 = 0 ∧ backslashes % 2 = 0 then ([], quotes)
      else
        let (kept, quotes) := cutComment quotes (some c)
          (if c = '\\' then backslashes + 1 else 0) r
        (c :: kept, quotes)

/-- A line without its comment and without the blanks before it. -/
def stripComment (quotes : Nat) (line : Text) : Text × Nat :=
  let (kept, quotes) := cutComment quotes none 0 line
  (Text.dropEndWhile isSpace kept, quotes)

/-- The character that a letter after a backslash stands for. -/
def escaped? : Char → Option Char
  | 'n' => some '\n'
  | 't' => some '\t'
  | 'b' => some '\x08'
  | '"' => some '"'
  | '\\' => some '\\'
  | _ => none

/-- Read the escapes and quotes of a value; the flag tells that it goes on in the
next line. -/
def unescape? : Text → Option (Text × Bool)
  | [] => some ([], false)
  | ['\\'] => some ([], true)
  | '\\' :: c :: r =>
      (escaped? c).bind fun ch => (unescape? r).map fun (t, more) => (ch :: t, more)
  | c :: r =>
      if c = '"' then unescape? r else (unescape? r).map fun (t, more) => (c :: t, more)

/-! ## headers -/

/-- Read a subsection after its opening quote, up to the closing bracket. -/
def subsection? : Text → Option (Text × Text)
  | [] => none
  | '"' :: ']' :: r => some ([], r)
  | '\\' :: c :: r => (subsection? r).map fun (t, rest) => (c :: t, rest)
  | c :: r =>
      if c = '"' ∨ c = '\\' then none else (subsection? r).map fun (t, rest) => (c :: t, rest)

/-- Read a header after its opening bracket: the name of the section in lower
case, and the rest of the line.  Only before a subsection may the name be empty. -/
def header? (line : Text) : Option (Text × Text) :=
  let isHeaderChar (c : Char) := isNameChar c || c = '.'
  let name := (line.takeWhile isHeaderChar).map Char.toLower
  match line.dropWhile isHeaderChar with
  | ']' :: r => if name = [] then none else some (name, r)
  | c :: r =>
      if isSpace c && r.contains ']' then
        match r.dropWhile isSpace with
        | '"' :: r => (subsection? r).map fun (sub, rest) => (name ++ '.' :: sub, rest)
        | _ => none
      else none
  | [] => none

/-- Read the headers at the start of a line. -/
def headers? : Nat → Text → Text → Option (Text × Text)
  | 0, name, line => some (name, line)
  | fuel + 1, name, line =>
      match line.dropWhile isSpace with
      | '[' :: r =>
          match header? r with
          | some (name, rest) => headers? fuel name rest
          | none => none
      | rest => some (name, rest)

/-! ## variables -/

/-- The part of a line that names a variable, and the value if there is an equals
sign. -/
def assignment? (line : Text) : Option (Text × Option Text) :=
  let name := line.takeWhile isNameChar
  if name = [] then none
  else
    match (line.dropWhile isNameChar).dropWhile isSpace with
    | [] => some (name.map Char.toLower, none)
    | '=' :: value => some (name.map Char.toLower, some (value.dropWhile isSpace))
    | _ => none

/-- A variable whose value goes on in the next line, and the quotes so far. -/
structure Unfinished where
  name : Text
  value : Text
  quotes : Nat
  deriving DecidableEq, Repr

/-- The full name of a variable in a section. -/
def fullName (header name : Text) : Text :=
  if header = [] then name else header ++ '.' :: name

/-- What one line does: the section after it, the variable that it completes, and
the variable that goes on in the next line. -/
def readLine? (header : Text) (unfinished : Option Unfinished) (line : Text) :
    Option (Text × List Variable × Option Unfinished) :=
  match unfinished with
  | some u =>
      match stripComment u.quotes line with
      | ([], quotes) => some (header, [], some { u with quotes })
      | (kept, quotes) => do
          let (more, goesOn) ← unescape? kept
          let value := u.value ++ more
          if goesOn then some (header, [], some { u with value, quotes })
          else some (header, [⟨u.name, some value⟩], none)
  | none => do
      let (header, rest) ← headers? (line.length + 1) header line
      match rest with
      | [] => some (header, [], none)
      | ';' :: _ => some (header, [], none)
      | '#' :: _ => some (header, [], none)
      | rest =>
          let (kept, quotes) := stripComment 0 rest
          let (name, value) ← assignment? kept
          let name := fullName header name
          match value with
          | none => some (header, [⟨name, none⟩], none)
          | some value => do
              let (value, goesOn) ← unescape? value
              if goesOn then some (header, [], some ⟨name, value, quotes % 2⟩)
              else some (header, [⟨name, some value⟩], none)

/-- Read the lines of a file. -/
def readLines? (header : Text) (unfinished : Option Unfinished) :
    List Text → Option (List Variable)
  | [] =>
      match unfinished with
      | some u => some [⟨u.name, some u.value⟩]
      | none => some []
  | line :: lines => do
      let (header, completed, unfinished) ← readLine? header unfinished line
      let more ← readLines? header unfinished lines
      some (completed ++ more)

/-- A file without the byte order mark at its start. -/
def dropMark : Text → Text
  | '\u00ef' :: '\u00bb' :: '\u00bf' :: r => r
  | t => t

/-- The variables of a file in order; `none` if it is not in the format. -/
def parse? (content : Text) : Option (List Variable) :=
  readLines? [] none (Text.pieces '\n' (dropMark content))

/-! ## writing -/

/-- A character inside a written value. -/
def escape : Char → Text
  | '\n' => "\\n"
  | '\t' => "\\t"
  | '\x08' => "\\b"
  | '"' => "\\\""
  | '\\' => "\\\\"
  | c => [c]

/-- A value as it is written: always between quotes. -/
def writeValue (value : Text) : Text := '"' :: (value.flatMap escape ++ ['"'])

/-- A header as it is written, from the parts of a full name before the last. -/
def writeHeader : List Text → Text
  | [] => []
  | [section'] => "[" ++ section' ++ "]\n"
  | section' :: rest =>
      let sub := Text.joinWith ['.'] rest
      "[" ++ section' ++ " \""
        ++ sub.flatMap (fun c => if c = '"' ∨ c = '\\' then ['\\', c] else [c]) ++ "\"]\n"

/-- A variable with its value as it is written, with a header of its own. -/
def write (name value : Text) : Text :=
  let parts := Text.pieces '.' name
  writeHeader parts.dropLast ++ "\t" ++ (parts.getLast?.getD []) ++ " = " ++ writeValue value
    ++ "\n"

end ConfigFile

end TreeSync.Git
