import TreeSync.Toml.Number

/-!
# TreeSync.Toml.Document

Values, the statements of a document, and the table that a document defines.

There are no causes of refusal here: a document defines a table or it does not.
-/

namespace TreeSync.Toml

/-! ## values -/

/-- Read a word and give what it stands for. -/
def word (spelling : Text) (value : Value) : Reader Value := fun t =>
  (spelling.isPrefixOf? t).map fun rest => (value, rest)

/-- Read a value that has no values inside. -/
def scalar : Reader Value
  | [] => none
  | c :: r =>
      if c = '"' ∨ c = '\'' then (string (c :: r)).map fun (t, rest) => (.string t, rest)
      else if c = 't' then word "true" (.boolean true) (c :: r)
      else if c = 'f' then word "false" (.boolean false) (c :: r)
      else if c = '+' ∨ c = '-' ∨ c.isDigit then number (c :: r)
      else specialFloat (c :: r)

/-- Read the items of an array up to its closing bracket, with a comma after each
but the last.  Spaces between them may go over several lines. -/
def arrayItems (value : Reader Value) : Nat → Reader (List Value)
  | 0, _ => none
  | fuel + 1, t =>
      match skipSpace false t with
      | ']' :: rest => some ([], rest)
      | t => do
          let (item, rest) ← value t
          match skipSpace false rest with
          | ',' :: rest => do
              let (items, rest) ← arrayItems value fuel rest
              some (item :: items, rest)
          | ']' :: rest => some ([item], rest)
          | _ => none

/-- Read a key, an equals sign and a value. -/
def pair (value : Reader Value) : Reader (List Text × Value) := fun t => do
  let (key, rest) ← key (depthLimit - 1) t
  match rest with
  | '=' :: rest => do
      let (item, rest) ← value (skipBlanks rest)
      some ((key, item), rest)
  | _ => none

/-- Read the pairs of a table in braces, with a comma between each two, up to the
closing brace, all on one line. -/
def inlinePairs (value : Reader Value) : Nat → Reader (List (List Text × Value))
  | 0, _ => none
  | fuel + 1, t => do
      let (first, rest) ← pair value t
      match skipBlanks rest with
      | ',' :: rest => do
          let (pairs, rest) ← inlinePairs value fuel rest
          some (first :: pairs, rest)
      | '\x7d' :: rest => some ([first], rest)
      | _ => none

/-- Read a value with at most `depth` arrays and tables around another. -/
def value : Nat → Reader Value
  | 0, t => scalar t
  | depth + 1, t =>
      match t with
      | '[' :: r =>
          (arrayItems (value depth) (r.length + 1) r).map fun (items, rest) => (.array items, rest)
      | '\x7b' :: r =>
          match skipBlanks r with
          | '\x7d' :: rest => some (.table Table.empty, rest)
          | r => do
              let (pairs, rest) ← inlinePairs (value depth) (r.length + 1) r
              some (.table (← Table.ofPairs pairs), rest)
      | t => scalar t

/-! ## statements -/

/-- A statement of a document. -/
inductive Statement
  /-- `[key]` -/
  | header (key : List Text)
  /-- `[[key]]` -/
  | nextHeader (key : List Text)
  /-- `key = value` -/
  | assign (key : List Text) (value : Value)

/-- Read a statement, without the end of its line. -/
def statement : Reader Statement
  | '[' :: '[' :: r => do
      let (key, rest) ← key (depthLimit - 1) r
      match rest with
      | ']' :: ']' :: rest => some (.nextHeader key, rest)
      | _ => none
  | '[' :: r => do
      let (key, rest) ← key (depthLimit - 1) r
      match rest with
      | ']' :: rest => some (.header key, rest)
      | _ => none
  | t => (pair (value (depthLimit - 1)) t).map fun ((key, value), rest) => (.assign key value, rest)

/-- Read the statements of a document, at most one a line. -/
def statements : Nat → Text → Option (List Statement)
  | 0, _ => none
  | fuel + 1, t =>
      match skipBlanks t with
      | [] => some []
      | '#' :: r => (lineEnd? ('#' :: r)).bind (statements fuel)
      | c :: r =>
          match newline? (c :: r) with
          | some rest => statements fuel rest
          | none => do
              let (first, rest) ← statement (c :: r)
              let more ← statements fuel (← lineEnd? rest)
              some (first :: more)

/-! ## documents -/

/-- Follow one statement.  The state is the table so far and the path that keys
are below. -/
def step : Table × List Step → Statement → Option (Table × List Step)
  | (table, _), .header key => table.openTable key
  | (table, _), .nextHeader key => table.openNext key
  | (table, base), .assign key value => (table.assign base key value).map fun t => (t, base)

/-- The table that a document defines.  A byte order mark at the start does not
count. -/
def parse? (document : Text) : Option Table := do
  let document := match document with
    | '\ufeff' :: r => r
    | t => t
  let (table, _) ← (← statements (document.length + 1) document).foldlM step (Table.empty, [])
  some table

end TreeSync.Toml
