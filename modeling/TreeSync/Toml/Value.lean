import TreeSync.Decimal.Reading

/-!
# TreeSync.Toml.Value

TOML values and tables.

A table is flat: it lists every path in it that was given a meaning, with that
meaning.  A path is made of names, and of indexes into arrays of tables.
-/

namespace TreeSync.Toml

/-- One step of a path inside a table. -/
inductive Step
  | name (name : Text)
  | index (index : Nat)
  deriving DecidableEq, Repr

/-- What a path in a table stands for. -/
inductive Node (α : Type)
  | value (value : α)
  /-- A table.  It is implicit until a header names it, and dotted if it comes
  from a key with dots. -/
  | table (implicit dotted : Bool)
  /-- An array of so many tables. -/
  | tables (count : Nat)
  deriving Repr

/-- A value. -/
inductive Value
  | string (text : Text)
  | integer (value : Int)
  | float (value : Double)
  | boolean (value : Bool)
  /-- A date, a time or both, as it is written. -/
  | date (text : Text)
  | array (items : List Value)
  /-- A table written in braces. -/
  | table (nodes : List (List Step × Node Value))

/-- A table: its paths and what they stand for. -/
abbrev Table := List (List Step × Node Value)

namespace Table

/-- What a path stands for. -/
def get? (table : Table) (path : List Step) : Option (Node Value) :=
  (table.find? fun node => node.1 == path).map Prod.snd

/-- Let a path stand for something else. -/
def put (table : Table) (path : List Step) (node : Node Value) : Table :=
  if table.any (·.1 == path) then table.map fun n => if n.1 == path then (path, node) else n
  else table ++ [(path, node)]

/-- The table with no path but its own. -/
def empty : Table := [([], .table false false)]

/-! ## definitions, and what must not be defined twice -/

/-- Go down some names from a path.  Missing tables are made on the way; of an
array of tables it is the last.  With `dotted` the names stand before the last
dot of a key, and only implicit tables can be gone through. -/
def descend (dotted : Bool) (table : Table) (base : List Step) :
    List Text → Option (Table × List Step)
  | [] => some (table, base)
  | name :: names =>
      let path := base ++ [.name name]
      match table.get? path with
      | none => descend dotted (table.put path (.table true dotted)) path names
      | some (.value _) => none
      | some (.tables count) => descend dotted table (path ++ [.index (count - 1)]) names
      | some (.table implicit _) =>
          if dotted && !implicit then none else descend dotted table path names

/-- True of a path that stands for a dotted table. -/
def isDotted (table : Table) (path : List Step) : Bool :=
  match table.get? path with
  | some (.table _ dotted) => dotted
  | _ => false

/-- Give a value to a key below a path.  A key is given a value once; a key with
dots cannot reach into a table that was defined otherwise. -/
def assign (table : Table) (base : List Step) (key : List Text) (value : Value) :
    Option Table := do
  let last ← key.getLast?
  let (table, path) ← table.descend key.dropLast.isEmpty.not base key.dropLast
  if table.isDotted path == key.dropLast.isEmpty then none
  else
    let path := path ++ [.name last]
    if (table.get? path).isSome then none else some (table.put path (.value value))

/-- Open the table that a header names.  A table is opened once, but one that was
only passed through can still be opened. -/
def openTable (table : Table) (key : List Text) : Option (Table × List Step) := do
  let last ← key.getLast?
  let (table, path) ← table.descend false [] key.dropLast
  let path := path ++ [.name last]
  match table.get? path with
  | none => some (table.put path (.table false false), path)
  | some (.table true false) => some (table.put path (.table false false), path)
  | some _ => none

/-- Open the next table of the array that a header names. -/
def openNext (table : Table) (key : List Text) : Option (Table × List Step) := do
  let last ← key.getLast?
  let (table, path) ← table.descend false [] key.dropLast
  let path := path ++ [.name last]
  let count ← match table.get? path with
    | none => some 0
    | some (.tables count) => some count
    | some _ => none
  let item := path ++ [.index count]
  some ((table.put path (.tables (count + 1))).put item (.table false false), item)

/-- The table of some keys with values. -/
def ofPairs (pairs : List (List Text × Value)) : Option Table :=
  pairs.foldlM (fun table (key, value) => assign table [] key value) empty

end Table

end TreeSync.Toml
