import TreeSync.Text

/-!
# TreeSync.Tree.Path

Paths relative to a working tree, with forward slashes only.
-/

namespace TreeSync

/-- A path inside a working tree.  `ofText` builds it, so its text has no
backslash. -/
structure TreePath where
  text : Text
  deriving DecidableEq, Repr

namespace TreePath

/-- Read a path; backslashes count as slashes. -/
def ofText (t : Text) : TreePath := ⟨t.map fun c => if c = '\\' then '/' else c⟩

/-- The path without the slashes at its end. -/
def trimmed (path : TreePath) : Text := Text.dropEndWhile (· == '/') path.text

/-- What precedes the last component, without the slash between them; a single
relative component has no parent, and neither has a path without components. -/
def parent? (path : TreePath) : Option TreePath :=
  let before := Text.dropEndWhile (· != '/') path.trimmed
  match before with
  | [] => none
  | [_] => some ⟨['/']⟩
  | before => some ⟨before.dropLast⟩

/-- The last component. -/
def fileName? (path : TreePath) : Option Text :=
  match path.trimmed.reverse.takeWhile (· != '/') with
  | [] => none
  | name => some name.reverse

/-- The path with one slash in front and none at the end; the root of the tree
is empty. -/
def anchored (path : TreePath) : Text :=
  match Text.dropAroundWhile (· == '/') path.text with
  | [] => []
  | inner => '/' :: inner

end TreePath

end TreeSync
