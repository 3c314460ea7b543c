import TreeSync.Text

/-!
# TreeSync.Disk.Path

File paths as texts: joining, and taking the last component off.

Repeated slashes, slashes at the end and components `.` do not count, except a
`.` that begins a relative path.  Nothing is resolved here: `..` is a component
like any other.
-/

namespace TreeSync.Path

/-- True of absolute paths. -/
def isAbsolute (path : Text) : Bool := path.head? = some '/'

/-- `path` as seen from `base`: an absolute path replaces the base. -/
def join (base path : Text) : Text :=
  if isAbsolute path then path
  else if base = [] || base.getLast? = some '/' then base ++ path
  else base ++ '/' :: path

/-- True of the pieces between slashes that do not count. -/
def isIdle (piece : Text) : Bool := piece = [] || piece = ['.']

/-- A list without the elements at its end that satisfy `p`. -/
def dropEnd (p : Text → Bool) (pieces : List Text) : List Text :=
  (pieces.reverse.dropWhile p).reverse

/-- The text of an absolute or relative path from its pieces; no pieces after an
empty first one are the root. -/
def ofPieces (first : Text) (rest : List Text) : Text :=
  if first = [] && rest = [] then ['/'] else Text.joinWith ['/'] (first :: rest)

/-- A path cut into what precedes its last component and that component. -/
def split? (path : Text) : Option (Text × Text) :=
  match Text.pieces '/' path with
  | [] => none
  | first :: rest =>
      match (dropEnd isIdle rest).reverse with
      | last :: before => some (ofPieces first (dropEnd isIdle before.reverse), last)
      | [] => if first = [] then none else some ([], first)

/-- The path without its last component; the root has none. -/
def parent? (path : Text) : Option Text := (split? path).map Prod.fst

/-- The last component, if it is a name. -/
def fileName? (path : Text) : Option Text :=
  match split? path with
  | some (_, name) => if name = "." || name = ".." then none else some name
  | none => none

/-- The path with another last component.  Where the last component is no name
the new one is added. -/
def withFileName (path name : Text) : Text :=
  match fileName? path, parent? path with
  | some _, some parent => join parent name
  | _, _ => join path name

/-- The components of a path, the root written as a slash. -/
def components (path : Text) : List Text :=
  let named := (Text.pieces '/' path).filter (!isIdle ·)
  if isAbsolute path then ['/'] :: named
  else match Text.pieces '/' path with
    | ['.'] :: _ => ['.'] :: named
    | _ => named

/-- The path below `base`, if its components begin with those of the base.  An
empty base leaves the path as it is. -/
def below? (base path : Text) : Option Text :=
  if components base = [] then some path
  else ((components base).isPrefixOf? (components path)).map (Text.joinWith ['/'])

@[simp] theorem join_nil (base : Text) (h : base ≠ []) (h' : base.getLast? ≠ some '/') :
    join base [] = base ++ ['/'] := by
  simp [join, isAbsolute, h, h']

end TreeSync.Path
