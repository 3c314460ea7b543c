import TreeSync.Text.Blank

/-!
# TreeSync.Host

Names of remote hosts.

A host stands before a colon in a transfer target and is a word on the command
line of `ssh`, so it must be neither empty nor an option, must not break in two,
and must end before the first colon.
-/

namespace TreeSync.Host

/-- What is wrong with a host. -/
inductive Defect
  | isEmpty
  | startsWithDash
  | hasBlank
  | hasColonOrSlash
  | endsWithAt
  deriving DecidableEq, Repr

/-- The text of a defect. -/
def Defect.message : Defect → Text
  | .isEmpty => "host is empty"
  | .startsWithDash => "host must not start with '-'"
  | .hasBlank => "host must not contain whitespace"
  | .hasColonOrSlash => "host must not contain ':' or '/'"
  | .endsWithAt => "host is missing after '@'"

/-- The first defect of a host. -/
def defect? (host : Text) : Option Defect :=
  if host = [] then some .isEmpty
  else if host.head? = some '-' then some .startsWithDash
  else if host.any Text.isBlank then some .hasBlank
  else if host.contains ':' || host.contains '/' then some .hasColonOrSlash
  else if host.getLast? = some '@' then some .endsWithAt
  else none

end TreeSync.Host
