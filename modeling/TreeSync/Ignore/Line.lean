import TreeSync.Text.Blank
import TreeSync.Pattern.Group
import TreeSync.Filter.Rule

/-!
# TreeSync.Ignore.Line

One line of an ignore file, and the filter rules it stands for.

1. Blanks at the end of a line do not count, except one space after a
   backslash.  Empty lines and lines that start with `#` say nothing.
2. `!` at the start makes the line include paths instead of excluding them.
3. A backslash before a first `!` or `#` only quotes it, and two backslashes
   stand for one.
4. A line of an ignore file in a directory reads relative to that directory:
   a pattern that starts with `/` follows it directly, any other at any depth
   below it.
5. Any-depth tokens are spelled out first, then the groups of every variant;
   the directory is put in front last, so its name is never expanded.
-/

namespace TreeSync

/-- What a line of an ignore file says, its escapes read. -/
structure IgnoreRule where
  sense : Sense
  pattern : Text
  /-- The directory of the ignore file, from the root of the tree with a slash
  in front; `none` for lines that read relative to the root. -/
  directory : Option Text
  deriving DecidableEq, Repr

namespace IgnoreRule

open Pattern

/-! ## reading a line -/

/-- A line without the blanks at its end.  A space quoted by a backslash stays,
without the backslash. -/
def stripLine (line : Text) : Text :=
  let kept := Text.trimEnd line
  let removed := line.drop kept.length
  if removed.head? = some ' ' && Text.countEndWhile (· == '\\') kept % 2 == 1 then
    kept.dropLast ++ [' ']
  else
    kept

/-- The rest of a pattern whose first character is a quoted `!` or `#`. -/
def dropQuote : Text → Text
  | '\\' :: '!' :: r => '!' :: r
  | '\\' :: '#' :: r => '#' :: r
  | t => t

/-- Read two backslashes as one, from the left. -/
def halveBackslashes : Text → Text
  | [] => []
  | '\\' :: '\\' :: r => '\\' :: halveBackslashes r
  | c :: r => c :: halveBackslashes r

/-- True when nothing but slashes is left of a pattern once its any-depth tokens
are removed. -/
def namesNothing (pattern : Text) : Bool :=
  (withoutAnyDepth pattern).all (· == '/')

/-- The sense of a stripped line, and what it applies to. -/
def readSense : Text → Sense × Text
  | '!' :: r => (.includes, r)
  | t => (.excludes, t)

/-- Read one line of an ignore file that lies in `directory`.  The result is
`none` for a line that says nothing. -/
def parse (line : Text) (directory : Option Text) : Option IgnoreRule :=
  let line := stripLine line
  if line = [] || line.head? = some '#' then none
  else
    let (sense, rest) := readSense line
    let pattern := halveBackslashes (dropQuote rest)
    if namesNothing pattern then none
    else some ⟨sense, pattern, directory.filter (· ≠ [])⟩

/-! ## placing a pattern in its directory -/

/-- The pattern relative to its directory, before any expansion. -/
def relativePattern (rule : IgnoreRule) : Text :=
  if rule.directory.isNone || rule.pattern.head? = some '/' then rule.pattern
  else if anyDepth.isPrefixOf rule.pattern then '/' :: rule.pattern
  else '/' :: (anyDepth ++ rule.pattern)

/-- The characters that make a filter pattern a wildcard pattern. -/
def isWildcard (c : Char) : Bool := c = '*' || c = '?' || c = '['

/-- A directory written so that a filter reads it literally.  A backslash quotes
only in patterns with a wildcard, so only there is it doubled. -/
def quoteDirectory (doubled : Bool) (directory : Text) : Text :=
  directory.flatMap fun c =>
    if isWildcard c then ['\\', c]
    else if c = '\\' && doubled then ['\\', '\\']
    else [c]

/-- A pattern behind its directory. -/
def under (directory : Option Text) (pattern : Text) : Text :=
  match directory with
  | none => pattern
  | some dir => quoteDirectory (dir.any isWildcard || pattern.any isWildcard) dir ++ pattern

/-! ## the rules of a line -/

/-- The patterns that a rule is spelled out to, before its directory is put in
front. -/
def patterns (rule : IgnoreRule) : List Text :=
  ((expandAnyDepth rule.relativePattern).flatMap expandGroups).filter (· ≠ [])

/-- The filter rules that stand for an ignore rule. -/
def rules (rule : IgnoreRule) : List FilterRule :=
  rule.patterns.map fun pattern => ⟨rule.sense, under rule.directory pattern⟩

/-- True when the filter rules only approximate the ignore rule, which is worth
a warning: too many any-depth tokens, or a group widened to a wildcard. -/
def isApproximate (rule : IgnoreRule) : Bool :=
  !anyDepthFits rule.relativePattern ||
    (expandAnyDepth rule.relativePattern).any widensGroups

end IgnoreRule

/-- The filter rules that one line of an ignore file in `directory` stands for. -/
def rulesOfLine (line : Text) (directory : Option Text) : List FilterRule :=
  match IgnoreRule.parse line directory with
  | none => []
  | some rule => rule.rules

end TreeSync
