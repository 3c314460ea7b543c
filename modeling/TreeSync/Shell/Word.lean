import TreeSync.Text

/-!
# TreeSync.Shell.Word

Words of a shell command line, written so that a POSIX shell reads each as the
one word it was.

A word is written as it is when nothing in it is special to the shell, and
between single quotes otherwise; a single quote is written outside them, behind
a backslash.
-/

namespace TreeSync.Shell

/-- The characters that a shell may read as something other than themselves.  The tilde
is one of them, so a path below `~` is not expanded. -/
def isSpecial (c : Char) : Bool :=
  " \t\n'\"\\|&;<>()$*?[#~=%`".toList.contains c

/-- A word between single quotes. -/
def singleQuoted (word : Text) : Text :=
  let inner : Text := word.flatMap fun c => if c = '\'' then "'\\''" else [c]
  '\'' :: (inner ++ ['\''])

/-- A word as it is written on a command line. -/
def quote (word : Text) : Text :=
  if word = [] then "''"
  else if word.any isSpecial then singleQuoted word
  else word

end TreeSync.Shell
