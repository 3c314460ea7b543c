import TreeSync.Machine.Files
import TreeSync.Text.Blank

/-!
# TreeSync.Machine.PidFile

The file that an engine leaves its process number in.

A number is an optional plus sign and decimal digits, with any blanks around;
it is positive and has at most 32 bits.
-/

namespace TreeSync.PidFile

/-- Process numbers are below this. -/
def limit : Nat := 0x100000000

/-- A run of decimal digits that fills the whole text. -/
def digits? : Text → Option (List Nat)
  | [] => none
  | cs => cs.mapM Text.digit?

/-- The process number that a text spells. -/
def ofText? (text : Text) : Option Nat :=
  let word := Text.trim text
  let unsigned := match word with
    | '+' :: r => r
    | r => r
  match digits? unsigned with
  | none => none
  | some ds =>
      let pid := Text.natOfDigits ds
      if 0 < pid ∧ pid < limit then some pid else none

/-- Read a process number from a file.  A missing file has none, and so has one
with anything else in it, which is worth a warning. -/
def read (path : Text) : Action FileError (Option Nat) := do
  match ← Files.readOptionalText path with
  | none => pure none
  | some content =>
      match ofText? content with
      | some pid => pure (some pid)
      | none =>
          Action.report .warn
          pure none

end TreeSync.PidFile
