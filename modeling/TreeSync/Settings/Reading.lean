import TreeSync.Settings
import TreeSync.Toml.Document

/-!
# TreeSync.Settings.Reading

Settings from a TOML document.

The programs stand in a table of their own, or in an array of at least three, in
their order.  Keys that mean nothing here are passed over; a key that means
something must have a value of its type.
-/

namespace TreeSync.Settings

open Toml

/-- A value of a certain type, from what a path stands for; a path that stands
for nothing has none. -/
def field? (decode : Value → Option α) : Option (Node Value) → Option (Option α)
  | none => some none
  | some (.value value) => (decode value).map some
  | some _ => none

/-- A string. -/
def textOf? : Value → Option Text
  | .string text => some text
  | _ => none

/-- A list of strings. -/
def textsOf? : Value → Option (List Text)
  | .array items => items.mapM textOf?
  | _ => none

/-- A number, an integer as well as a float. -/
def numberOf? : Value → Option Double
  | .float value => some value
  | .integer value => some (.ofInt value)
  | _ => none

/-- A truth value. -/
def flagOf? : Value → Option Bool
  | .boolean value => some value
  | _ => none

/-- The programs that a table names below a path. -/
def ofProgramTable (table : Table) (base : List Step) : Option Settings := do
  let get (name : Text) := field? textOf? (table.get? (base ++ [.name name]))
  let lsyncd ← get "lsyncd"
  let rsync ← get "rsync"
  let ssh ← get "ssh"
  some { lsyncd, rsync, ssh }

/-- The programs that a value names. -/
def ofPrograms : Option (Table × Node Value) → Option Settings
  | none => some {}
  | some (table, .table _ _) => ofProgramTable table [.name "binaries"]
  | some (_, .value (.table nodes)) => ofProgramTable nodes []
  | some (_, .value (.array (lsyncd :: rsync :: ssh :: _))) => do
      let lsyncd ← textOf? lsyncd
      let rsync ← textOf? rsync
      let ssh ← textOf? ssh
      some { lsyncd := some lsyncd, rsync := some rsync, ssh := some ssh }
  | some _ => none

/-- The settings in a table. -/
def ofTable (table : Table) : Option Settings := do
  let get (name : Text) := table.get? [.name name]
  let programs ← ofPrograms ((get "binaries").map fun node => (table, node))
  let host ← field? textOf? (get "host")
  let remotePath ← field? textOf? (get "remote_path")
  let ignore ← field? textsOf? (get "ignore")
  let delay ← field? numberOf? (get "delay")
  let compress ← field? flagOf? (get "compress")
  some { programs with host, remotePath, ignore, delay, compress }

/-- The settings in a document, decoded in the way that is handed in; `none` if it is no
document, or if a key has a value of another type. -/
def ofDocument? (decode : Text → Option Table) (document : Text) : Option Settings :=
  (decode document).bind ofTable

/-- The settings in a document. -/
def parse? (document : Text) : Option Settings := ofDocument? Toml.parse? document

end TreeSync.Settings
