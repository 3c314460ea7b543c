import TreeSync.Text

/-!
# TreeSync.Disk

A disk: directories, files and symbolic links, each at a location.

A location is the list of names on the way from the root, so it is already
resolved: it has no `.`, no `..` and leads through no link.  The root itself is
always there and needs no entry.

Every file has an identity that it keeps when it is renamed or written.  Locks
belong to identities and not to paths.
-/

namespace TreeSync

/-! ## file content -/

/-- The bytes of a text in UTF-8. -/
def Text.bytes (t : Text) : ByteArray := (String.ofList t).toUTF8

/-- The text that some bytes spell in UTF-8. -/
def Text.ofBytes? (bytes : ByteArray) : Option Text := (String.fromUTF8? bytes).map String.toList

/-- Writing a text and reading it gives the text. -/
@[simp] theorem Text.ofBytes?_bytes (t : Text) : Text.ofBytes? t.bytes = some t := by
  unfold Text.ofBytes? Text.bytes String.fromUTF8?
  rw [String.toUTF8_eq_toByteArray, dif_pos (String.ofList t).isValidUTF8]
  exact congrArg some String.toList_ofList

/-! ## entries -/

/-- The names from the root to an entry. -/
abbrev Location := List Text

/-- A regular file. -/
structure File where
  /-- What tells this file from every other that ever was on the disk. -/
  id : Nat
  content : ByteArray
  /-- Who may do what with it, in bits. -/
  mode : Nat

/-- True when the owner of a file may run it. -/
def File.executable (file : File) : Bool := file.mode.testBit 6

/-- Contents are compared by their bytes. -/
instance : DecidableEq File := fun a b =>
  have h : (a.id = b.id ∧ a.content.data = b.content.data ∧ a.mode = b.mode) ↔ a = b := by
    obtain ⟨id, ⟨data⟩, mode⟩ := a
    obtain ⟨id', ⟨data'⟩, mode'⟩ := b
    simp
  decidable_of_decidable_of_iff h

/-- What stands at a location. -/
inductive Entry
  | directory
  | file (file : File)
  | link (target : Text)
  deriving DecidableEq

/-- A disk, its entries in the order they were made. -/
structure Disk where
  entries : List (Location × Entry) := []
  /-- The identity of the next file. -/
  nextId : Nat := 0
  /-- The mode that a new file gets. -/
  newMode : Nat := 0o644

/-- Why the system refuses an operation on a path. -/
inductive DiskFault
  | notFound
  | permissionDenied
  | busy
  | alreadyExists
  | notDirectory
  | isDirectory
  | nameTooLong
  | tooManyLinks
  /-- The device is full. -/
  | noSpace
  /-- The device fails. -/
  | device
  /-- The path holds a character that no path can hold. -/
  | invalidPath
  /-- What was read is no text. -/
  | invalidText
  deriving DecidableEq, Repr

/-- The words of the system for a fault. -/
def DiskFault.message : DiskFault → Text
  | .notFound => "No such file or directory (os error 2)"
  | .device => "Input/output error (os error 5)"
  | .permissionDenied => "Permission denied (os error 13)"
  | .busy => "Device or resource busy (os error 16)"
  | .alreadyExists => "File exists (os error 17)"
  | .notDirectory => "Not a directory (os error 20)"
  | .isDirectory => "Is a directory (os error 21)"
  | .noSpace => "No space left on device (os error 28)"
  | .nameTooLong => "File name too long (os error 36)"
  | .tooManyLinks => "Too many levels of symbolic links (os error 40)"
  | .invalidPath => "file name contained an unexpected NUL byte"
  | .invalidText => "stream did not contain valid UTF-8"

namespace Disk

/-! ## the view: what stands where -/

/-- What stands at a location. -/
def get? (disk : Disk) (location : Location) : Option Entry :=
  if location = [] then some .directory
  else (disk.entries.find? fun e => e.1 == location).map Prod.snd

/-- Let an entry stand at a location, in the place of the one there if there is
one. -/
def put (disk : Disk) (location : Location) (entry : Entry) : Disk :=
  if disk.entries.any (·.1 == location) then
    { disk with entries := disk.entries.map fun e => if e.1 == location then (location, entry) else e }
  else
    { disk with entries := disk.entries ++ [(location, entry)] }

/-- Let nothing stand at a location. -/
def erase (disk : Disk) (location : Location) : Disk :=
  { disk with entries := disk.entries.filter fun e => e.1 != location }

/-- Let a new file stand at a location. -/
def putFile (disk : Disk) (location : Location) (content : ByteArray) (mode : Nat) : Disk :=
  { disk.put location (.file ⟨disk.nextId, content, mode⟩) with nextId := disk.nextId + 1 }

/-- The names of the entries right inside a directory. -/
def names (disk : Disk) (directory : Location) : List Text :=
  disk.entries.filterMap fun (location, _) =>
    if location ≠ [] ∧ location.dropLast = directory then location.getLast? else none

end Disk

end TreeSync
