import TreeSync.Git.Sha1
import TreeSync.Text.Utf8

/-!
# TreeSync.Git.Index

The index of a repository: the tracked paths, and its file format.

Entries are sorted by path, then by stage.  Stage 0 is an entry without
conflict; the other stages are the sides of a conflict.
-/

namespace TreeSync.Git

/-- An entry of the index. -/
structure IndexEntry where
  path : Text
  stage : Nat
  deriving DecidableEq, Repr

namespace Index

/-! ## adding entries -/

/-- The order of entries: by the bytes of the path, then by stage. -/
def precedes (a b : IndexEntry) : Bool :=
  decide (a.path < b.path) || (a.path == b.path && decide (a.stage < b.stage))

/-- True of entries that cannot stand beside a new one: the same entry, one that
is a file where the new one needs a directory or the other way round, and the
sides of a conflict that the new one settles. -/
def gives (new old : IndexEntry) : Bool :=
  old == new ||
    (old.stage == new.stage &&
      ((old.path ++ ['/']).isPrefixOf new.path || (new.path ++ ['/']).isPrefixOf old.path)) ||
    (new.stage == 0 && old.path == new.path)

/-- Put an entry into sorted entries. -/
def insertSorted (entry : IndexEntry) : List IndexEntry → List IndexEntry
  | [] => [entry]
  | e :: es => if precedes entry e then entry :: e :: es else e :: insertSorted entry es

/-- Add an entry to an index. -/
def add (entries : List IndexEntry) (entry : IndexEntry) : List IndexEntry :=
  insertSorted entry (entries.filter fun old => !gives entry old)

/-! ## writing -/

/-- The bytes of an entry: fixed fields of which only the mode and the flags say
something here, the path, and one to eight zeros. -/
def entryBytes (entry : IndexEntry) : List UInt8 :=
  let path := entry.path.bytes.toList
  let flags := entry.stage * 0x1000 + min path.length 0xFFF
  let fixed := List.replicate 24 0 ++ Sha1.bytesOfNat 4 0o100644 ++ List.replicate 32 0
    ++ Sha1.bytesOfNat 2 flags
  fixed ++ path ++ List.replicate (8 - (62 + path.length) % 8) 0

/-- The file of an index. -/
def encode (entries : List IndexEntry) : ByteArray :=
  let body := "DIRC".toUTF8.toList ++ Sha1.bytesOfNat 4 2 ++ Sha1.bytesOfNat 4 entries.length
    ++ entries.flatMap entryBytes
  ⟨(body ++ Sha1.hash body).toArray⟩

/-! ## reading -/

/-- The number that bytes spell, the highest first. -/
def natOf (bytes : List UInt8) : Nat := bytes.foldl (fun n b => 256 * n + b.toNat) 0

/-- The first bytes, and the rest, if there are so many. -/
def take? (n : Nat) (bytes : List UInt8) : Option (List UInt8 × List UInt8) :=
  if n ≤ bytes.length then some (bytes.take n, bytes.drop n) else none

/-- Read one entry. -/
def readEntry (bytes : List UInt8) : Option (IndexEntry × List UInt8) := do
  let (fixed, rest) ← take? 62 bytes
  let flags := natOf (fixed.drop 60)
  -- Two more bytes of flags may follow.
  let extra := if flags / 0x4000 % 2 = 1 then 2 else 0
  let (_, rest) ← take? extra rest
  let size := if flags % 0x1000 = 0xFFF then (rest.takeWhile (· != 0)).length else flags % 0x1000
  let (path, _) ← take? size rest
  let padded := (62 + extra + size + 8) / 8 * 8 - (62 + extra)
  let (_, rest) ← take? padded rest
  some (⟨Text.ofBytesLossy ⟨path.toArray⟩, flags / 0x1000 % 4⟩, rest)

/-- Read so many entries. -/
def readEntries : Nat → List UInt8 → Option (List IndexEntry × List UInt8)
  | 0, bytes => some ([], bytes)
  | count + 1, bytes => do
      let (entry, rest) ← readEntry bytes
      let (entries, rest) ← readEntries count rest
      some (entry :: entries, rest)

/-- Pass over the extensions after the entries, of which all with a capital first
letter may be ignored. -/
def skipExtensions : Nat → List UInt8 → Option Unit
  | 0, _ => none
  | fuel + 1, bytes =>
      if bytes = [] then some ()
      else do
        let (head, rest) ← take? 8 bytes
        let first := head.headD 0
        if first < 65 || 90 < first then none
        else
          let (_, rest) ← take? (natOf (head.drop 4)) rest
          skipExtensions fuel rest

/-- Read an index from its file; `none` if it is none. -/
def parse? (file : ByteArray) : Option (List IndexEntry) := do
  let bytes := file.toList
  if bytes.length < 32 then none
  else
    let body := bytes.take (bytes.length - 20)
    let (head, rest) ← take? 12 body
    let version := natOf ((head.drop 4).take 4)
    if head.take 4 ≠ "DIRC".toUTF8.toList ∨ version < 2 ∨ 3 < version then none
    else
      let (entries, rest) ← readEntries (natOf (head.drop 8)) rest
      let _ ← skipExtensions (rest.length + 1) rest
      if Sha1.hash body = bytes.drop (bytes.length - 20) then some entries else none

end Index

end TreeSync.Git
