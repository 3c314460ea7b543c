import TreeSync.Disk

/-!
# TreeSync.Text.Utf8

Bytes as text where they may be no UTF-8.

`ofBytesLossy` reads what can be read, and puts one replacement character in the
place of every longest run of bytes that begins a character without ending it.
`octets` takes each byte for the character of that code; text formats that are
made of ASCII marks between arbitrary bytes are read that way.
-/

namespace TreeSync.Text

/-! ## reading what can be read -/

/-- A character that has begun: how many bytes are missing, the code so far, and
the bounds of the next byte. -/
structure Begun where
  missing : Nat
  code : Nat
  low : Nat
  high : Nat
  deriving DecidableEq, Repr

/-- The character that stands for bytes that are no text. -/
def replacement : Char := '\ufffd'

/-- Look at a byte that does not go on with a character: it is one, begins one,
or is neither. -/
def beginByte (b : Nat) : Text × Option Begun :=
  if b < 0x80 then ([Char.ofNat b], none)
  else if 0xC2 ≤ b ∧ b ≤ 0xDF then ([], some ⟨1, b - 0xC0, 0x80, 0xBF⟩)
  else if b = 0xE0 then ([], some ⟨2, 0, 0xA0, 0xBF⟩)
  else if b = 0xED then ([], some ⟨2, 0xD, 0x80, 0x9F⟩)
  else if 0xE1 ≤ b ∧ b ≤ 0xEF then ([], some ⟨2, b - 0xE0, 0x80, 0xBF⟩)
  else if b = 0xF0 then ([], some ⟨3, 0, 0x90, 0xBF⟩)
  else if 0xF1 ≤ b ∧ b ≤ 0xF3 then ([], some ⟨3, b - 0xF0, 0x80, 0xBF⟩)
  else if b = 0xF4 then ([], some ⟨3, 4, 0x80, 0x8F⟩)
  else ([replacement], none)

/-- Read bytes, after those of a character that has begun. -/
def readBytes (begun : Option Begun) : List Nat → Text
  | [] => if begun.isSome then [replacement] else []
  | b :: bs =>
      match begun with
      | none =>
          let (t, begun) := beginByte b
          t ++ readBytes begun bs
      | some c =>
          if c.low ≤ b ∧ b ≤ c.high then
            let code := c.code * 64 + b % 64
            if c.missing = 1 then Char.ofNat code :: readBytes none bs
            else readBytes (some ⟨c.missing - 1, code, 0x80, 0xBF⟩) bs
          else
            let (t, begun) := beginByte b
            replacement :: (t ++ readBytes begun bs)

/-- The text of some bytes, replacement characters for what is none. -/
def ofBytesLossy (bytes : ByteArray) : Text :=
  match ofBytes? bytes with
  | some text => text
  | none => readBytes none (bytes.toList.map UInt8.toNat)

/-! ## bytes as characters -/

/-- Each byte as the character of that code. -/
def octets (bytes : ByteArray) : Text := bytes.toList.map fun b => Char.ofNat b.toNat

/-- The bytes that some characters stand for. -/
def bytesOfOctets (t : Text) : ByteArray := ⟨(t.map fun c => UInt8.ofNat c.toNat).toArray⟩

/-- The text that the bytes of some characters spell. -/
def ofOctets? (t : Text) : Option Text := ofBytes? (bytesOfOctets t)

end TreeSync.Text
