/-!
# TreeSync.Git.Sha1

The hash SHA-1, which ends every index file.
-/

namespace TreeSync.Git.Sha1

/-- Split a list into pieces of `n` elements, `count` of them. -/
def chunks (n : Nat) : Nat → List α → List (List α)
  | 0, _ => []
  | count + 1, xs => xs.take n :: chunks n count (xs.drop n)

/-- A 32-bit word from bytes, the highest first. -/
def word (bytes : List UInt8) : UInt32 :=
  bytes.foldl (fun w b => (w <<< 8) ||| b.toUInt32) 0

/-- Bytes of a number, the highest first. -/
def bytesOfNat (count n : Nat) : List UInt8 :=
  (List.range count).reverse.map fun i => UInt8.ofNat (n / Nat.pow 256 i)

/-- Rotate a word to the left. -/
def rotate (w : UInt32) (n : UInt32) : UInt32 := (w <<< n) ||| (w >>> (32 - n))

/-- A message with its padding: a one bit, zeros, and the length in bits. -/
def pad (message : List UInt8) : List UInt8 :=
  let zeros := (55 + 64 - message.length % 64) % 64
  message ++ [0x80] ++ List.replicate zeros 0 ++ bytesOfNat 8 (8 * message.length)

/-- The state of the hash. -/
structure State where
  a : UInt32
  b : UInt32
  c : UInt32
  d : UInt32
  e : UInt32

/-- The state before the first block. -/
def State.initial : State := ⟨0x67452301, 0xEFCDAB89, 0x98BADCFE, 0x10325476, 0xC3D2E1F0⟩

/-- The words of a block, most recent first, continued to `count` more. -/
def schedule : Nat → List UInt32 → List UInt32
  | 0, ws => ws
  | count + 1, ws =>
      let at' (i : Nat) := ws.getD i 0
      schedule count (rotate (at' 2 ^^^ at' 7 ^^^ at' 13 ^^^ at' 15) 1 :: ws)

/-- One round. -/
def round (i : Nat) (w : UInt32) (s : State) : State :=
  let (f, k) : UInt32 × UInt32 :=
    if i < 20 then ((s.b &&& s.c) ||| (~~~s.b &&& s.d), 0x5A827999)
    else if i < 40 then (s.b ^^^ s.c ^^^ s.d, 0x6ED9EBA1)
    else if i < 60 then ((s.b &&& s.c) ||| (s.b &&& s.d) ||| (s.c &&& s.d), 0x8F1BBCDC)
    else (s.b ^^^ s.c ^^^ s.d, 0xCA62C1D6)
  ⟨rotate s.a 5 + f + s.e + k + w, s.a, rotate s.b 30, s.c, s.d⟩

/-- Take a block of 64 bytes into the state. -/
def block (s : State) (bytes : List UInt8) : State :=
  let words := (schedule 64 ((chunks 4 16 bytes).map word).reverse).reverse
  let (_, t) := words.foldl (fun (i, t) w => (i + 1, round i w t)) (0, s)
  ⟨s.a + t.a, s.b + t.b, s.c + t.c, s.d + t.d, s.e + t.e⟩

/-- The hash of a message, 20 bytes. -/
def hash (message : List UInt8) : List UInt8 :=
  let padded := pad message
  let s := (chunks 64 (padded.length / 64) padded).foldl block .initial
  [s.a, s.b, s.c, s.d, s.e].flatMap fun w => bytesOfNat 4 w.toNat

end TreeSync.Git.Sha1
