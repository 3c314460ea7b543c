import TreeSync.Toml.Lexeme
import TreeSync.Toml.Value

/-!
# TreeSync.Toml.Number

Numbers, dates and times.

* Integers are decimal without leading zeros and with an optional sign, or
  hexadecimal, octal or binary without a sign; they have 64 bits.
* Floats have a digit on both sides of the point.
* Underscores may stand between two digits.
* Dates exist in the calendar, and times on a clock with leap seconds.
-/

namespace TreeSync.Toml

/-! ## digits -/

/-- Read digits with single underscores between them; what was read is the digits. -/
def digits (isDigit : Char → Bool) : Text → Text × Text
  | [] => ([], [])
  | '_' :: c :: r =>
      if isDigit c then let (ds, rest) := digits isDigit r; (c :: ds, rest)
      else ([], '_' :: c :: r)
  | c :: r =>
      if isDigit c then let (ds, rest) := digits isDigit r; (c :: ds, rest) else ([], c :: r)

/-- Read one or more digits with underscores between them. -/
def digits1 (isDigit : Char → Bool) : Reader Text
  | [] => none
  | c :: r =>
      if isDigit c then let (ds, rest) := digits isDigit r; some (c :: ds, rest) else none

/-- Read a sign if there is one; the flag tells a minus. -/
def sign : Text → Bool × Text
  | '-' :: r => (true, r)
  | '+' :: r => (false, r)
  | t => (false, t)

/-- Read the digits of a decimal integer: a zero, or digits that start with
another one. -/
def decimalDigits : Reader Text
  | '0' :: r => some (['0'], r)
  | t => digits1 Char.isDigit t

/-- The value of digits in a base. -/
def valueIn (base : Nat) (ds : Text) : Nat :=
  ds.foldl (fun n c => base * n + (hexDigit? c).getD 0) 0

/-! ## integers -/

/-- An integer that has 64 bits. -/
def integer? (i : Int) : Option Value :=
  if -0x8000000000000000 ≤ i ∧ i < 0x8000000000000000 then some (.integer i) else none

/-- Read an integer. -/
def integer : Reader Value
  | '0' :: 'x' :: r => based 16 (fun c => (hexDigit? c).isSome) r
  | '0' :: 'o' :: r => based 8 (fun c => '0' ≤ c && c ≤ '7') r
  | '0' :: 'b' :: r => based 2 (fun c => c = '0' || c = '1') r
  | t => do
      let (negative, r) := sign t
      let (ds, rest) ← decimalDigits r
      let n : Int := valueIn 10 ds
      return (← integer? (if negative then -n else n), rest)
where
  /-- Read digits in a base. -/
  based (base : Nat) (isDigit : Char → Bool) : Reader Value := fun t => do
    let (ds, rest) ← digits1 isDigit t
    return (← integer? (valueIn base ds), rest)

/-! ## floats -/

/-- Read the exponent of a float: an optional sign and digits. -/
def exponent : Reader Int
  | 'e' :: r | 'E' :: r => do
      let (negative, r) := sign r
      let (ds, rest) ← digits1 Char.isDigit r
      let n : Int := valueIn 10 ds
      return (if negative then -n else n, rest)
  | _ => none

/-- Read a float in digits.  One too large to be finite is none, unless it is
negative. -/
def plainFloat : Reader Value := fun t => do
  let (negative, r) := sign t
  let (whole, r) ← decimalDigits r
  let (fraction, e, rest) ←
    match r with
    | '.' :: r => do
        let (fraction, r) ← digits1 Char.isDigit r
        match r with
        | 'e' :: _ | 'E' :: _ => do
            let (e, rest) ← exponent r
            pure (fraction, e, rest)
        | _ => pure (fraction, 0, r)
    | _ => do
        let (e, rest) ← exponent r
        pure ([], e, rest)
  let ds := whole ++ fraction
  let value := Double.ofDecimal negative (valueIn 10 ds)
    (Double.clampExponent ds.length e - fraction.length)
  if value = .infinite false then none else some (.float value, rest)

/-- Read an infinity or a value that is not a number. -/
def specialFloat : Reader Value := fun t =>
  match sign t with
  | (negative, 'i' :: 'n' :: 'f' :: rest) => some (.float (.infinite negative), rest)
  | (_, 'n' :: 'a' :: 'n' :: rest) => some (.float .nan, rest)
  | _ => none

/-! ## dates and times -/

/-- Read a number of exactly so many digits that lies between two bounds. -/
def fixedNumber (size low high : Nat) : Reader Nat := fun t =>
  let ds := t.take size
  if ds.length = size ∧ ds.all Char.isDigit then
    let n := valueIn 10 ds
    if low ≤ n ∧ n ≤ high then some (n, t.drop size) else none
  else none

/-- Read one given character. -/
def expect (c : Char) (t : Text) : Option Text :=
  match t with
  | d :: r => if d = c then some r else none
  | [] => none

/-- The days of a month. -/
def daysIn (year month : Nat) : Nat :=
  if month = 2 then
    if year % 4 = 0 ∧ (year % 100 ≠ 0 ∨ year % 400 = 0) then 29 else 28
  else if month = 4 ∨ month = 6 ∨ month = 9 ∨ month = 11 then 30
  else 31

/-- What follows a date. -/
def date? (t : Text) : Option Text := do
  let (year, r) ← fixedNumber 4 0 9999 t
  let (month, r) ← fixedNumber 2 1 12 (← expect '-' r)
  let (day, r) ← fixedNumber 2 1 31 (← expect '-' r)
  if day ≤ daysIn year month then some r else none

/-- What follows a time of day. -/
def time? (t : Text) : Option Text := do
  let (_, r) ← fixedNumber 2 0 23 t
  let (_, r) ← fixedNumber 2 0 59 (← expect ':' r)
  let (_, r) ← fixedNumber 2 0 60 (← expect ':' r)
  match r with
  | '.' :: c :: r => if c.isDigit then some (r.dropWhile Char.isDigit) else some ('.' :: c :: r)
  | r => some r

/-- What follows an offset from universal time, if there is one. -/
def offset? (t : Text) : Option Text :=
  match t with
  | 'Z' :: r | 'z' :: r => some r
  | '+' :: r | '-' :: r => do
      let (_, r) ← fixedNumber 2 0 23 r
      let (_, r) ← fixedNumber 2 0 59 (← expect ':' r)
      some r
  | t => some t

/-- What follows a date with or without a time, or a time alone. -/
def dateTime? (t : Text) : Option Text :=
  match date? t with
  | none => time? t
  | some r =>
      match r with
      | 'T' :: s | 't' :: s | ' ' :: s =>
          match time? s with
          | some rest => offset? rest
          | none => some r
      | _ => some r

/-- Read a date or time. -/
def date : Reader Value := fun t => do
  let rest ← dateTime? t
  return (.date (t.take (t.length - rest.length)), rest)

/-- Read what starts like a number. -/
def number : Reader Value := fun t =>
  (date t).orElse fun _ => (plainFloat t).orElse fun _ =>
    (specialFloat t).orElse fun _ => integer t

end TreeSync.Toml
