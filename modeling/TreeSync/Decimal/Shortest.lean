import TreeSync.Decimal.Double

/-!
# TreeSync.Decimal.Shortest

The text of a double: the fewest digits that read back as it, written out
positionally however long that gets.

The decimals that read back as a double form an interval around it, half way to
its neighbours, with its ends when the significand is even.  For one digit, two
digits and so on, the interval is tested against the two decimals around the
double with that many digits; the first hit wins, and of two hits the nearer
one, the upper at a tie.
-/

namespace TreeSync

/-- A decimal `digits · 10 ^ exponent`. -/
structure Decimal where
  digits : Nat
  exponent : Int
  deriving DecidableEq, Repr

namespace Decimal

/-- A decimal written positionally. -/
def text (d : Decimal) : Text :=
  let cs := Text.ofNat d.digits
  if 0 ≤ d.exponent then cs ++ List.replicate d.exponent.toNat '0'
  else
    let places := (-d.exponent).toNat
    let cs := List.replicate (places + 1 - cs.length) '0' ++ cs
    cs.take (cs.length - places) ++ ['.'] ++ cs.drop (cs.length - places)

end Decimal

namespace Double

/-- The interval of numbers that round to a double, over a common denominator. -/
structure Interval where
  low : Nat
  value : Nat
  high : Nat
  denominator : Nat
  /-- The ends themselves round to the double. -/
  closed : Bool

namespace Interval

/-- The interval of `significand · 2 ^ exponent`.  Just above a power of two the
gap below is half of the gap above. -/
def ofDouble (significand : Nat) (exponent : Int) : Interval :=
  let narrow := significand = Nat.pow 2 52 && minExponent < exponent
  let up := if 0 ≤ exponent then Nat.pow 2 exponent.toNat else 1
  let den := if 0 ≤ exponent then 1 else Nat.pow 2 (-exponent).toNat
  { low := 4 * significand * up - (if narrow then up else 2 * up)
    value := 4 * significand * up
    high := 4 * significand * up + 2 * up
    denominator := 4 * den
    closed := significand % 2 == 0 }

/-- True when `digits · 10 ^ exponent` lies in the interval. -/
def holds (i : Interval) (d : Decimal) : Bool :=
  let n := if 0 ≤ d.exponent then d.digits * Nat.pow 10 d.exponent.toNat * i.denominator
    else d.digits * i.denominator
  let scale := if 0 ≤ d.exponent then 1 else Nat.pow 10 (-d.exponent).toNat
  if i.closed then i.low * scale ≤ n && n ≤ i.high * scale
  else i.low * scale < n && n < i.high * scale

/-- The exponent of the first decimal digit of the value. -/
def leadingExponent (i : Interval) : Int :=
  let k : Int := ((Text.ofNat i.value).length : Int) - (Text.ofNat i.denominator).length
  let reached :=
    if 0 ≤ k then i.denominator * Nat.pow 10 k.toNat ≤ i.value
    else i.denominator ≤ i.value * Nat.pow 10 (-k).toNat
  if reached then k else k - 1

/-- The decimal with exponent `e` just below the value or at it, and twice what
is missing, over the weight of its last digit. -/
def below (i : Interval) (e : Int) : Nat × Nat × Nat :=
  let (n, d) :=
    if 0 ≤ e then (i.value, i.denominator * Nat.pow 10 e.toNat)
    else (i.value * Nat.pow 10 (-e).toNat, i.denominator)
  (n / d, 2 * (n % d), d)

/-- The nearer of the decimals with exponent `e` around the value that lie in
the interval. -/
def candidate? (i : Interval) (e : Int) : Option Decimal :=
  let (c, twice, d) := i.below e
  let lower : Decimal := ⟨c, e⟩
  let upper : Decimal := ⟨c + 1, e⟩
  match i.holds lower, i.holds upper with
  | true, true => some (if d ≤ twice then upper else lower)
  | true, false => some lower
  | false, true => some upper
  | false, false => none

end Interval

/-- A decimal without a zero at its end. -/
def dropLastZero (d : Decimal) : Decimal :=
  if d.digits % 10 = 0 then ⟨d.digits / 10, d.exponent + 1⟩ else d

/-- The shortest decimal that reads back as a positive double.  Seventeen digits
are always enough. -/
def shortest (significand : Nat) (exponent : Int) : Decimal :=
  let i := Interval.ofDouble significand exponent
  let lead := i.leadingExponent
  match (List.range 17).findSome? fun (n : Nat) => i.candidate? (lead - n) with
  | some d => dropLastZero d
  | none => ⟨(i.below (lead - 16)).1, lead - 16⟩

/-- The text of a double: positional, without a fraction for whole numbers, the
sign of zero kept. -/
def text : Double → Text
  | .finite negative significand exponent =>
      let digits := if significand = 0 then ['0'] else (shortest significand exponent).text
      if negative then '-' :: digits else digits
  | .infinite negative => if negative then "-inf" else "inf"
  | .nan => "NaN"

end Double

end TreeSync
