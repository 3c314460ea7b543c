import TreeSync.Text

/-!
# TreeSync.Decimal.Double

Doubles as exact numbers: a finite double is a significand of at most 53 bits
times a power of two, so every question about one is a question about natural
numbers.

A decimal is rounded to the nearest double, and to the even significand when two
are equally near.
-/

namespace TreeSync

/-- A double: `± significand · 2 ^ exponent`, an infinity, or not a number. -/
inductive Double
  | finite (negative : Bool) (significand : Nat) (exponent : Int)
  | infinite (negative : Bool)
  | nan
  deriving DecidableEq, Repr

namespace Double

/-! ## the format -/

/-- Bits of a significand. -/
def precision : Nat := 53

/-- The exponent of the smallest doubles. -/
def minExponent : Int := -1074

/-- The exponent of the largest doubles. -/
def maxExponent : Int := 971

/-- Zero with a sign. -/
def zero (negative : Bool) : Double := .finite negative 0 minExponent

/-! ## rounding a quotient -/

/-- A quotient rounded to the nearest integer, a half to the even one. -/
def roundHalfEven (num den : Nat) : Nat :=
  let q := num / den
  let twice := 2 * (num % den)
  if twice < den then q
  else if den < twice then q + 1
  else q + q % 2

/-- The quotient `num / (den · 2 ^ e)` as a pair. -/
def scaled (num den : Nat) (e : Int) : Nat × Nat :=
  if 0 ≤ e then (num, den * Nat.pow 2 e.toNat) else (num * Nat.pow 2 (-e).toNat, den)

/-- The exponent that gives the significand of `num / den` all its bits, as far
as the format goes. -/
def exponentOf (num den : Nat) : Int :=
  let e : Int := (Nat.log2 num : Int) - Nat.log2 den - 52
  let (n, d) := scaled num den e
  max minExponent (if n < Nat.pow 2 52 * d then e - 1 else e)

/-- The double nearest to the quotient of two positive numbers. -/
def ofQuotient (negative : Bool) (num den : Nat) : Double :=
  let e := exponentOf num den
  let (n, d) := scaled num den e
  let m := roundHalfEven n d
  let (m, e) := if m = Nat.pow 2 precision then (Nat.pow 2 52, e + 1) else (m, e)
  if maxExponent < e then .infinite negative else .finite negative m e

/-- The double nearest to `± digits · 10 ^ exponent`.  Beyond three hundred and
some places the outcome is plain, and no power is computed. -/
def ofDecimal (negative : Bool) (digits : Nat) (exponent : Int) : Double :=
  if digits = 0 then zero negative
  else
    let size : Int := ((Nat.toDigits 10 digits).length : Int) + exponent
    if 310 < size then .infinite negative
    else if size < -345 then zero negative
    else if 0 ≤ exponent then ofQuotient negative (digits * Nat.pow 10 exponent.toNat) 1
    else ofQuotient negative digits (Nat.pow 10 (-exponent).toNat)

/-- The double nearest to an integer. -/
def ofInt (i : Int) : Double := ofDecimal (i < 0) i.natAbs 0

/-! ## tests -/

/-- True of finite doubles. -/
def isFinite : Double → Bool
  | .finite .. => true
  | _ => false

/-- True of doubles below zero; the negative zero is not. -/
def isBelowZero : Double → Bool
  | .finite negative significand _ => negative && significand != 0
  | .infinite negative => negative
  | .nan => false

end Double

end TreeSync
