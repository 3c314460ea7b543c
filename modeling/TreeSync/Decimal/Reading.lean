import TreeSync.Decimal.Double

/-!
# TreeSync.Decimal.Reading

Numbers as a user writes them: an optional sign, then `inf`, `infinity`, `nan`
in any case, or digits with at most one point and an optional exponent.  At
least one digit stands before the exponent; the point may come first or last.
-/

namespace TreeSync.Double

/-- The decimal digits at the start of a text, and what follows them. -/
def spanDigits : Text → List Nat × Text
  | [] => ([], [])
  | c :: r =>
      match Text.digit? c with
      | none => ([], c :: r)
      | some d => let (ds, rest) := spanDigits r; (d :: ds, rest)

/-- An optional sign; the flag tells a minus. -/
def spanSign : Text → Bool × Text
  | '-' :: r => (true, r)
  | '+' :: r => (false, r)
  | t => (false, t)

/-- The exponent that fills the whole text, `none` if it is not one; a text
without exponent counts as zero. -/
def exponent? : Text → Option Int
  | [] => some 0
  | c :: r =>
      if c = 'e' ∨ c = 'E' then
        let (negative, digits) := spanSign r
        match spanDigits digits with
        | ([], _) => none
        | (ds, []) =>
            let n : Int := Text.natOfDigits ds
            some (if negative then -n else n)
        | (_, _ :: _) => none
      else none

/-- An exponent beyond this decides the outcome whatever the digits are, as long
as the text has no more digits than that. -/
def exponentLimit (digits : Nat) : Int := 400 + digits

/-- An exponent drawn to the limits within which it matters. -/
def clampExponent (digits : Nat) (e : Int) : Int :=
  max (-exponentLimit digits) (min (exponentLimit digits) e)

/-- Read digits with an optional point and exponent. -/
def unsigned? (negative : Bool) (t : Text) : Option Double :=
  let (whole, rest) := spanDigits t
  let (fraction, rest) :=
    match rest with
    | '.' :: r => spanDigits r
    | r => ([], r)
  if whole = [] ∧ fraction = [] then none
  else
    match exponent? rest with
    | none => none
    | some e =>
        let digits := whole ++ fraction
        some (ofDecimal negative (Text.natOfDigits digits)
          (clampExponent digits.length e - fraction.length))

/-- Read a number that fills the whole text. -/
def ofText? (t : Text) : Option Double :=
  let (negative, rest) := spanSign t
  let word := rest.map Char.toLower
  if word = "inf" ∨ word = "infinity" then some (.infinite negative)
  else if word = "nan" then some .nan
  else unsigned? negative rest

end TreeSync.Double
