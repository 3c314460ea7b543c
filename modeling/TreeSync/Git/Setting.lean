import TreeSync.Git.ConfigFile

/-!
# TreeSync.Git.Setting

Looking settings up in git configuration: the names of settings, and values as
text, as truth values and as paths.

The last variable of a name counts, in the nearest file that has one.
-/

namespace TreeSync.Git

/-- What is wrong with a setting. -/
inductive SettingFault
  | notBoolean (value : Text)
  | invalidName (name : Text)
  | nulInName
  | notText
  deriving DecidableEq, Repr

/-- The text of a fault. -/
def SettingFault.message : SettingFault → Text
  | .notBoolean value => "failed to parse '" ++ value ++ "' as a boolean"
  | .invalidName name => "invalid config item name '" ++ name ++ "'"
  | .nulInName => "data contained a nul byte that could not be represented as a string"
  | .notText => "configuration value is not valid utf8"

/-! ## names -/

/-- True of the section and the last part of a name. -/
def isNamePart (part : Text) : Bool :=
  part ≠ [] && part.head? ≠ some '-' && part.all ConfigFile.isNameChar

/-- A name as configuration files hold it: its section and its last part in lower
case, what stands between as it is. -/
def canonicalName? (name : Text) : Option Text :=
  let parts := Text.pieces '.' name
  match parts, parts.getLast? with
  | section' :: _ :: _, some last =>
      let middle := parts.tail.dropLast
      if isNamePart section' && isNamePart last && !(middle.any (·.contains '\n')) then
        some (Text.joinWith ['.'] ((section'.map Char.toLower) :: middle ++ [last.map Char.toLower]))
      else none
  | _, _ => none

/-- Look a name up in files, the nearest first.  The inner option is the value. -/
def lookup (files : List (List Variable)) (name : Text) : Option (Option Text) :=
  files.findSome? fun file =>
    (file.reverse.find? (·.name == name)).map Variable.value

/-- Look up what the user calls `name`. -/
def find (files : List (List Variable)) (name : Text) :
    Except SettingFault (Option (Option Text)) :=
  if name.contains '\x00' then .error .nulInName
  else
    match canonicalName? (Text.octets name.bytes) with
    | none => .error (.invalidName name)
    | some canonical => .ok (lookup files canonical)

/-! ## values -/

/-- The value of a setting as text; a variable without a value is empty. -/
def textSetting (files : List (List Variable)) (name : Text) :
    Except SettingFault (Option Text) := do
  match ← find files name with
  | none => pure none
  | some none => pure (some [])
  | some (some value) =>
      match Text.ofOctets? value with
      | some text => pure (some text)
      | none => throw .notText

/-- Numbers are cut to 64 bits. -/
def wrap64 (i : Int) : Int := i.bmod 0x10000000000000000

/-- The digit that a character is in a base. -/
def digitIn? (base : Nat) (c : Char) : Option Nat :=
  let v :=
    if '0' ≤ c ∧ c ≤ '9' then c.toNat - '0'.toNat
    else if 'a' ≤ c ∧ c ≤ 'z' then c.toNat - 'a'.toNat + 10
    else if 'A' ≤ c ∧ c ≤ 'Z' then c.toNat - 'A'.toNat + 10
    else base
  if v < base then some v else none

/-- The base of a number without its sign, and its digits.  A leading zero counts
as a digit in base eight, too. -/
def baseOf : Text → Nat × Text
  | '0' :: 'x' :: c :: r => (16, c :: r)
  | '0' :: 'X' :: c :: r => (16, c :: r)
  | '0' :: r => (8, '0' :: r)
  | t => (10, t)

/-- A number with an optional sign and a unit `k`, `m` or `g`, that has 32 bits. -/
def int32? (value : Text) : Option Int := do
  let t := value.dropWhile ConfigFile.isSpace
  let (negative, t) := match t with
    | '-' :: r => (true, r)
    | '+' :: r => (false, r)
    | t => (false, t)
  let (base, t) := baseOf t
  let isDigit (c : Char) := (digitIn? base c).isSome
  let digits := (t.takeWhile isDigit).filterMap (digitIn? base)
  if digits = [] then none
  else
    let size : Nat := digits.foldl (fun n d => base * n + d) 0
    let n : Int := if negative then -size else size
    if n < -0x8000000000000000 ∨ 0x8000000000000000 ≤ n then none
    else
      let n ← match t.dropWhile isDigit with
        | [] => some n
        | ['k'] | ['K'] => some (wrap64 (n * 1024))
        | ['m'] | ['M'] => some (wrap64 (n * 1024 * 1024))
        | ['g'] | ['G'] => some (wrap64 (n * 1024 * 1024 * 1024))
        | _ => none
      if -0x80000000 ≤ n ∧ n < 0x80000000 then some n else none

/-- The truth value that a value spells: a word, or a number that is zero or not.
A variable without a value is true. -/
def boolean? : Option Text → Option Bool
  | none => some true
  | some value =>
      let word := value.map Char.toLower
      if word = "true" ∨ word = "yes" ∨ word = "on" then some true
      else if word = "false" ∨ word = "no" ∨ word = "off" ∨ word = [] then some false
      else (int32? value).map (· != 0)

/-- The value of a setting as a truth value. -/
def boolSetting (files : List (List Variable)) (name : Text) :
    Except SettingFault (Option Bool) := do
  match ← find files name with
  | none => pure none
  | some value =>
      match boolean? value with
      | some b => pure (some b)
      | none => throw (.notBoolean (Text.ofBytesLossy (Text.bytesOfOctets (value.getD []))))

/-- A path in a value; a tilde with a slash or alone stands for the home
directory, and with a name it is refused. -/
def expandPath? (home value : Text) : Option Text :=
  match value with
  | ['~'] => some home
  | '~' :: '/' :: r =>
      some (Text.endWith '/' home ++ r.dropWhile (· == '/'))
  | '~' :: _ => none
  | _ => some value

end TreeSync.Git
