import TreeSync.Pattern.AnyDepth

/-!
# TreeSync.Pattern.Group

Bracket groups such as `[0-9a-f]`.

Filter rules carry no groups: a pattern is spelled out as one variant for each
choice of a member from each group.

* a group is `[`, one or more characters other than `]`, and `]`; a bracket
  that opens no group stands for itself;
* in a body, `a-c` is a range when it ascends and three members when it does
  not; every other character is a member;
* a negated group, `[!abc]` or `[^abc]`, cannot be spelled out, and neither can
  a pattern with too many choices: such groups become the wildcard `?`.
-/

namespace TreeSync.Pattern

/-! ## the body of a group -/

/-- The characters excluded by a negated body.  A body that is only the
negation mark is a plain body with that one member. -/
def negated? : Text → Option Text
  | '!' :: c :: r => some (c :: r)
  | '^' :: c :: r => some (c :: r)
  | _ => none

/-- The inclusive ranges of a body, left to right; a member that is no part of
a range is a range of one. -/
def ranges : Text → List (Char × Char)
  | [] => []
  | first :: '-' :: last :: r =>
      if first ≤ last then (first, last) :: ranges r
      else (first, first) :: ('-', '-') :: (last, last) :: ranges r
  | c :: r => (c, c) :: ranges r

/-- The character with a given code point, when there is one. -/
def charAt? (n : Nat) : Option Char :=
  if h : n.isValidChar then some (Char.ofNatAux n h) else none

/-- The characters from `first` to `last`, both included. -/
def rangeChars (first last : Char) : List Char :=
  (List.range' first.toNat (last.toNat + 1 - first.toNat)).filterMap charAt?

/-- The members of a body, each once, in the order of first appearance. -/
def members (body : Text) : List Char :=
  ((ranges body).flatMap fun (first, last) => rangeChars first last).eraseDups

/-- An upper bound of the number of members, from the ends of the ranges alone. -/
def sizeBound (body : Text) : Nat :=
  (ranges body).foldl (fun n (first, last) => n + (last.toNat - first.toNat + 1)) 0

/-! ## a pattern as characters and groups -/

/-- A part of a pattern: a character that stands for itself, or a group. -/
inductive Part
  | char (c : Char)
  | group (body : Text)
  deriving DecidableEq, Repr

namespace Part

/-- Cut a pattern into parts.  `opened` is the text read since an opening
bracket, which turns out to be a body if a closing bracket follows it. -/
def scan (opened : Option Text) : Text → List Part
  | [] =>
      match opened with
      | none => []
      | some body => .char '[' :: body.map .char
  | c :: r =>
      match opened with
      | none => if c = '[' then scan (some []) r else .char c :: scan none r
      | some [] =>
          if c = ']' then .char '[' :: .char ']' :: scan none r else scan (some [c]) r
      | some (b :: body) =>
          if c = ']' then .group (b :: body) :: scan none r
          else scan (some (b :: body ++ [c])) r

/-- The parts of a pattern. -/
def ofText (pattern : Text) : List Part := scan none pattern

/-- The characters that a part offers to the variants. -/
def choices : Part → List Char
  | .char c => [c]
  | .group body => if (negated? body).isSome then ['?'] else members body

/-- An upper bound of the number of choices. -/
def choiceBound : Part → Nat
  | .char _ => 1
  | .group body => if (negated? body).isSome then 1 else sizeBound body

/-- A part with a group widened to the one-character wildcard. -/
def widen : Part → Char
  | .char c => c
  | .group _ => '?'

/-- True of a group that only a wildcard can stand for. -/
def isNegated : Part → Bool
  | .char _ => false
  | .group body => (negated? body).isSome

/-- One text for each combination of choices, the first part changing slowest. -/
def combinations : List Part → List Text
  | [] => [[]]
  | part :: parts =>
      let tails := combinations parts
      part.choices.flatMap fun c => tails.map (c :: ·)

/-- A text without an opening bracket is its own parts. -/
theorem scan_none_eq_map {t : Text} (h : '[' ∉ t) : scan none t = t.map .char := by
  induction t with
  | nil => rfl
  | cons c r ih =>
      simp only [List.mem_cons, not_or] at h
      simp [scan, Ne.symm h.1, ih h.2]

end Part

/-! ## the expansion -/

/-- True when the combinations of choices are surely within the limit. -/
def groupsFit (pattern : Text) : Bool :=
  (Part.ofText pattern).foldl (fun n part => n * part.choiceBound) 1 ≤ maxVariants

/-- One variant for each combination of members of the groups; with too many
combinations, the pattern with every group widened to a wildcard. -/
def expandGroups (pattern : Text) : List Text :=
  if groupsFit pattern then Part.combinations (Part.ofText pattern)
  else [(Part.ofText pattern).map Part.widen]

/-- True when the variants say more than the pattern does: a group had to be
widened to a wildcard. -/
def widensGroups (pattern : Text) : Bool :=
  !groupsFit pattern || (Part.ofText pattern).any Part.isNegated

end TreeSync.Pattern
