import TreeSync.Text

/-!
# TreeSync.Pattern.AnyDepth

The any-depth token `**/`.

In an ignore file the token stands for zero or more directories, in a filter
rule for one or more.  So a pattern with tokens is spelled out as every choice
of keeping or removing each token:

* `expandAnyDepth_length` — `k` tokens within the limit give `2 ^ k` variants;
* the variants that keep a token come before those that remove it, the first
  token being the slowest to change;
* past `maxVariants` the pattern stands alone, every token kept.
-/

namespace TreeSync.Pattern

/-- Most variants that one expansion step may give for a pattern. -/
def maxVariants : Nat := 1024

/-- The any-depth token. -/
def anyDepth : Text := ['*', '*', '/']

/-! ## a pattern as the texts between its tokens -/

/-- A pattern cut at its any-depth tokens: the text before the first token,
then the text after each token up to the next. -/
structure Cuts where
  first : Text
  rest : List Text

namespace Cuts

/-- Put a character in front of the first text. -/
def consChar (c : Char) (k : Cuts) : Cuts := ⟨c :: k.first, k.rest⟩

/-- Cut a pattern at its tokens, leftmost first and without overlap. -/
def ofText : Text → Cuts
  | [] => ⟨[], []⟩
  | '*' :: '*' :: '/' :: r => ⟨[], (ofText r).first :: (ofText r).rest⟩
  | c :: r => (ofText r).consChar c

/-- The variants of a cut pattern: each token kept, then removed, the choice at
the first token changing slowest. -/
def variants (first : Text) : List Text → List Text
  | [] => [first]
  | next :: rest =>
      let tails := variants next rest
      tails.map (first ++ anyDepth ++ ·) ++ tails.map (first ++ ·)

theorem length_variants (first : Text) (rest : List Text) :
    (variants first rest).length = Nat.pow 2 rest.length := by
  induction rest generalizing first with
  | nil => rfl
  | cons next rest ih => simp [variants, ih, Nat.pow_succ]; omega

theorem variants_ne_nil (first : Text) (rest : List Text) : variants first rest ≠ [] := by
  induction rest generalizing first with
  | nil => simp [variants]
  | cons next rest ih => simp [variants, ih]

end Cuts

/-- A pattern with every any-depth token removed. -/
def withoutAnyDepth : Text → Text
  | [] => []
  | '*' :: '*' :: '/' :: r => withoutAnyDepth r
  | c :: r => c :: withoutAnyDepth r

/-! ## the expansion -/

/-- How many any-depth tokens a pattern has. -/
def anyDepthCount (pattern : Text) : Nat := (Cuts.ofText pattern).rest.length

/-- True when the choices at the tokens are within the limit. -/
def anyDepthFits (pattern : Text) : Bool := Nat.pow 2 (anyDepthCount pattern) ≤ maxVariants

/-- Every choice of keeping or removing each any-depth token, or the pattern
alone when there are too many choices. -/
def expandAnyDepth (pattern : Text) : List Text :=
  if anyDepthFits pattern then
    Cuts.variants (Cuts.ofText pattern).first (Cuts.ofText pattern).rest
  else
    [pattern]

theorem expandAnyDepth_length {pattern : Text} (h : anyDepthFits pattern = true) :
    (expandAnyDepth pattern).length = Nat.pow 2 (anyDepthCount pattern) := by
  simp only [expandAnyDepth, h, if_true, Cuts.length_variants]; rfl

theorem expandAnyDepth_ne_nil (pattern : Text) : expandAnyDepth pattern ≠ [] := by
  unfold expandAnyDepth
  split
  · exact Cuts.variants_ne_nil _ _
  · simp

end TreeSync.Pattern
