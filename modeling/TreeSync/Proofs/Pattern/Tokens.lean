import TreeSync.Proofs.Pattern.Expansion
import Mathlib.Algebra.Order.Ring.Nat

/-!
# TreeSync.Proofs.Pattern.Tokens

Which variant of a pattern lacks which of its any-depth tokens.

The tokens of a pattern are the places where `**/` begins (`tokenPlaces`).  No two of
them overlap, so reading from the left finds them all.  With `k` tokens the variants are
numbered by `k` bits:

```
variant i  =  the pattern without the tokens whose bit of i is 1
```

The first token has the most significant bit, so variant `0` is the pattern itself and
the last variant has no token left (`expandAnyDepth_eq_choices`).
-/

namespace TreeSync.Pattern

/-! ## the tokens of a pattern -/

/-- The places of a pattern where an any-depth token begins. -/
def tokenPlaces (pattern : Text) : List Nat :=
  (List.range pattern.length).filter fun i => anyDepth.isPrefixOf (pattern.drop i)

/-- The places of a text are those of its rest, moved on by one, and perhaps the
first. -/
theorem tokenPlaces_cons (c : Char) (t : Text) :
    tokenPlaces (c :: t) =
      (if anyDepth.isPrefixOf (c :: t) then [0] else []) ++ (tokenPlaces t).map (· + 1) := by
  simp only [tokenPlaces, List.length_cons, List.range_succ_eq_map, List.filter_cons,
    List.filter_map, Function.comp_def, List.drop_zero, List.drop_succ_cons]
  split <;> simp

/-- A character that begins no token moves the tokens behind it by one place. -/
theorem tokenPlaces_cons_of_not_token {c : Char} {t : Text}
    (h : ∀ r, c = '*' → t = '*' :: '/' :: r → False) :
    tokenPlaces (c :: t) = (tokenPlaces t).map (· + 1) := by
  have htoken : anyDepth.isPrefixOf (c :: t) = false := by
    rw [← Bool.not_eq_true, List.isPrefixOf_iff_prefix]
    intro hstarts
    obtain ⟨r, hr⟩ := hstarts
    obtain ⟨rfl, rfl⟩ := List.cons.inj hr
    exact h r rfl rfl
  simp [tokenPlaces_cons, htoken]

/-- Behind a token the next place is a whole token further. -/
theorem tokenPlaces_anyDepth_append (t : Text) :
    tokenPlaces (anyDepth ++ t) = 0 :: (tokenPlaces t).map (· + anyDepth.length) := by
  simp [anyDepth, tokenPlaces_cons, List.isPrefixOf]

/-- **No two tokens overlap.** -/
theorem pairwise_tokenPlaces (pattern : Text) :
    (tokenPlaces pattern).Pairwise fun p q => p + anyDepth.length ≤ q := by
  induction pattern using withoutAnyDepth.induct with
  | case1 => exact List.Pairwise.nil
  | case2 r ih =>
      show (tokenPlaces (anyDepth ++ r)).Pairwise _
      rw [tokenPlaces_anyDepth_append, List.pairwise_cons, List.pairwise_map]
      exact ⟨by simp, ih.imp fun h => by omega⟩
  | case3 c r hc ih =>
      rw [tokenPlaces_cons_of_not_token hc, List.pairwise_map]
      exact ih.imp fun h => by omega

/-- Tokens are counted by their places. -/
theorem anyDepthCount_eq (pattern : Text) :
    anyDepthCount pattern = (tokenPlaces pattern).length := by
  induction pattern using withoutAnyDepth.induct with
  | case1 => rfl
  | case2 r ih =>
      show anyDepthCount (anyDepth ++ r) = (tokenPlaces (anyDepth ++ r)).length
      rw [anyDepthCount, Cuts.ofText_anyDepth_append, tokenPlaces_anyDepth_append]
      simp [← ih, anyDepthCount]
  | case3 c r hc ih =>
      rw [anyDepthCount, Cuts.ofText_cons_of_not_token hc, tokenPlaces_cons_of_not_token hc]
      simp [← ih, anyDepthCount, Cuts.prepend]

/-! ## tokens taken out -/

/-- A place of a pattern is within the token at one of some places. -/
def isWithin (places : List Nat) (i : Nat) : Bool :=
  places.any fun p => p ≤ i && i < p + anyDepth.length

/-- A pattern without the tokens at some places. -/
def without (places : List Nat) (pattern : Text) : Text :=
  (pattern.zipIdx.filter fun (_, i) => !isWithin places i).map (·.1)

theorem isWithin_cons (place : Nat) (places : List Nat) (i : Nat) :
    isWithin (place :: places) i =
      (decide (place ≤ i) && decide (i < place + anyDepth.length) || isWithin places i) := rfl

/-- Places and a position that move on alike. -/
theorem isWithin_map_add (places : List Nat) (n i : Nat) :
    isWithin (places.map (· + n)) (n + i) = isWithin places i := by
  rw [Bool.eq_iff_iff]
  simp only [isWithin, List.any_map, List.any_eq_true, Function.comp_apply, Bool.and_eq_true,
    decide_eq_true_eq]
  grind

theorem isWithin_eq_false_of_lt {places : List Nat} {n i : Nat} (h : i < n) :
    isWithin (places.map (· + n)) i = false := by
  simp only [isWithin, List.any_map, List.any_eq_false, Function.comp_apply, Bool.and_eq_true,
    decide_eq_true_eq]
  intro p _
  omega

/-- Without any places a text is as it was. -/
theorem without_nil (pattern : Text) : without [] pattern = pattern := by
  rw [without, List.filter_eq_self.mpr (by simp [isWithin]), List.zipIdx_map_fst]

/-- What is taken out of the rest of a pattern, counted from the beginning of the rest. -/
theorem map_filter_zipIdx {shifted places : List Nat} {n : Nat}
    (h : ∀ i, isWithin shifted (n + i) = isWithin places i) (t : Text) :
    ((t.zipIdx n).filter fun (_, i) => !isWithin shifted i).map (·.1) = without places t := by
  simp [without, List.zipIdx_eq_map_add (i := n), List.filter_map, Function.comp_def, h]

/-- Tokens behind a text leave it as it is. -/
theorem without_append (front : Text) (places : List Nat) (t : Text) :
    without (places.map (· + front.length)) (front ++ t) = front ++ without places t := by
  have hfront : (front.zipIdx.filter fun (_, i) =>
      !isWithin (places.map (· + front.length)) i) = front.zipIdx := by
    rw [List.filter_eq_self]
    intro x hx
    have hlt : x.2 < front.length := by simpa using List.snd_lt_add_of_mem_zipIdx hx
    simp [isWithin_eq_false_of_lt hlt]
  rw [without, List.zipIdx_append, List.filter_append, List.map_append, hfront,
    List.zipIdx_map_fst, map_filter_zipIdx fun i => by simpa using isWithin_map_add places _ i]

/-- A token in front is taken out. -/
theorem without_anyDepth_append (places : List Nat) (t : Text) :
    without (0 :: places.map (· + anyDepth.length)) (anyDepth ++ t) = without places t := by
  have hplaces : ∀ i, isWithin (0 :: places.map (· + anyDepth.length)) (0 + anyDepth.length + i) =
      isWithin places i := by
    intro i
    have hbehind : ¬ anyDepth.length + i < anyDepth.length := by omega
    rw [Nat.zero_add, isWithin_cons, isWithin_map_add]
    simp [hbehind]
  have hfront : (anyDepth.zipIdx.filter fun (_, i) =>
      !isWithin (0 :: places.map (· + anyDepth.length)) i) = [] := by
    simp [anyDepth, isWithin]
  rw [without, List.zipIdx_append, List.filter_append, hfront, List.nil_append,
    map_filter_zipIdx hplaces]

/-! ## the choices -/

/-- The places whose bit of a number is 1, the first place having the most significant. -/
def chosen (number : Nat) : List Nat → List Nat
  | [] => []
  | place :: places =>
      if number.testBit places.length then place :: chosen number places else chosen number places

/-- Places can be chosen before they move on. -/
theorem chosen_map (number : Nat) (f : Nat → Nat) (places : List Nat) :
    chosen number (places.map f) = (chosen number places).map f := by
  induction places with
  | nil => rfl
  | cons place places ih => by_cases h : number.testBit places.length <;> simp [chosen, h, ih]

/-- A bit above those of the places changes nothing about them. -/
theorem chosen_two_pow_add {n : Nat} {places : List Nat} (h : places.length ≤ n) (number : Nat) :
    chosen (2 ^ n + number) places = chosen number places := by
  induction places with
  | nil => rfl
  | cons place places ih =>
      have hbit : (2 ^ n + number).testBit places.length = number.testBit places.length :=
        Nat.testBit_two_pow_add_gt h number
      simp [chosen, hbit, ih (Nat.le_of_lt h)]

section
variable {n number place : Nat} {places : List Nat} (hlength : places.length = n)
  (hnumber : number < 2 ^ n)
include hlength hnumber

/-- The lower half of the numbers does not choose the first place. -/
theorem chosen_cons_of_lt : chosen number (place :: places) = chosen number places := by
  simp [chosen, hlength, Nat.testBit_lt_two_pow hnumber]

/-- The upper half of the numbers does. -/
theorem chosen_cons_two_pow_add :
    chosen (2 ^ n + number) (place :: places) = place :: chosen number places := by
  simp [chosen, hlength, Nat.testBit_two_pow_add_eq, Nat.testBit_lt_two_pow hnumber,
    chosen_two_pow_add (Nat.le_of_eq hlength)]

end

theorem chosen_zero (places : List Nat) : chosen 0 places = [] := by
  induction places with
  | nil => rfl
  | cons place places ih => simp [chosen, ih]

/-- The last number chooses every place. -/
theorem chosen_last (places : List Nat) : chosen (2 ^ places.length - 1) places = places := by
  induction places with
  | nil => rfl
  | cons place places ih =>
      have hpos : 0 < 2 ^ places.length := Nat.two_pow_pos places.length
      have hlast : 2 ^ (place :: places).length - 1 =
          2 ^ places.length + (2 ^ places.length - 1) := by
        rw [List.length_cons, Nat.pow_succ]
        omega
      rw [hlast, chosen_cons_two_pow_add rfl (by omega), ih]

/-! ## the variants -/

/-- **The variants in their order**: each lacks the tokens that its number chooses. -/
theorem spell_eq_choices (pattern : Text) :
    (Cuts.ofText pattern).spell =
      (List.range (2 ^ (tokenPlaces pattern).length)).map fun number =>
        without (chosen number (tokenPlaces pattern)) pattern := by
  induction pattern using withoutAnyDepth.induct with
  | case1 => rfl
  | case2 r ih =>
      show (Cuts.ofText (anyDepth ++ r)).spell =
        (List.range (2 ^ (tokenPlaces (anyDepth ++ r)).length)).map fun number =>
          without (chosen number (tokenPlaces (anyDepth ++ r))) (anyDepth ++ r)
      rw [Cuts.spell_anyDepth_append, ih, tokenPlaces_anyDepth_append, List.length_cons,
        List.length_map, Nat.pow_succ, Nat.mul_two, List.range_add, List.map_append, List.map_map,
        List.map_map]
      -- The first token is kept in the lower half of the numbers and removed in the upper.
      congr 1
      · apply List.map_congr_left
        intro number hnumber
        rw [chosen_cons_of_lt (List.length_map _) (List.mem_range.mp hnumber), chosen_map,
          without_append]
        rfl
      · apply List.map_congr_left
        intro number hnumber
        rw [Function.comp_apply,
          chosen_cons_two_pow_add (List.length_map _) (List.mem_range.mp hnumber), chosen_map,
          without_anyDepth_append]
  | case3 c r hc ih =>
      rw [Cuts.ofText_cons_of_not_token hc, Cuts.spell_prepend, ih,
        tokenPlaces_cons_of_not_token hc, List.length_map, List.map_map]
      apply List.map_congr_left
      intro number _
      rw [chosen_map]
      exact (without_append [c] _ r).symm

/-- **The limit** is ten tokens. -/
theorem anyDepthFits_iff (pattern : Text) :
    anyDepthFits pattern = true ↔ (tokenPlaces pattern).length ≤ 10 := by
  have hlimit : maxVariants = 2 ^ 10 := by decide
  rw [anyDepthFits, decide_eq_true_eq, anyDepthCount_eq, hlimit]
  exact Nat.pow_le_pow_iff_right (by decide)

/-- The expansion as the list of all choices, where there are not too many. -/
theorem expandAnyDepth_eq_ite (pattern : Text) :
    expandAnyDepth pattern =
      if (tokenPlaces pattern).length ≤ 10 then
        (List.range (2 ^ (tokenPlaces pattern).length)).map fun number =>
          without (chosen number (tokenPlaces pattern)) pattern
      else [pattern] := by
  simp only [expandAnyDepth, anyDepthFits_iff, ← spell_eq_choices]
  rfl

/-- No pattern has more variants than the limit. -/
theorem length_expandAnyDepth_le (pattern : Text) :
    (expandAnyDepth pattern).length ≤ maxVariants := by
  rw [expandAnyDepth]
  split
  · next hfits =>
      rw [Cuts.length_variants]
      exact of_decide_eq_true hfits
  · simp [maxVariants]

/-- **Any-depth expansion enumerates every choice**, each once and in order.  The tokens
do not overlap, and with at most ten of them variant `i` of the `2 ^ k` lacks just the
tokens whose bit of `i` is 1, the first token having the most significant bit; so the
first variant is the pattern, and the last one has no token.  With more tokens the pattern
stands alone. -/
theorem expandAnyDepth_eq_choices (pattern : Text) :
    (tokenPlaces pattern).Pairwise (fun p q => p + anyDepth.length ≤ q) ∧
      expandAnyDepth pattern =
        (if (tokenPlaces pattern).length ≤ 10 then
          (List.range (2 ^ (tokenPlaces pattern).length)).map fun number =>
            without (chosen number (tokenPlaces pattern)) pattern
        else [pattern]) ∧
      (expandAnyDepth pattern).length ≤ maxVariants ∧
      (expandAnyDepth pattern).head? = some pattern ∧
      (expandAnyDepth pattern).getLast? =
        some (if (tokenPlaces pattern).length ≤ 10 then without (tokenPlaces pattern) pattern
          else pattern) := by
  refine ⟨pairwise_tokenPlaces pattern, expandAnyDepth_eq_ite pattern,
    length_expandAnyDepth_le pattern, ?_, ?_⟩
  · rw [expandAnyDepth_eq_ite]
    split
    · simp [List.head?_range, chosen_zero, without_nil]
    · rfl
  · rw [expandAnyDepth_eq_ite]
    split
    · simp [List.getLast?_range, chosen_last]
    · rfl

/-- Three stars before a slash are a star and a token. -/
example : tokenPlaces "***/**/x" = [1, 4] ∧
    expandAnyDepth "***/**/x" =
      ["***/**/x".toList, "***/x".toList, "***/x".toList, "*x".toList] := by
  decide

end TreeSync.Pattern
