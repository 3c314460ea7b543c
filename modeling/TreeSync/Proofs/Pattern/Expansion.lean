import TreeSync.Pattern.Group

/-!
# TreeSync.Proofs.Pattern.Expansion

How the two expansions of a pattern treat the text around what they expand.

Both read a pattern from the left, so a character that cannot belong to a token
or a group is carried to the front of every variant:

* `expandAnyDepth_cons` — any character but a star;
* `expandGroups_cons` — any character but an opening bracket.

At a token the variants split in two, and `Cuts.ofText_append` carries a whole
name to the front, stars included, as long as it holds no two of them in a row.
A variant of the first expansion is never more than the pattern
(`sublist_of_mem_expandAnyDepth`).
-/

namespace TreeSync.Pattern

/-! ## any-depth tokens -/

namespace Cuts

/-- Put a text in front of the first text. -/
def prepend (t : Text) (k : Cuts) : Cuts := ⟨t ++ k.first, k.rest⟩

/-- The variants of a pattern that is cut at its tokens. -/
def spell (k : Cuts) : List Text := variants k.first k.rest

/-- A token in front is a cut. -/
theorem ofText_anyDepth_append (t : Text) :
    ofText (anyDepth ++ t) = ⟨[], (ofText t).first :: (ofText t).rest⟩ := rfl

/-- A character that begins no token is carried along. -/
theorem ofText_cons_of_not_token {c : Char} {t : Text}
    (h : ∀ r, c = '*' → t = '*' :: '/' :: r → False) :
    ofText (c :: t) = (ofText t).prepend [c] := by
  rw [ofText]
  · rfl
  · exact h

/-- A character that begins no token is put in front of the first piece. -/
theorem ofText_cons {c : Char} (hc : c ≠ '*') (t : Text) :
    ofText (c :: t) = (ofText t).prepend [c] :=
  ofText_cons_of_not_token fun _ h _ => hc h

/-- Nor does a star without a star and a slash behind it begin one. -/
theorem ofText_star {t : Text} (ht : ¬ ['*', '/'] <+: t) :
    ofText ('*' :: t) = (ofText t).prepend ['*'] :=
  ofText_cons_of_not_token fun r _ htail => ht ⟨r, htail.symm⟩

/-- A pattern without slashes holds no token. -/
theorem ofText_of_slash_not_mem {pattern : Text} (h : '/' ∉ pattern) :
    ofText pattern = ⟨pattern, []⟩ := by
  induction pattern with
  | nil => rfl
  | cons c r ih =>
      obtain ⟨-, hr⟩ := not_or.mp (mt List.mem_cons.mpr h)
      have htoken : ∀ r', c = '*' → r = '*' :: '/' :: r' → False := by
        rintro r' - rfl
        simp at hr
      rw [ofText_cons_of_not_token htoken, ih hr]
      rfl

/-- A text without two stars in a row holds no token, and is no part of one
unless a star follows it. -/
theorem ofText_append {p t : Text} (hp : ¬ ['*', '*'] <:+: p) (ht : t.head? ≠ some '*') :
    ofText (p ++ t) = (ofText t).prepend p := by
  induction p with
  | nil => rfl
  | cons c p ih =>
      have hcons : ofText (c :: (p ++ t)) = (ofText (p ++ t)).prepend [c] := by
        by_cases hc : c = '*'
        · subst hc
          apply ofText_star
          intro hex
          obtain ⟨r, hr⟩ := hex
          -- The second star is the first of `t` or stands in `p`.
          cases p with
          | nil => exact ht (by rw [List.nil_append] at hr; rw [← hr]; rfl)
          | cons d p =>
              have hd : '*' = d := (List.cons.inj hr).1
              exact hp ⟨[], p, by rw [hd]; rfl⟩
        · exact ofText_cons hc _
      have hp' : ¬ ['*', '*'] <:+: p := fun h => hp (List.infix_cons h)
      rw [List.cons_append, hcons, ih hp']
      rfl

/-- A pattern without stars holds no token. -/
theorem ofText_of_star_not_mem {pattern : Text} (h : '*' ∉ pattern) :
    ofText pattern = ⟨pattern, []⟩ := by
  have hstars : ¬ ['*', '*'] <:+: pattern := fun hwithin => h (hwithin.subset List.mem_cons_self)
  have hcuts := ofText_append (t := []) hstars (by simp)
  rw [List.append_nil] at hcuts
  rw [hcuts]
  simp [ofText, prepend]

/-- A text in front of the first piece is in front of every variant. -/
theorem variants_append (p first : Text) (rest : List Text) :
    variants (p ++ first) rest = (variants first rest).map (p ++ ·) := by
  cases rest with
  | nil => rfl
  | cons next rest => simp [variants, Function.comp_def]

theorem spell_prepend (p : Text) (k : Cuts) : (k.prepend p).spell = k.spell.map (p ++ ·) :=
  variants_append p k.first k.rest

/-- The variants that keep a token come before those that remove it. -/
theorem spell_anyDepth_append (t : Text) :
    (ofText (anyDepth ++ t)).spell =
      (ofText t).spell.map (anyDepth ++ ·) ++ (ofText t).spell := by
  rw [ofText_anyDepth_append]
  simp [spell, variants]

end Cuts

/-- The last variant is the pattern with every token removed. -/
theorem withoutAnyDepth_mem_spell (pattern : Text) :
    withoutAnyDepth pattern ∈ (Cuts.ofText pattern).spell := by
  induction pattern using withoutAnyDepth.induct with
  | case1 => exact List.mem_singleton_self []
  | case2 r ih =>
      show withoutAnyDepth r ∈ (Cuts.ofText (anyDepth ++ r)).spell
      rw [Cuts.spell_anyDepth_append]
      exact List.mem_append_right _ ih
  | case3 c r hc ih =>
      rw [withoutAnyDepth, Cuts.ofText_cons_of_not_token hc, Cuts.spell_prepend]
      · exact List.mem_map.mpr ⟨_, ih, rfl⟩
      · exact hc

/-- A pattern without cuts has no tokens to lose. -/
theorem withoutAnyDepth_of_cuts {pattern : Text} (h : Cuts.ofText pattern = ⟨pattern, []⟩) :
    withoutAnyDepth pattern = pattern := by
  have hspell := withoutAnyDepth_mem_spell pattern
  rw [h] at hspell
  exact List.mem_singleton.mp hspell

/-- A variant is the pattern with some tokens removed. -/
theorem sublist_of_mem_spell {pattern variant : Text}
    (h : variant ∈ (Cuts.ofText pattern).spell) : variant.Sublist pattern := by
  induction pattern using withoutAnyDepth.induct generalizing variant with
  | case1 => simp_all [Cuts.ofText, Cuts.spell, Cuts.variants]
  | case2 r ih =>
      change variant ∈ (Cuts.ofText (anyDepth ++ r)).spell at h
      rw [Cuts.spell_anyDepth_append, List.mem_append] at h
      obtain h | h := h
      · obtain ⟨tail, htail, rfl⟩ := List.mem_map.mp h
        exact (ih htail).append_left anyDepth
      · exact (ih h).trans (List.sublist_append_right anyDepth r)
  | case3 c r hc ih =>
      rw [Cuts.ofText_cons_of_not_token hc, Cuts.spell_prepend] at h
      obtain ⟨tail, htail, rfl⟩ := List.mem_map.mp h
      exact (ih htail).cons_cons c

/-- A variant is the pattern with tokens left out. -/
theorem sublist_of_mem_expandAnyDepth {pattern variant : Text}
    (h : variant ∈ expandAnyDepth pattern) : variant.Sublist pattern := by
  rw [expandAnyDepth] at h
  split at h
  · exact sublist_of_mem_spell h
  · obtain rfl := List.mem_singleton.mp h
    exact List.Sublist.refl variant

/-- Ten tokens are within the limit. -/
theorem anyDepthFits_of_count_le {pattern : Text} (h : anyDepthCount pattern ≤ 10) :
    anyDepthFits pattern = true := by
  rw [anyDepthFits, decide_eq_true_eq]
  calc
    2 ^ anyDepthCount pattern ≤ 2 ^ 10 := Nat.pow_le_pow_right (by decide) h
    _ = maxVariants := by decide

/-- Within the limit the expansion is every variant. -/
theorem expandAnyDepth_of_count_le {pattern : Text} (h : anyDepthCount pattern ≤ 10) :
    expandAnyDepth pattern = (Cuts.ofText pattern).spell := by
  rw [expandAnyDepth, if_pos (anyDepthFits_of_count_le h)]
  rfl

/-- A pattern without tokens is its only variant. -/
theorem expandAnyDepth_of_cuts {pattern : Text} (h : Cuts.ofText pattern = ⟨pattern, []⟩) :
    expandAnyDepth pattern = [pattern] := by
  have hcount : anyDepthCount pattern ≤ 10 := by simp [anyDepthCount, h]
  rw [expandAnyDepth_of_count_le hcount, h]
  rfl

/-- Without a slash there is no token. -/
theorem expandAnyDepth_of_slash_not_mem {pattern : Text} (h : '/' ∉ pattern) :
    expandAnyDepth pattern = [pattern] :=
  expandAnyDepth_of_cuts (Cuts.ofText_of_slash_not_mem h)

/-- Nor is there one without a star. -/
theorem expandAnyDepth_of_star_not_mem {pattern : Text} (h : '*' ∉ pattern) :
    expandAnyDepth pattern = [pattern] :=
  expandAnyDepth_of_cuts (Cuts.ofText_of_star_not_mem h)

/-- One token in front is kept, then removed. -/
theorem expandAnyDepth_anyDepth_append {pattern : Text} (h : '*' ∉ pattern) :
    expandAnyDepth (anyDepth ++ pattern) = [anyDepth ++ pattern, pattern] := by
  have hcuts := Cuts.ofText_of_star_not_mem h
  have hcount : anyDepthCount (anyDepth ++ pattern) ≤ 10 := by
    simp [anyDepthCount, Cuts.ofText_anyDepth_append, hcuts]
  rw [expandAnyDepth_of_count_le hcount, Cuts.spell_anyDepth_append, hcuts]
  rfl

/-- A character other than a star stays in front of every variant. -/
theorem expandAnyDepth_cons {c : Char} (hc : c ≠ '*') (pattern : Text) :
    expandAnyDepth (c :: pattern) = (expandAnyDepth pattern).map (c :: ·) := by
  have hfits : anyDepthFits (c :: pattern) = anyDepthFits pattern := by
    rw [anyDepthFits, anyDepthFits, anyDepthCount, anyDepthCount, Cuts.ofText_cons hc]
    rfl
  have hspell := Cuts.spell_prepend [c] (Cuts.ofText pattern)
  rw [← Cuts.ofText_cons hc] at hspell
  rw [expandAnyDepth, expandAnyDepth, hfits]
  split
  · exact hspell
  · rfl

/-- So does a text without stars. -/
theorem expandAnyDepth_append {front : Text} (h : '*' ∉ front) (pattern : Text) :
    expandAnyDepth (front ++ pattern) = (expandAnyDepth pattern).map (front ++ ·) := by
  induction front with
  | nil => simp
  | cons c front ih =>
      rw [List.mem_cons, not_or] at h
      rw [List.cons_append, expandAnyDepth_cons (Ne.symm h.1), ih h.2, List.map_map]
      rfl

/-! ## groups -/

theorem parts_cons {c : Char} (hc : c ≠ '[') (pattern : Text) :
    Part.ofText (c :: pattern) = .char c :: Part.ofText pattern := by
  rw [Part.ofText, Part.scan, if_neg hc]
  rfl

/-- A character other than an opening bracket stays in front of every variant. -/
theorem expandGroups_cons {c : Char} (hc : c ≠ '[') (pattern : Text) :
    expandGroups (c :: pattern) = (expandGroups pattern).map (c :: ·) := by
  have hfits : groupsFit (c :: pattern) = groupsFit pattern := by
    rw [groupsFit, groupsFit, parts_cons hc]
    rfl
  rw [expandGroups, expandGroups, hfits, parts_cons hc]
  split
  · simp [Part.combinations, Part.choices]
  · rfl

/-- So does a text without opening brackets. -/
theorem expandGroups_append {front : Text} (h : '[' ∉ front) (pattern : Text) :
    expandGroups (front ++ pattern) = (expandGroups pattern).map (front ++ ·) := by
  induction front with
  | nil => simp
  | cons c front ih =>
      rw [List.mem_cons, not_or] at h
      rw [List.cons_append, expandGroups_cons (Ne.symm h.1), ih h.2, List.map_map]
      rfl

/-- A pattern without an opening bracket is its only variant. -/
theorem expandGroups_of_not_mem {pattern : Text} (h : '[' ∉ pattern) :
    expandGroups pattern = [pattern] := by
  induction pattern with
  | nil => rfl
  | cons c pattern ih =>
      rw [List.mem_cons, not_or] at h
      rw [expandGroups_cons (Ne.symm h.1), ih h.2]
      rfl

namespace Part

theorem foldl_choiceBound_chars (t : Text) (n : Nat) :
    (t.map Part.char).foldl (fun n part => n * part.choiceBound) n = n := by
  induction t generalizing n with
  | nil => rfl
  | cons c t ih => simpa [choiceBound] using ih n

end Part

/-- No group has to be widened where there is none. -/
theorem widensGroups_of_not_mem {pattern : Text} (h : '[' ∉ pattern) :
    widensGroups pattern = false := by
  have hfits : groupsFit pattern = true := by
    rw [groupsFit, Part.ofText, Part.scan_none_eq_map h, Part.foldl_choiceBound_chars]
    decide
  rw [widensGroups, hfits, Part.ofText, Part.scan_none_eq_map h, List.any_map]
  exact List.any_eq_false.mpr fun c _ => Bool.false_ne_true

end TreeSync.Pattern
