import TreeSync.Proofs.Ignore.Directory

/-!
# TreeSync.Proofs.Ignore.Brackets

Where the rules of a line still hold a bracket group.

A group is spelled out member by member, so that no rule should hold one.  But an
opening bracket can itself be a member, and what follows the group can close it
again: `x[[]y]` is spelled out to `x[y]`.

1. Whether some combination of choices holds a group is seen from the parts: one
   offers an opening bracket, the next one something else than a closing one, and
   a later one a closing bracket (`exists_hasGroup_iff`).
2. A pattern whose groups are widened holds none (`not_hasGroup_widen`).

So the rules of a line are free of groups exactly where no variant of it can be
put together to one (`rulesOfLine_free_of_groups_iff`).
-/

namespace TreeSync

open Pattern

/-! ## groups in a text -/

/-- A text holds a bracket group: an opening bracket, one or more characters that
are no closing bracket, and a closing bracket. -/
def HasGroup (t : Text) : Prop :=
  ∃ body after, ('[' :: (body ++ ']' :: after)) <:+ t ∧ body ≠ [] ∧ ']' ∉ body

/-- A text completes a group whose opening bracket stands before it. -/
def Completes (t : Text) : Prop := ∃ c r, t = c :: r ∧ c ≠ ']' ∧ ']' ∈ r

theorem not_hasGroup_nil : ¬ HasGroup [] := by
  intro h
  obtain ⟨body, after, hsuffix, -⟩ := h
  simp at hsuffix

theorem hasGroup_cons_iff {c : Char} {t : Text} :
    HasGroup (c :: t) ↔ (c = '[' ∧ Completes t) ∨ HasGroup t := by
  constructor
  · intro h
    obtain ⟨body, after, hsuffix, hbody, hclosing⟩ := h
    obtain hhere | hlater := List.suffix_cons_iff.mp hsuffix
    · obtain ⟨d, body, rfl⟩ := List.exists_cons_of_ne_nil hbody
      simp only [List.cons_append, List.cons.injEq] at hhere
      simp only [List.mem_cons, not_or] at hclosing
      exact .inl ⟨hhere.1.symm, d, _, hhere.2.symm, Ne.symm hclosing.1, by simp⟩
    · exact .inr ⟨body, after, hlater, hbody, hclosing⟩
  · intro h
    obtain ⟨rfl, d, r, rfl, hd, hclosing⟩ | ⟨body, after, hsuffix, h⟩ := h
    · -- The group ends at the first closing bracket.
      obtain ⟨body, after, rfl, hbody⟩ := List.eq_append_cons_of_mem hclosing
      refine ⟨d :: body, after, List.suffix_rfl, by simp, ?_⟩
      simp [hbody, Ne.symm hd]
    · exact ⟨body, after, hsuffix.trans (List.suffix_cons c t), h⟩

/-- Without a closing bracket there is no group. -/
theorem not_hasGroup_of_not_mem {t : Text} (h : ']' ∉ t) : ¬ HasGroup t := by
  intro hgroup
  obtain ⟨body, after, hsuffix, -⟩ := hgroup
  exact h (hsuffix.subset (by simp))

/-- A group is an opening bracket with a closing one behind it. -/
theorem sublist_of_hasGroup {t : Text} (h : HasGroup t) : ['[', ']'].Sublist t := by
  obtain ⟨body, after, hsuffix, -⟩ := h
  refine List.Sublist.trans ?_ hsuffix.sublist
  simp

namespace Pattern

namespace Part

/-! ## what the parts can be put together to -/

/-- A part offers a character. -/
def Offers (part : Part) (c : Char) : Prop := c ∈ part.choices

/-- Parts can be put together to a text that completes a group. -/
def CanComplete (parts : List Part) : Prop :=
  ∃ part rest, parts = part :: rest ∧ (∃ c, part.Offers c ∧ c ≠ ']') ∧
    ∃ closing ∈ rest, closing.Offers ']'

/-- Parts can be put together to a text that holds a group. -/
def CanRegroup (parts : List Part) : Prop :=
  ∃ opening rest, (opening :: rest) <:+ parts ∧ opening.Offers '[' ∧ CanComplete rest

theorem canRegroup_cons_iff {part : Part} {parts : List Part} :
    CanRegroup (part :: parts) ↔ (part.Offers '[' ∧ CanComplete parts) ∨ CanRegroup parts := by
  constructor
  · intro h
    obtain ⟨opening, rest, hsuffix, h⟩ := h
    obtain hhere | hlater := List.suffix_cons_iff.mp hsuffix
    · cases hhere
      exact .inl h
    · exact .inr ⟨opening, rest, hlater, h⟩
  · intro h
    obtain h | ⟨opening, rest, hsuffix, h⟩ := h
    · exact ⟨part, parts, List.suffix_rfl, h⟩
    · exact ⟨opening, rest, hsuffix.trans (List.suffix_cons part parts), h⟩

theorem mem_combinations_cons {part : Part} {parts : List Part} {t : Text} :
    t ∈ combinations (part :: parts) ↔
      ∃ c r, t = c :: r ∧ part.Offers c ∧ r ∈ combinations parts := by
  simp only [combinations, List.mem_flatMap, List.mem_map, Offers]
  grind

section
variable {parts : List Part} (hparts : ∀ part ∈ parts, ∃ c, part.Offers c)
include hparts

theorem exists_mem_combinations : ∃ t, t ∈ combinations parts := by
  induction parts with
  | nil => exact ⟨[], by simp [combinations]⟩
  | cons part parts ih =>
      obtain ⟨c, hc⟩ := hparts part (by simp)
      obtain ⟨t, ht⟩ := ih fun p hp => hparts p (by simp [hp])
      exact ⟨c :: t, mem_combinations_cons.mpr ⟨c, t, rfl, hc, ht⟩⟩

/-- Some combination holds what some part offers. -/
theorem exists_mem_iff {c : Char} :
    (∃ t ∈ combinations parts, c ∈ t) ↔ ∃ part ∈ parts, part.Offers c := by
  induction parts with
  | nil => simp [combinations]
  | cons part parts ih =>
      have hrest : ∀ p ∈ parts, ∃ c, p.Offers c := fun p hp => hparts p (by simp [hp])
      constructor
      · intro h
        obtain ⟨t, ht, hc⟩ := h
        obtain ⟨d, r, rfl, hd, hr⟩ := mem_combinations_cons.mp ht
        obtain rfl | hc := List.mem_cons.mp hc
        · exact ⟨part, by simp, hd⟩
        · obtain ⟨p, hp, h⟩ := (ih hrest).mp ⟨r, hr, hc⟩
          exact ⟨p, by simp [hp], h⟩
      · intro h
        obtain ⟨p, hp, h⟩ := h
        obtain rfl | hp := List.mem_cons.mp hp
        · obtain ⟨r, hr⟩ := exists_mem_combinations hrest
          exact ⟨c :: r, mem_combinations_cons.mpr ⟨c, r, rfl, h, hr⟩, by simp⟩
        · obtain ⟨d, hd⟩ := hparts part (by simp)
          obtain ⟨r, hr, hc⟩ := (ih hrest).mpr ⟨p, hp, h⟩
          exact ⟨d :: r, mem_combinations_cons.mpr ⟨d, r, rfl, hd, hr⟩, by simp [hc]⟩

theorem exists_completes_iff : (∃ t ∈ combinations parts, Completes t) ↔ CanComplete parts := by
  cases parts with
  | nil => simp [combinations, Completes, CanComplete]
  | cons part parts =>
      have hclosing := exists_mem_iff (c := ']') fun p hp => hparts p (List.mem_cons_of_mem part hp)
      constructor
      · intro h
        obtain ⟨t, ht, c, r, rfl, hc, hr⟩ := h
        obtain ⟨d, r', heq, hd, hr'⟩ := mem_combinations_cons.mp ht
        cases heq
        exact ⟨part, parts, rfl, ⟨c, hd, hc⟩, hclosing.mp ⟨r, hr', hr⟩⟩
      · intro h
        obtain ⟨p, rest, heq, ⟨c, hoffers, hc⟩, h⟩ := h
        cases heq
        obtain ⟨r, hr, hmem⟩ := hclosing.mpr h
        exact ⟨c :: r, mem_combinations_cons.mpr ⟨c, r, rfl, hoffers, hr⟩, c, r, rfl, hc, hmem⟩

/-- **Whether some combination holds a group** is seen from the parts. -/
theorem exists_hasGroup_iff : (∃ t ∈ combinations parts, HasGroup t) ↔ CanRegroup parts := by
  induction parts with
  | nil => simp [combinations, not_hasGroup_nil, CanRegroup]
  | cons part parts ih =>
      have hrest : ∀ p ∈ parts, ∃ c, p.Offers c := fun p hp => hparts p (by simp [hp])
      rw [canRegroup_cons_iff, ← ih hrest, ← exists_completes_iff hrest]
      constructor
      · intro h
        obtain ⟨t, ht, hgroup⟩ := h
        obtain ⟨c, r, rfl, hc, hr⟩ := mem_combinations_cons.mp ht
        obtain ⟨rfl, hcompletes⟩ | hgroup := hasGroup_cons_iff.mp hgroup
        · exact .inl ⟨hc, r, hr, hcompletes⟩
        · exact .inr ⟨r, hr, hgroup⟩
      · intro h
        obtain ⟨hopening, r, hr, hcompletes⟩ | ⟨r, hr, hgroup⟩ := h
        · exact ⟨'[' :: r, mem_combinations_cons.mpr ⟨'[', r, rfl, hopening, hr⟩,
            hasGroup_cons_iff.mpr (.inl ⟨rfl, hcompletes⟩)⟩
        · obtain ⟨c, hc⟩ := hparts part (by simp)
          exact ⟨c :: r, mem_combinations_cons.mpr ⟨c, r, rfl, hc, hr⟩,
            hasGroup_cons_iff.mpr (.inr hgroup)⟩

end

/-! ## the parts of a pattern -/

theorem charAt?_toNat (c : Char) : charAt? c.toNat = some c := by
  have hvalid : c.toNat.isValidChar := c.valid
  rw [charAt?, dif_pos hvalid]
  rfl

theorem mem_rangeChars {first last : Char} (h : first ≤ last) : first ∈ rangeChars first last := by
  have hle : first.toNat ≤ last.toNat := h
  rw [rangeChars, List.mem_filterMap]
  refine ⟨first.toNat, ?_, charAt?_toNat first⟩
  rw [List.mem_range'_1]
  omega

/-- The first character of a body is a member, whether it begins a range or not. -/
theorem mem_members (c : Char) (body : Text) : c ∈ members (c :: body) := by
  have hrange : ∃ last, (c, last) ∈ ranges (c :: body) ∧ c ≤ last := by
    unfold ranges
    split
    · contradiction
    · next first last r heq =>
        cases heq
        split
        · next hle => exact ⟨last, by simp, hle⟩
        · exact ⟨c, by simp, Char.le_refl c⟩
    · next first r _ heq =>
        cases heq
        exact ⟨c, by simp, Char.le_refl c⟩
  obtain ⟨last, hmem, hle⟩ := hrange
  rw [members, List.mem_eraseDups, List.mem_flatMap]
  exact ⟨(c, last), hmem, mem_rangeChars hle⟩

/-- Every part of a pattern offers something: no body is empty. -/
theorem exists_offers {opened : Option Text} {t : Text} {part : Part}
    (h : part ∈ scan opened t) : ∃ c, part.Offers c := by
  have hchar : ∀ c, ∃ d, (Part.char c).Offers d := fun c => ⟨c, by simp [Offers, choices]⟩
  have hgroup : ∀ b body, ∃ d, (Part.group (b :: body)).Offers d := by
    intro b body
    simp only [Offers, choices]
    split
    · exact ⟨'?', by simp⟩
    · exact ⟨b, mem_members b body⟩
  induction t generalizing opened with
  | nil =>
      cases opened with
      | none => simp [scan] at h
      | some body =>
          simp only [scan, List.mem_cons, List.mem_map] at h
          obtain rfl | ⟨c, -, rfl⟩ := h <;> exact hchar _
  | cons c r ih =>
      simp only [scan] at h
      split at h
      · split at h
        · exact ih h
        · obtain rfl | h := List.mem_cons.mp h
          · exact hchar c
          · exact ih h
      · split at h
        · simp only [List.mem_cons] at h
          obtain rfl | rfl | h := h
          · exact hchar _
          · exact hchar _
          · exact ih h
        · exact ih h
      · split at h
        · obtain rfl | h := List.mem_cons.mp h
          · exact hgroup _ _
          · exact ih h
        · exact ih h

/-- **A pattern whose groups are widened holds none**: an opening bracket that
stands for itself is followed by a closing one, or by none at all. -/
theorem not_hasGroup_widen {opened : Option Text} (hopened : ∀ body ∈ opened, ']' ∉ body)
    (t : Text) : ¬ HasGroup ((scan opened t).map widen) := by
  induction t generalizing opened with
  | nil =>
      cases opened with
      | none => simpa [scan] using not_hasGroup_nil
      | some body =>
          apply not_hasGroup_of_not_mem
          simpa [scan, widen, Function.comp_def] using hopened body rfl
  | cons c r ih =>
      have hrest : ¬ HasGroup ((scan none r).map widen) := ih (by simp)
      simp only [scan]
      split
      · split
        · exact ih (by simp)
        · next hc =>
            simp [widen, hasGroup_cons_iff, hc, hrest]
      · split
        · simp [widen, hasGroup_cons_iff, hrest, Completes]
        · next hc => exact ih (by simpa using Ne.symm hc)
      · next b body =>
        split
        · simp [widen, hasGroup_cons_iff, hrest]
        · next hc =>
            apply ih
            intro opened heq
            cases heq
            have hbody := hopened _ rfl
            simp_all [eq_comm]

end Part

/-! ## the expansion -/

/-- The variants of a pattern can be put together to a group: the pattern is
spelled out, and a member that opens one is followed by others that complete it. -/
def Regroups (pattern : Text) : Prop :=
  groupsFit pattern = true ∧ Part.CanRegroup (Part.ofText pattern)

theorem exists_hasGroup_expandGroups_iff (pattern : Text) :
    (∃ t ∈ expandGroups pattern, HasGroup t) ↔ Regroups pattern := by
  rw [expandGroups, Regroups]
  split
  · next h => simpa [h, Part.ofText] using Part.exists_hasGroup_iff fun _ => Part.exists_offers
  · next h => simpa [h, Part.ofText] using Part.not_hasGroup_widen (by simp) pattern

end Pattern

/-! ## the rules of a line -/

/-- The patterns of the rules of a line at the root of the tree: what its groups are
spelled out to, in every variant. -/
theorem exists_pattern_iff (line : Text) {p : Text → Prop} (hp : ¬ p []) :
    (∃ rule ∈ rulesOfLine line none, p rule.pattern) ↔
      ∃ parsed ∈ IgnoreRule.parse line none, ∃ variant ∈ expandAnyDepth parsed.pattern,
        ∃ t ∈ expandGroups variant, p t := by
  rw [rulesOfLine]
  cases hparse : IgnoreRule.parse line none with
  | none => simp
  | some parsed =>
      have hdirectory : parsed.directory = none := by
        rw [IgnoreRule.directory_of_parse hparse]
        rfl
      simp only [IgnoreRule.rules, IgnoreRule.patterns, IgnoreRule.relativePattern, hdirectory,
        IgnoreRule.under]
      constructor
      · intro h
        obtain ⟨rule, hrule, h⟩ := h
        simp only [List.mem_map, List.mem_filter, List.mem_flatMap] at hrule
        obtain ⟨t, ⟨⟨variant, hvariant, ht⟩, -⟩, rfl⟩ := hrule
        exact ⟨parsed, rfl, variant, hvariant, t, ht, h⟩
      · intro h
        obtain ⟨other, heq, variant, hvariant, t, ht, h⟩ := h
        cases heq
        have hne : t ≠ [] := fun hnil => hp (hnil ▸ h)
        refine ⟨⟨parsed.sense, t⟩, ?_, h⟩
        simp only [List.mem_map, List.mem_filter, List.mem_flatMap]
        exact ⟨t, ⟨⟨variant, hvariant, ht⟩, by simp [hne]⟩, rfl⟩

/-- **Where the rules of a line are free of groups**: exactly where no variant of
its pattern can be put together to one. -/
theorem rulesOfLine_free_of_groups_iff (line : Text) :
    (∀ rule ∈ rulesOfLine line none, ¬ HasGroup rule.pattern) ↔
      ∀ parsed ∈ IgnoreRule.parse line none, ∀ variant ∈ expandAnyDepth parsed.pattern,
        ¬ Regroups variant := by
  have h := exists_pattern_iff line not_hasGroup_nil
  simp only [exists_hasGroup_expandGroups_iff] at h
  simpa only [not_exists, not_and] using not_congr h

/-- The one member of a group is an opening bracket, and the text after it closes
it again. -/
theorem reopened_group_left :
    rulesOfLine "x[[]y]" none = [⟨.excludes, "x[y]"⟩] ∧ HasGroup "x[y]" :=
  ⟨by decide, ['y'], [], by decide, by decide, by decide⟩

end TreeSync
