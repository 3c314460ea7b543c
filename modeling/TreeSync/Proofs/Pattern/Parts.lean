import TreeSync.Proofs.Ignore.Brackets

/-!
# TreeSync.Proofs.Pattern.Parts

What the parts of a pattern are cut from, and what a group offers.

1. The parts put together again are the pattern (`flatMap_text_ofText`), so every
   character that stands for itself is one of the pattern.
2. The groups among the parts are those of the pattern (`hasGroup_of_group_mem`), so a
   pattern without one is its only variant (`expandGroups_of_not_hasGroup`).
3. The members of a body are the characters within its ranges
   (`mem_members_iff`), whether they stand in the body or not.
-/

namespace TreeSync.Pattern

/-! ## the text of the parts -/

namespace Part

/-- The text that a part is cut from. -/
def text : Part → Text
  | .char c => [c]
  | .group body => '[' :: (body ++ [']'])

@[simp] theorem flatMap_text_chars (t : Text) : (t.map Part.char).flatMap text = t := by
  induction t with
  | nil => rfl
  | cons c t ih => simp [text, ih]

/-- What is read since an opening bracket, with the bracket. -/
def openedText : Option Text → Text
  | none => []
  | some body => '[' :: body

theorem flatMap_text_scan (opened : Option Text) (t : Text) :
    (scan opened t).flatMap text = openedText opened ++ t := by
  induction t generalizing opened with
  | nil =>
      cases opened with
      | none => rfl
      | some body => simp [scan, text, openedText]
  | cons c r ih =>
      simp only [scan]
      split
      · split <;> simp_all [text, openedText]
      · split <;> simp_all [text, openedText]
      · split <;> simp_all [text, openedText]

/-- The parts put together again are the pattern. -/
theorem flatMap_text_ofText (pattern : Text) : (ofText pattern).flatMap text = pattern :=
  flatMap_text_scan none pattern

theorem mem_of_char_mem {pattern : Text} {c : Char} (h : .char c ∈ ofText pattern) :
    c ∈ pattern := by
  rw [← flatMap_text_ofText pattern, List.mem_flatMap]
  exact ⟨.char c, h, by simp [text]⟩

/-- A group among the parts is one of the text. -/
theorem hasGroup_of_group_mem {opened : Option Text} {t body : Text}
    (hopened : ∀ b ∈ opened, ']' ∉ b) (h : .group body ∈ scan opened t) :
    HasGroup (openedText opened ++ t) := by
  induction t generalizing opened with
  | nil =>
      cases opened with
      | none => simp [scan] at h
      | some body => simp [scan] at h
  | cons c r ih =>
      simp only [scan] at h
      split at h
      · split at h
        · next hc =>
            subst hc
            exact ih (by simp) h
        · have hrest : HasGroup r := by
            simp only [List.mem_cons, reduceCtorEq, false_or] at h
            exact ih (by simp) h
          exact hasGroup_cons_iff.mpr (.inr hrest)
      · split at h
        · have hrest : HasGroup r := by
            simp only [List.mem_cons, reduceCtorEq, false_or] at h
            exact ih (by simp) h
          simp [openedText, hasGroup_cons_iff, hrest]
        · next hc =>
            exact ih (by simpa using Ne.symm hc) h
      · next b opened =>
        split at h
        · next hc =>
            subst hc
            refine ⟨b :: opened, r, ?_, by simp, hopened _ rfl⟩
            simp [openedText]
        · next hc =>
            have hbody : ∀ text ∈ some (b :: opened ++ [c]), ']' ∉ text := by
              have := hopened _ rfl
              simp_all [eq_comm]
            simpa [openedText] using ih hbody h

/-- Without groups the parts are the characters. -/
theorem ofText_of_not_hasGroup {pattern : Text} (h : ¬ HasGroup pattern) :
    ofText pattern = pattern.map .char := by
  have hchars : ∀ parts : List Part, (∀ body, .group body ∉ parts) →
      parts = (parts.flatMap text).map .char := by
    intro parts hparts
    induction parts with
    | nil => rfl
    | cons part parts ih =>
        have hrest := ih fun body hmem => hparts body (List.mem_cons_of_mem part hmem)
        cases part with
        | char c => simpa [text] using hrest
        | group body => exact absurd List.mem_cons_self (hparts body)
  have hgroups : ∀ body, .group body ∉ ofText pattern :=
    fun body hmem => h (hasGroup_of_group_mem (by simp) hmem)
  have hparts := hchars (ofText pattern) hgroups
  rwa [flatMap_text_ofText] at hparts

theorem combinations_chars (t : Text) : combinations (t.map .char) = [t] := by
  induction t with
  | nil => rfl
  | cons c t ih => simp [combinations, choices, ih]

end Part

/-- A pattern without groups is its only variant. -/
theorem expandGroups_of_not_hasGroup {pattern : Text} (h : ¬ HasGroup pattern) :
    expandGroups pattern = [pattern] := by
  have hparts := Part.ofText_of_not_hasGroup h
  have hfits : groupsFit pattern = true := by
    rw [groupsFit, hparts, Part.foldl_choiceBound_chars]
    decide
  rw [expandGroups, if_pos hfits, hparts, Part.combinations_chars]

/-- Every part offers something, so some combination there is. -/
theorem expandGroups_ne_nil (pattern : Text) : expandGroups pattern ≠ [] := by
  rw [expandGroups]
  split
  · have hoffers : ∀ part ∈ Part.ofText pattern, ∃ c, part.Offers c := fun _ => Part.exists_offers
    obtain ⟨t, ht⟩ := Part.exists_mem_combinations hoffers
    exact List.ne_nil_of_mem ht
  · simp

/-! ## the members of a group -/

theorem toNat_of_charAt? {n : Nat} {c : Char} (h : charAt? n = some c) : c.toNat = n := by
  obtain ⟨hvalid, hc⟩ := Option.dite_none_right_eq_some.mp h
  cases hc
  rfl

theorem mem_rangeChars_iff {first last c : Char} :
    c ∈ rangeChars first last ↔ first ≤ c ∧ c ≤ last := by
  have hiff : c ∈ rangeChars first last ↔ first.toNat ≤ c.toNat ∧ c.toNat ≤ last.toNat := by
    rw [rangeChars, List.mem_filterMap]
    constructor
    · rintro ⟨n, hn, hc⟩
      rw [← toNat_of_charAt? hc, List.mem_range'_1] at hn
      omega
    · rintro ⟨hfirst, hlast⟩
      refine ⟨c.toNat, ?_, Part.charAt?_toNat c⟩
      rw [List.mem_range'_1]
      omega
  exact hiff

/-- **The members of a body** are the characters within its ranges. -/
theorem mem_members_iff {body : Text} {c : Char} :
    c ∈ members body ↔ ∃ range ∈ ranges body, range.1 ≤ c ∧ c ≤ range.2 := by
  simp only [members, List.mem_eraseDups, List.mem_flatMap, mem_rangeChars_iff]

end TreeSync.Pattern
