import TreeSync.Proofs.Pattern.Parts
import Mathlib.Algebra.Order.BigOperators.Group.List
import Mathlib.Algebra.Order.Ring.Nat
import Mathlib.Data.List.Forall2

/-!
# TreeSync.Proofs.Pattern.Combinations

What the groups of a pattern are spelled out to.

1. The parts of a pattern are its groups, found from the left and without overlap, and
   the characters between them (`cutAtGroups_iff`).
2. Every part gives one character to a variant, so a variant is a choice at each part.
   The variants are all choices, each once, the first part changing slowest
   (`enumerates_combinations`).
3. There are no more of them than the bounds of the groups say
   (`length_combinations_le`), so the limit is kept.
4. Whatever a group admits, some variant has it or the wildcard in its place
   (`exists_covers`), also where the groups are too many to be spelled out.
-/

namespace TreeSync.Pattern

/-! ## the groups of a text -/

/-- A group stands at the beginning of a text. -/
def BeginsGroup (t : Text) : Prop :=
  ∃ body after, t = '[' :: (body ++ ']' :: after) ∧ body ≠ [] ∧ ']' ∉ body

/-- A text cut at its groups, leftmost first and without overlap: a group is taken whole
where one begins, and elsewhere a character. -/
inductive CutAtGroups : Text → List Part → Prop
  | nil : CutAtGroups [] []
  | group {body after parts} : body ≠ [] → ']' ∉ body → CutAtGroups after parts →
      CutAtGroups ('[' :: (body ++ ']' :: after)) (.group body :: parts)
  | char {c r parts} : ¬ BeginsGroup (c :: r) → CutAtGroups r parts →
      CutAtGroups (c :: r) (.char c :: parts)

namespace Part

/-- An opened group is closed by the next closing bracket. -/
theorem scan_append {body more : Text} (hne : body ++ more ≠ []) (hmore : ']' ∉ more)
    (after : Text) :
    scan (some body) (more ++ ']' :: after) = .group (body ++ more) :: scan none after := by
  induction more generalizing body with
  | nil =>
      cases body with
      | nil => simp at hne
      | cons b body => simp [scan]
  | cons c more ih =>
      rw [List.mem_cons, not_or] at hmore
      have hc : c ≠ ']' := Ne.symm hmore.1
      have hrest : scan (some (body ++ [c])) (more ++ ']' :: after) =
          .group (body ++ [c] ++ more) :: scan none after := ih (by simp) hmore.2
      cases body with
      | nil => simpa [scan, hc] using hrest
      | cons b body => simpa [scan, hc] using hrest

/-- An opened group that is never closed is no group. -/
theorem scan_of_not_mem (body : Text) {t : Text} (h : ']' ∉ t) :
    scan (some body) t = .char '[' :: (body ++ t).map .char := by
  induction t generalizing body with
  | nil => simp [scan]
  | cons c t ih =>
      rw [List.mem_cons, not_or] at h
      have hc : c ≠ ']' := Ne.symm h.1
      cases body with
      | nil => simp [scan, hc, ih _ h.2]
      | cons b body => simp [scan, hc, ih _ h.2]

/-- A group is cut off as one part. -/
theorem ofText_group {body : Text} (hne : body ≠ []) (hclosing : ']' ∉ body) (after : Text) :
    ofText ('[' :: (body ++ ']' :: after)) = .group body :: ofText after := by
  have hscan : scan (some []) (body ++ ']' :: after) = .group ([] ++ body) :: scan none after :=
    scan_append (by simpa using hne) hclosing after
  simpa [ofText, scan] using hscan

/-- Where no group begins, a character stands for itself. -/
theorem ofText_cons {c : Char} {r : Text} (h : ¬ BeginsGroup (c :: r)) :
    ofText (c :: r) = .char c :: ofText r := by
  by_cases hc : c = '['
  · subst hc
    rw [ofText, scan, if_pos rfl]
    by_cases hclosing : ']' ∈ r
    · obtain ⟨body, after, rfl, hbody⟩ := List.eq_append_cons_of_mem hclosing
      -- Only an empty body does not make a group.
      have hempty : body = [] := by
        by_contra hne
        exact h ⟨body, after, rfl, hne, hbody⟩
      simp [hempty, ofText, scan]
    · rw [scan_of_not_mem [] hclosing, ofText_of_not_hasGroup (not_hasGroup_of_not_mem hclosing),
        List.nil_append]
  · exact parts_cons hc r

/-- **The parts of a pattern** are its groups and the characters between them. -/
theorem cutAtGroups_ofText (pattern : Text) : CutAtGroups pattern (ofText pattern) := by
  induction hn : pattern.length using Nat.strongRecOn generalizing pattern with
  | ind n ih =>
      by_cases hgroup : BeginsGroup pattern
      · obtain ⟨body, after, rfl, hne, hclosing⟩ := hgroup
        rw [ofText_group hne hclosing]
        exact .group hne hclosing (ih _ (by simp [← hn]; omega) after rfl)
      · cases pattern with
        | nil => exact .nil
        | cons c r =>
            rw [ofText_cons hgroup]
            exact .char hgroup (ih _ (by simp [← hn]) r rfl)

/-- **The parts of a pattern** are what it is cut to at its groups. -/
theorem cutAtGroups_iff {pattern : Text} {parts : List Part} :
    CutAtGroups pattern parts ↔ parts = ofText pattern := by
  constructor
  · intro h
    induction h with
    | nil => rfl
    | group hne hclosing _ ih => rw [ofText_group hne hclosing, ih]
    | char hgroup _ ih => rw [ofText_cons hgroup, ih]
  · intro h
    rw [h]
    exact cutAtGroups_ofText pattern

/-! ## the combinations in their order -/

/-- One choice comes before another: where they first differ, the part there offers the
character of the one before that of the other. -/
inductive Precedes : List Part → Text → Text → Prop
  | here {part parts c d r s} : [c, d].Sublist part.choices →
      Precedes (part :: parts) (c :: r) (d :: s)
  | there {part parts c r s} : Precedes parts r s → Precedes (part :: parts) (c :: r) (c :: s)

/-- Some texts are all choices of what the parts offer, each once, the first part
changing slowest. -/
structure Enumerates (parts : List Part) (texts : List Text) : Prop where
  mem_iff : ∀ t, t ∈ texts ↔ List.Forall₂ Offers parts t
  ordered : texts.Pairwise (Precedes parts)
  nodup : texts.Nodup

/-- A combination takes one choice of each part. -/
theorem mem_combinations_iff {parts : List Part} {t : Text} :
    t ∈ combinations parts ↔ List.Forall₂ Offers parts t := by
  induction parts generalizing t with
  | nil => simp [combinations]
  | cons part parts ih => simp [mem_combinations_cons, ih, List.forall₂_cons_left_iff]; grind

/-- Combinations come in the order of their first differing choice. -/
theorem pairwise_combinations (parts : List Part) :
    (combinations parts).Pairwise (Precedes parts) := by
  induction parts with
  | nil => simp [combinations]
  | cons part parts ih =>
      rw [combinations, List.pairwise_flatMap]
      constructor
      · intro c _
        exact List.pairwise_map.mpr (ih.imp .there)
      · rw [List.pairwise_iff_forall_sublist]
        intro c d hbefore t ht u hu
        obtain ⟨r, -, rfl⟩ := List.mem_map.mp ht
        obtain ⟨s, -, rfl⟩ := List.mem_map.mp hu
        exact .here hbefore

end Part

/-! ## how many there are -/

/-- Induction on a text, from the one without the repetitions of its first character. -/
theorem first_induction {motive : Text → Prop} (nil : motive [])
    (cons : ∀ c t, motive (t.filter fun d => !d == c) → motive (c :: t)) (t : Text) :
    motive t := by
  induction hn : t.length using Nat.strongRecOn generalizing t with
  | ind n ih =>
      cases t with
      | nil => exact nil
      | cons c t =>
          have hle := List.length_filter_le (fun d => !d == c) t
          exact cons c t (ih _ (by rw [← hn, List.length_cons]; omega) _ rfl)

/-- Of repeated members the first is kept. -/
theorem eraseDups_sublist (t : Text) : t.eraseDups.Sublist t := by
  induction t using first_induction with
  | nil => simp
  | cons c t ih =>
      rw [List.eraseDups_cons]
      exact (ih.trans List.filter_sublist).cons_cons c

theorem nodup_eraseDups (t : Text) : t.eraseDups.Nodup := by
  induction t using first_induction with
  | nil => simp
  | cons c t ih =>
      rw [List.eraseDups_cons, List.nodup_cons]
      exact ⟨by simp, ih⟩

/-- A range has at most as many characters as code points. -/
theorem length_rangeChars_le (first last : Char) :
    (rangeChars first last).length ≤ last.toNat - first.toNat + 1 := by
  have hle := List.length_filterMap_le charAt?
    (List.range' first.toNat (last.toNat + 1 - first.toNat))
  rw [List.length_range'] at hle
  rw [rangeChars]
  omega

/-- The bound of a group is the sum over its ranges. -/
theorem sizeBound_eq_sum (body : Text) :
    sizeBound body = ((ranges body).map fun range => range.2.toNat - range.1.toNat + 1).sum := by
  rw [sizeBound, List.sum_eq_foldl, List.foldl_map]

/-- **The bound of a group is not too low.** -/
theorem length_members_le (body : Text) : (members body).length ≤ sizeBound body := by
  calc
    (members body).length
      ≤ ((ranges body).flatMap fun range => rangeChars range.1 range.2).length :=
        (eraseDups_sublist _).length_le
    _ = ((ranges body).map fun range => (rangeChars range.1 range.2).length).sum :=
        List.length_flatMap
    _ ≤ ((ranges body).map fun range => range.2.toNat - range.1.toNat + 1).sum :=
        List.sum_le_sum fun range _ => length_rangeChars_le range.1 range.2
    _ = sizeBound body := (sizeBound_eq_sum body).symm

namespace Part

/-- The choices of a part are pairwise different. -/
theorem nodup_choices (part : Part) : part.choices.Nodup := by
  cases part with
  | char c => simp [choices]
  | group body =>
      rw [choices]
      split
      · simp
      · exact nodup_eraseDups _

/-- A part has at most as many choices as its bound says. -/
theorem length_choices_le (part : Part) : part.choices.length ≤ part.choiceBound := by
  cases part with
  | char c => simp [choices, choiceBound]
  | group body =>
      rw [choices, choiceBound]
      split
      · simp
      · exact length_members_le body

/-- So are the combinations. -/
theorem nodup_combinations (parts : List Part) : (combinations parts).Nodup := by
  induction parts with
  | nil => simp [combinations]
  | cons part parts ih =>
      rw [combinations, List.Nodup, List.pairwise_flatMap]
      constructor
      · intro c _
        exact List.pairwise_map.mpr (ih.imp fun hne heq => hne (List.cons.inj heq).2)
      · refine part.nodup_choices.imp fun hne t ht u hu => ?_
        simp only [List.mem_map] at ht hu
        grind

/-- There are as many combinations as the choices of the parts multiply to. -/
theorem length_combinations (parts : List Part) :
    (combinations parts).length = (parts.map fun part => part.choices.length).prod := by
  induction parts with
  | nil => rfl
  | cons part parts ih => simp [combinations, List.length_flatMap, ih]

/-- And at most as many as the bounds multiply to. -/
theorem length_combinations_le (parts : List Part) :
    (combinations parts).length ≤ (parts.map choiceBound).prod := by
  induction parts with
  | nil => exact Nat.le_refl 1
  | cons part parts ih =>
      rw [length_combinations] at ih ⊢
      simpa using Nat.mul_le_mul part.length_choices_le ih

/-- **The combinations are all choices**, each once and in their order. -/
theorem enumerates_combinations (parts : List Part) : Enumerates parts (combinations parts) where
  mem_iff _ := mem_combinations_iff
  ordered := pairwise_combinations parts
  nodup := nodup_combinations parts

end Part

/-- A pattern is within the limit if its bounds multiply to no more. -/
theorem groupsFit_iff (pattern : Text) :
    groupsFit pattern = true ↔
      ((Part.ofText pattern).map Part.choiceBound).prod ≤ maxVariants := by
  rw [groupsFit, decide_eq_true_eq, List.prod_eq_foldl, List.foldl_map]

/-- **The limit holds**: no pattern is spelled out in more variants. -/
theorem length_expandGroups_le (pattern : Text) :
    (expandGroups pattern).length ≤ maxVariants := by
  rw [expandGroups]
  split
  · next hfits =>
      exact Nat.le_trans (Part.length_combinations_le _) ((groupsFit_iff pattern).mp hfits)
  · simp [maxVariants]

/-! ## what the variants cover -/

namespace Part

/-- What may stand in a name where a part stands in the pattern: for a group any
character but a slash that is one of its members or, if it is negated, none of those
excluded. -/
def Admits : Part → Char → Prop
  | .char c, d => d = c
  | .group body, d =>
      d ≠ '/' ∧
        match negated? body with
        | some excluded => d ∉ members excluded
        | none => d ∈ members body

instance : (part : Part) → DecidablePred part.Admits
  | .char c, d => inferInstanceAs (Decidable (d = c))
  | .group body, d =>
      match h : negated? body with
      | some excluded =>
          decidable_of_iff (d ≠ '/' ∧ d ∉ members excluded) (by simp [Admits, h])
      | none => decidable_of_iff (d ≠ '/' ∧ d ∈ members body) (by simp [Admits, h])

end Part

/-- A variant covers a name: it has its characters, or `?` in place of one that is no
slash. -/
def Covers (variant name : Text) : Prop :=
  List.Forall₂ (fun v c => v = c ∨ v = '?' ∧ c ≠ '/') variant name

namespace Part

/-- What a part admits, it offers itself or by the wildcard. -/
theorem exists_offers_of_admits {part : Part} {d : Char} (h : part.Admits d) :
    ∃ c, part.Offers c ∧ (c = d ∨ c = '?' ∧ d ≠ '/') := by
  cases part with
  | char c => exact ⟨c, by simp [Offers, choices], .inl h.symm⟩
  | group body =>
      cases hnegated : negated? body with
      | some excluded => exact ⟨'?', by simp [Offers, choices, hnegated], .inr ⟨rfl, h.1⟩⟩
      | none =>
          have hmember : d ∈ members body := by simpa [hnegated] using h.2
          exact ⟨d, by simpa [Offers, choices, hnegated] using hmember, .inl rfl⟩

/-- A name that every part admits is covered by one of the variants. -/
theorem exists_covers {parts : List Part} {name : Text} (h : List.Forall₂ Admits parts name) :
    ∃ variant ∈ combinations parts, Covers variant name := by
  induction h with
  | nil => exact ⟨[], by simp [combinations], .nil⟩
  | cons hadmits _ ih =>
      obtain ⟨c, hc, hcovers⟩ := exists_offers_of_admits hadmits
      obtain ⟨variant, hvariant, hrest⟩ := ih
      exact ⟨c :: variant, mem_combinations_cons.mpr ⟨c, variant, rfl, hc, hvariant⟩,
        .cons hcovers hrest⟩

/-- Groups widened to wildcards cover whatever they admit. -/
theorem covers_widen {parts : List Part} {name : Text} (h : List.Forall₂ Admits parts name) :
    Covers (parts.map widen) name := by
  induction h with
  | nil => exact .nil
  | @cons part d _ _ hadmits _ ih =>
      refine .cons ?_ ih
      cases part with
      | char c => exact .inl hadmits.symm
      | group body => exact .inr ⟨rfl, hadmits.1⟩

end Part

/-- **What the groups of a pattern are spelled out to**: never nothing, and never more than
the limit.  Within it the variants are all choices of members, each once and in their
order; past it every group is a wildcard.  In both cases each name that the groups admit
is covered by a variant. -/
theorem expandGroups_enumerates (pattern : Text) :
    (∀ parts, CutAtGroups pattern parts ↔ parts = Part.ofText pattern) ∧
      1 ≤ (expandGroups pattern).length ∧ (expandGroups pattern).length ≤ maxVariants ∧
      (((Part.ofText pattern).map Part.choiceBound).prod ≤ maxVariants →
        Part.Enumerates (Part.ofText pattern) (expandGroups pattern)) ∧
      (maxVariants < ((Part.ofText pattern).map Part.choiceBound).prod →
        expandGroups pattern = [(Part.ofText pattern).map Part.widen]) ∧
      ∀ name, List.Forall₂ Part.Admits (Part.ofText pattern) name →
        ∃ variant ∈ expandGroups pattern, Covers variant name := by
  refine ⟨fun _ => Part.cutAtGroups_iff, List.length_pos_of_ne_nil (expandGroups_ne_nil pattern),
    length_expandGroups_le pattern, ?_, ?_, ?_⟩
  · intro hfits
    rw [expandGroups, if_pos ((groupsFit_iff pattern).mpr hfits)]
    exact Part.enumerates_combinations _
  · intro hlarge
    rw [expandGroups, if_neg (by rw [groupsFit_iff]; omega)]
  · intro name hname
    rw [expandGroups]
    split
    · exact Part.exists_covers hname
    · exact ⟨_, List.mem_singleton_self _, Part.covers_widen hname⟩

/-- A range, a negated group and two members; and three groups that are too many. -/
theorem expandGroups_enumerates_versions :
    Part.ofText "v[1-2][!x].[ch]" =
        [.char 'v', .group "1-2", .group "!x", .char '.', .group "ch"] ∧
      (Part.Enumerates (Part.ofText "v[1-2][!x].[ch]")
        ["v1?.c".toList, "v1?.h".toList, "v2?.c".toList, "v2?.h".toList]) ∧
      (∃ variant ∈ expandGroups "v[1-2][!x].[ch]", Covers variant "v2a.h") ∧
      expandGroups "[ -~][ -~][ -~]" = ["???".toList] := by
  obtain ⟨-, -, -, hfits, -, hcovers⟩ := expandGroups_enumerates "v[1-2][!x].[ch]"
  obtain ⟨-, -, -, -, hlarge, -⟩ := expandGroups_enumerates "[ -~][ -~][ -~]"
  have hname : List.Forall₂ Part.Admits (Part.ofText "v[1-2][!x].[ch]") "v2a.h".toList := by
    decide
  exact ⟨by decide, hfits (by decide), hcovers _ hname, hlarge (by decide)⟩

end TreeSync.Pattern
