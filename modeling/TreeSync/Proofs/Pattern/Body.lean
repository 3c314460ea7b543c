import TreeSync.Proofs.Pattern.Combinations
import Mathlib.Data.Char
import Mathlib.Data.List.Sort

/-!
# TreeSync.Proofs.Pattern.Body

What the body of a group lists, and how much of it.

1. A body is read from the left: a character before `-` and a further character is an
   ascending range or three characters, and every other character is itself
   (`Lists`).  Every body lists one text and no other (`lists_iff`).
2. The members are the characters listed, each where it is first listed
   (`mem_members_iff_mem`, `pairwise_members`).
3. The bound counts what is listed without listing it, so it is not too low
   (`length_members_le`), and no group that is spelled out offers more than the limit
   (`length_choices_le_maxVariants`).

Characters are the Unicode scalar values, so a range across the surrogates has fewer
members than the bound says.
-/

namespace TreeSync.Pattern

/-! ## what a body lists -/

/-- All characters from one to another, ascending. -/
structure IsRun (first last : Char) (run : Text) : Prop where
  mem_iff : ∀ c, c ∈ run ↔ first ≤ c ∧ c ≤ last
  ascending : run.Pairwise (· < ·)

/-- A body, read from the left, lists some characters. -/
inductive Lists : Text → Text → Prop
  | nil : Lists [] []
  | range {first last body run listed} : first ≤ last → IsRun first last run →
      Lists body listed → Lists (first :: '-' :: last :: body) (run ++ listed)
  | descending {first last body listed} : last < first → Lists body listed →
      Lists (first :: '-' :: last :: body) (first :: '-' :: last :: listed)
  | char {c body listed} : (∀ last rest, body ≠ '-' :: last :: rest) → Lists body listed →
      Lists (c :: body) (c :: listed)

/-- What the ranges of a body hold, one after the other. -/
def listed (body : Text) : Text := (ranges body).flatMap fun range => rangeChars range.1 range.2

/-- The characters of a range ascend. -/
theorem isRun_rangeChars (first last : Char) : IsRun first last (rangeChars first last) where
  mem_iff _ := mem_rangeChars_iff
  ascending := by
    rw [rangeChars, List.pairwise_filterMap]
    refine (List.pairwise_lt_range' 1 Nat.one_pos).imp fun hlt c hc d hd => ?_
    show c.toNat < d.toNat
    rwa [toNat_of_charAt? hc, toNat_of_charAt? hd]

theorem IsRun.unique {first last : Char} {run run' : Text} (h : IsRun first last run)
    (h' : IsRun first last run') : run = run' :=
  h.ascending.eq_of_mem_iff h'.ascending fun c => (h.mem_iff c).trans (h'.mem_iff c).symm

theorem rangeChars_self (c : Char) : rangeChars c c = [c] := by
  refine (isRun_rangeChars c c).unique ⟨fun d => ?_, List.pairwise_singleton _ _⟩
  rw [List.mem_singleton]
  exact ⟨fun h => by simp [h], fun h => Char.le_antisymm h.2 h.1⟩

theorem listed_range {first last : Char} (h : first ≤ last) (body : Text) :
    listed (first :: '-' :: last :: body) = rangeChars first last ++ listed body := by
  simp [listed, ranges, h]

theorem listed_descending {first last : Char} (h : last < first) (body : Text) :
    listed (first :: '-' :: last :: body) = first :: '-' :: last :: listed body := by
  simp [listed, ranges, Char.not_le.mpr h, rangeChars_self]

theorem listed_char {body : Text} (h : ∀ last rest, body ≠ '-' :: last :: rest) (c : Char) :
    listed (c :: body) = c :: listed body := by
  have hranges : ranges (c :: body) = (c, c) :: ranges body := by
    rw [ranges]
    exact fun last rest => h last rest
  simp [listed, hranges, rangeChars_self]

theorem lists_listed (body : Text) : Lists body (listed body) := by
  fun_induction ranges body with
  | case1 => exact .nil
  | case2 first last body hle ih =>
      rw [listed_range hle]
      exact .range hle (isRun_rangeChars first last) ih
  | case3 first last body hle ih =>
      have hlt := Char.not_le.mp hle
      rw [listed_descending hlt]
      exact .descending hlt ih
  | case4 c body hchar ih =>
      rw [listed_char hchar]
      exact .char hchar ih

/-- **A body lists one text and no other.** -/
theorem lists_iff {body text : Text} : Lists body text ↔ text = listed body := by
  constructor
  · intro h
    induction h with
    | nil => rfl
    | range hle hrun _ ih =>
        rw [listed_range hle, ih, hrun.unique (isRun_rangeChars _ _)]
    | descending hlt _ ih => rw [listed_descending hlt, ih]
    | char hchar _ ih => rw [listed_char hchar, ih]
  · intro h
    rw [h]
    exact lists_listed body

/-! ## the members -/

theorem mem_members_iff_mem {body : Text} {c : Char} : c ∈ members body ↔ c ∈ listed body :=
  List.mem_eraseDups

/-- A selection keeps the order of first appearance. -/
theorem idxOf_lt_of_filter {p : Char → Bool} {t : Text} {c d : Char} (hc : p c = true)
    (hd : p d = true) (h : (t.filter p).idxOf c < (t.filter p).idxOf d) :
    t.idxOf c < t.idxOf d := by
  induction t with
  | nil => simp at h
  | cons e t ih =>
      by_cases he : p e = true
      · simp only [List.filter_cons_of_pos he, List.idxOf_cons] at h ⊢
        grind
      · have hec : (e == c) = false := by grind
        have hed : (e == d) = false := by grind
        rw [List.filter_cons_of_neg he] at h
        simp only [List.idxOf_cons, hec, hed, cond_false]
        exact Nat.succ_lt_succ (ih h)

/-- Of repeated characters the first is kept, and so is the order of those. -/
theorem pairwise_eraseDups (t : Text) :
    t.eraseDups.Pairwise fun c d => t.idxOf c < t.idxOf d := by
  induction t using first_induction with
  | nil => simp
  | cons e t ih =>
      have hother : ∀ c ∈ (t.filter fun d => !d == e).eraseDups, (!c == e) = true :=
        fun c hc => (List.mem_filter.mp (List.mem_eraseDups.mp hc)).2
      have hne : ∀ c ∈ (t.filter fun d => !d == e).eraseDups, e ≠ c :=
        fun c hc heq => by simpa [heq] using hother c hc
      rw [List.eraseDups_cons, List.pairwise_cons]
      constructor
      · intro d hd
        simp [hne d hd]
      · refine ih.imp_of_mem fun {c d} hc hd hlt => ?_
        have hlater := idxOf_lt_of_filter (hother c hc) (hother d hd) hlt
        rw [List.idxOf_cons_ne t (hne c hc), List.idxOf_cons_ne t (hne d hd)]
        omega

/-- **The members stand in the order of first appearance.** -/
theorem pairwise_members (body : Text) :
    (members body).Pairwise fun c d => (listed body).idxOf c < (listed body).idxOf d :=
  pairwise_eraseDups (listed body)

/-! ## the bound -/

theorem ranges_ne_nil {body : Text} (h : body ≠ []) : ranges body ≠ [] := by
  fun_cases ranges body with
  | case1 => exact absurd rfl h
  | case2 => exact List.cons_ne_nil _ _
  | case3 => exact List.cons_ne_nil _ _
  | case4 => exact List.cons_ne_nil _ _

/-- A body that is not empty has a range, and each counts. -/
theorem one_le_sizeBound {body : Text} (h : body ≠ []) : 1 ≤ sizeBound body := by
  obtain ⟨range, more, hranges⟩ := List.exists_cons_of_ne_nil (ranges_ne_nil h)
  rw [sizeBound_eq_sum, hranges, List.map_cons, List.sum_cons]
  omega

namespace Part

/-- A part of a pattern has a bound that leaves room for its choices. -/
theorem one_le_choiceBound {pattern : Text} {part : Part} (h : part ∈ ofText pattern) :
    1 ≤ part.choiceBound := by
  have hoffers : ∃ c, part.Offers c := exists_offers h
  obtain ⟨c, hc⟩ := hoffers
  exact Nat.le_trans (List.length_pos_of_mem hc) part.length_choices_le

/-- **No part of a pattern within the limit** offers more than the limit. -/
theorem length_choices_le_maxVariants {pattern : Text} (hfits : groupsFit pattern = true)
    {part : Part} (h : part ∈ ofText pattern) : part.choices.length ≤ maxVariants := by
  have hbounds : ∀ bound ∈ (ofText pattern).map choiceBound, 1 ≤ bound := by
    intro bound hbound
    obtain ⟨other, hother, rfl⟩ := List.mem_map.mp hbound
    exact one_le_choiceBound hother
  calc
    part.choices.length ≤ part.choiceBound := part.length_choices_le
    _ ≤ ((ofText pattern).map choiceBound).prod :=
        List.single_le_prod hbounds _ (List.mem_map_of_mem h)
    _ ≤ maxVariants := (groupsFit_iff pattern).mp hfits

end Part

/-- **A body enumerates what it lists**: its members are the characters listed, each once and
in the order of first appearance.  There are no more of them than the bound says, which is
not zero unless the body is empty; so a group of a pattern within the limit never offers
more than the limit. -/
theorem members_enumerate (body : Text) :
    (∃ text, (∀ other, Lists body other ↔ other = text) ∧
      (∀ c, c ∈ members body ↔ c ∈ text) ∧ (members body).Nodup ∧
      (members body).Pairwise fun c d => text.idxOf c < text.idxOf d) ∧
      (members body).length ≤ sizeBound body ∧
      (body ≠ [] → 1 ≤ sizeBound body) ∧
      ∀ pattern, groupsFit pattern = true → .group body ∈ Part.ofText pattern →
        (Part.group body).choices.length ≤ maxVariants :=
  ⟨⟨listed body, fun _ => lists_iff, fun _ => mem_members_iff_mem, nodup_eraseDups _,
      pairwise_members body⟩,
    length_members_le body, one_le_sizeBound,
    fun _ hfits h => Part.length_choices_le_maxVariants hfits h⟩

/-- Ranges that overlap, one the wrong way round, and a dash at the end. -/
theorem members_enumerate_dashes :
    "a-cb-dz-x-".toList ≠ [] ∧ 1 ≤ sizeBound "a-cb-dz-x-" ∧
      groupsFit "x[a-cb-dz-x-]" = true ∧ .group "a-cb-dz-x-" ∈ Part.ofText "x[a-cb-dz-x-]" ∧
      (Part.group "a-cb-dz-x-").choices.length ≤ maxVariants ∧
      Lists "a-cb-dz-x-" "abcbcdz-x-" ∧
      members "a-cb-dz-x-" = "abcdz-x".toList := by
  have hne : "a-cb-dz-x-".toList ≠ [] := by decide
  have hfits : groupsFit "x[a-cb-dz-x-]" = true := by decide
  have hgroup : Part.group "a-cb-dz-x-" ∈ Part.ofText "x[a-cb-dz-x-]" := by decide
  obtain ⟨⟨text, hlists, -⟩, -, hbound, hlimit⟩ := members_enumerate "a-cb-dz-x-"
  have htext : listed "a-cb-dz-x-" = text := (hlists _).mp (lists_listed _)
  refine ⟨hne, hbound hne, hfits, hgroup, hlimit _ hfits hgroup, ?_, by decide⟩
  rw [hlists, ← htext]
  decide

/-- A range across the surrogates has two members, and its bound counts all numbers between. -/
example : members "\ud7ff-\ue000" = "\ud7ff\ue000".toList ∧
    sizeBound "\ud7ff-\ue000" = 2050 := by
  decide +kernel

end TreeSync.Pattern
