import TreeSync.Text.Blank
import Mathlib.Data.List.DropRight

/-!
# TreeSync.Proofs.Text.Trimming

Blanks taken off the ends of a text.  A text is what is left of it when it is trimmed, with
blanks on both sides (`exists_eq_append_trim`); and what holds no blanks is what is left when
a text with blanks on both sides of it is trimmed (`trim_append`).
-/

namespace TreeSync.Text

/-! ## trimming twice -/

theorem dropEndWhile_dropEndWhile (p : Char → Bool) (t : Text) :
    dropEndWhile p (dropEndWhile p t) = dropEndWhile p t :=
  List.rdropWhile_idempotent p t

/-- Taking characters off the end brings none to the front that is to be taken off. -/
theorem dropWhile_dropEndWhile {p : Char → Bool} {t : Text} (h : t.dropWhile p = t) :
    (dropEndWhile p t).dropWhile p = dropEndWhile p t := by
  obtain ⟨rest, hrest⟩ := dropEndWhile_prefix p t
  cases hkept : dropEndWhile p t with
  | nil => rfl
  | cons c kept =>
      have hc : p c = false := by
        rw [hkept, List.cons_append] at hrest
        rw [← hrest, List.dropWhile_cons] at h
        by_contra hp
        rw [if_pos (by simpa using hp)] at h
        have hlength := (List.dropWhile_suffix (l := kept ++ rest) p).length_le
        rw [h, List.length_cons] at hlength
        omega
      rw [List.dropWhile_cons_of_neg (by simp [hc])]

theorem dropAroundWhile_dropAroundWhile (p : Char → Bool) (t : Text) :
    dropAroundWhile p (dropAroundWhile p t) = dropAroundWhile p t := by
  have hfront : (dropAroundWhile p t).dropWhile p = dropAroundWhile p t :=
    dropWhile_dropEndWhile (List.dropWhile_idempotent p t)
  rw [dropAroundWhile, hfront]
  exact dropEndWhile_dropEndWhile p _

/-- Text that has been trimmed has no blanks around it. -/
@[simp] theorem trim_trim (t : Text) : trim (trim t) = trim t :=
  dropAroundWhile_dropAroundWhile isBlank t

/-! ## what is taken off -/

theorem exists_eq_dropEndWhile_append (p : Char → Bool) (t : Text) :
    ∃ after, t = dropEndWhile p t ++ after ∧ ∀ c ∈ after, p c = true := by
  refine ⟨(t.reverse.takeWhile p).reverse, ?_, fun c hc => ?_⟩
  · rw [dropEndWhile, ← List.reverse_append, List.takeWhile_append_dropWhile,
      List.reverse_reverse]
  · exact List.all_eq_true.mp List.all_takeWhile c (List.mem_reverse.mp hc)

/-- Trimming takes blanks off, and nothing else. -/
theorem exists_eq_append_trim (t : Text) :
    ∃ before after, t = before ++ trim t ++ after ∧
      (∀ c ∈ before, isBlank c = true) ∧ ∀ c ∈ after, isBlank c = true := by
  obtain ⟨after, hafter, hblank⟩ := exists_eq_dropEndWhile_append isBlank (t.dropWhile isBlank)
  refine ⟨t.takeWhile isBlank, after, ?_, List.all_eq_true.mp List.all_takeWhile, hblank⟩
  calc
    t = t.takeWhile isBlank ++ t.dropWhile isBlank := List.takeWhile_append_dropWhile.symm
    _ = t.takeWhile isBlank ++ (trim t ++ after) := by rw [trim, dropAroundWhile, ← hafter]
    _ = t.takeWhile isBlank ++ trim t ++ after := (List.append_assoc ..).symm

theorem mem_of_mem_trim {t : Text} {c : Char} (h : c ∈ trim t) : c ∈ t := by
  obtain ⟨before, after, heq, -⟩ := exists_eq_append_trim t
  rw [heq]
  simp [h]

/-! ## what is left -/

theorem dropWhile_of_forall_not {p : Char → Bool} {t : Text} (h : ∀ c ∈ t, p c = false) :
    t.dropWhile p = t := by
  cases t with
  | nil => rfl
  | cons c t => exact List.dropWhile_cons_of_neg (by simp [h c List.mem_cons_self])

theorem dropEndWhile_of_forall_not {p : Char → Bool} {t : Text} (h : ∀ c ∈ t, p c = false) :
    dropEndWhile p t = t := by
  rw [dropEndWhile, dropWhile_of_forall_not fun c hc => h c (List.mem_reverse.mp hc),
    List.reverse_reverse]

/-- A text without blanks is left of it when there are blanks around. -/
theorem trim_append {before word after : Text} (hbefore : ∀ c ∈ before, isBlank c = true)
    (hword : ∀ c ∈ word, isBlank c = false) (hafter : ∀ c ∈ after, isBlank c = true) :
    trim (before ++ word ++ after) = word := by
  have hends : trim (before ++ word ++ after) = dropEndWhile isBlank (word.dropWhile isBlank) := by
    rw [trim, dropAroundWhile, List.append_assoc, List.dropWhile_append_of_pos hbefore]
    cases word with
    | nil =>
        rw [List.nil_append, List.dropWhile_nil, ← List.nil_append (after.dropWhile isBlank)]
        exact dropEndWhile_append fun c hc => hafter c ((List.dropWhile_suffix isBlank).subset hc)
    | cons c word =>
        have hc : ¬ isBlank c = true := by simp [hword c List.mem_cons_self]
        rw [List.cons_append, List.dropWhile_cons_of_neg hc, List.dropWhile_cons_of_neg hc,
          ← List.cons_append]
        exact dropEndWhile_append hafter
  rw [hends, dropWhile_of_forall_not hword, dropEndWhile_of_forall_not hword]

end TreeSync.Text
