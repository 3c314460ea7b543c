/-!
# TreeSync.Text

Text is a list of characters.  Everything this library decides about text
(patterns, paths, settings, words of a command line) is a function on such
lists; `String` appears only where text is printed or comes from outside.

The operations here are the ones every other module shares: splitting at a
character, joining, and taking characters off either end.

Paths and arguments are texts too.  A file system may hold names that are no
UTF-8; such a name is no text, and no machine of this library has one.
-/

namespace TreeSync

/-- Text, as a list of characters. -/
abbrev Text := List Char

instance : Coe String Text := ⟨String.toList⟩

namespace Text

/-! ## splitting at a character -/

/-- The pieces of `t` between the occurrences of `sep`.  There is one piece
more than there are occurrences. -/
def pieces (sep : Char) : Text → List Text
  | [] => [[]]
  | c :: r =>
      if c = sep then [] :: pieces sep r
      else match pieces sep r with
        | [] => [[c]]
        | p :: ps => (c :: p) :: ps

/-- Texts put together with `sep` between them. -/
def joinWith (sep : Text) : List Text → Text
  | [] => []
  | [p] => p
  | p :: q :: ps => p ++ sep ++ joinWith sep (q :: ps)

theorem pieces_ne_nil (sep : Char) (t : Text) : pieces sep t ≠ [] := by
  induction t with
  | nil => simp [pieces]
  | cons c r ih =>
      by_cases h : c = sep
      · simp [pieces, h]
      · cases hp : pieces sep r with
        | nil => exact absurd hp ih
        | cons p ps => simp [pieces, h, hp]

/-- Splitting loses nothing but the separators. -/
theorem joinWith_pieces (sep : Char) (t : Text) : joinWith [sep] (pieces sep t) = t := by
  induction t with
  | nil => rfl
  | cons c r ih =>
      cases hp : pieces sep r with
      | nil => exact absurd hp (pieces_ne_nil sep r)
      | cons p ps =>
          rw [hp] at ih
          by_cases h : c = sep
          · simp [pieces, h, hp, joinWith, ih]
          · cases ps with
            | nil => simpa [pieces, h, hp, joinWith] using ih
            | cons q qs => simpa [pieces, h, hp, joinWith] using ih

/-- No piece holds the separator. -/
theorem not_mem_of_mem_pieces {sep : Char} {t p : Text} (hp : p ∈ pieces sep t) : sep ∉ p := by
  induction t generalizing p with
  | nil => simp_all [pieces]
  | cons c r ih =>
      by_cases h : c = sep
      · simp only [pieces, h, if_true, List.mem_cons] at hp
        rcases hp with rfl | hp
        · simp
        · exact ih hp
      · cases hr : pieces sep r with
        | nil => exact absurd hr (pieces_ne_nil sep r)
        | cons q qs =>
            simp only [pieces, h, if_false, hr, List.mem_cons] at hp
            rcases hp with rfl | hp
            · have := ih (p := q) (by simp [hr])
              simp [this, Ne.symm h]
            · exact ih (by simp [hr, hp])

/-- Splitting goes through at a separator. -/
theorem pieces_append (sep : Char) (a b : Text) :
    pieces sep (a ++ sep :: b) = pieces sep a ++ pieces sep b := by
  induction a with
  | nil => simp [pieces]
  | cons c a ih =>
      by_cases h : c = sep
      · simp [pieces, h, ih]
      · cases hp : pieces sep a with
        | nil => exact absurd hp (pieces_ne_nil sep a)
        | cons p ps => simp [pieces, h, ih, hp]

/-- Joined parts begin with the first of them. -/
theorem joinWith_cons (sep p : Text) (ps : List Text) :
    ∃ rest, joinWith sep (p :: ps) = p ++ rest := by
  cases ps with
  | nil => exact ⟨[], (List.append_nil p).symm⟩
  | cons q qs => exact ⟨sep ++ joinWith sep (q :: qs), List.append_assoc ..⟩

/-- Joined parts end with the last of them. -/
theorem joinWith_concat (sep p : Text) (ps : List Text) :
    ∃ rest, joinWith sep (ps ++ [p]) = rest ++ p := by
  induction ps with
  | nil => exact ⟨[], rfl⟩
  | cons q qs ih =>
      obtain ⟨rest, hrest⟩ := ih
      refine ⟨q ++ sep ++ rest, ?_⟩
      cases qs with
      | nil => rw [List.append_assoc, ← hrest]; rfl
      | cons q' qs =>
          rw [List.append_assoc, ← hrest]
          rfl

/-- What is in joined parts is in one of them or between them. -/
theorem mem_joinWith {sep : Text} {ps : List Text} {c : Char} (h : c ∈ joinWith sep ps) :
    c ∈ sep ∨ ∃ p ∈ ps, c ∈ p := by
  induction ps with
  | nil => exact absurd h (List.not_mem_nil)
  | cons p ps ih =>
      cases ps with
      | nil => exact Or.inr ⟨p, List.mem_cons_self, h⟩
      | cons q qs =>
          rw [joinWith, List.mem_append, List.mem_append] at h
          obtain (h | h) | h := h
          · exact Or.inr ⟨p, List.mem_cons_self, h⟩
          · exact Or.inl h
          · obtain h | ⟨r, hr, hc⟩ := ih h
            · exact Or.inl h
            · exact Or.inr ⟨r, List.mem_cons_of_mem p hr, hc⟩

/-- What is in a piece is in the text. -/
theorem mem_of_mem_pieces {sep : Char} {t p : Text} {c : Char} (hp : p ∈ pieces sep t)
    (hc : c ∈ p) : c ∈ t := by
  induction t generalizing p with
  | nil =>
      rw [List.mem_singleton.mp hp] at hc
      exact hc
  | cons d r ih =>
      rw [List.mem_cons]
      by_cases hd : d = sep
      · rw [pieces, if_pos hd] at hp
        obtain rfl | hp := List.mem_cons.mp hp
        · contradiction
        · exact Or.inr (ih hp hc)
      · rw [pieces, if_neg hd] at hp
        cases hr : pieces sep r with
        | nil => exact absurd hr (pieces_ne_nil sep r)
        | cons q qs =>
            rw [hr] at hp ih
            obtain rfl | hp := List.mem_cons.mp hp
            · obtain rfl | hc := List.mem_cons.mp hc
              · exact Or.inl rfl
              · exact Or.inr (ih List.mem_cons_self hc)
            · exact Or.inr (ih (List.mem_cons_of_mem q hp) hc)

theorem pieces_of_not_mem {sep : Char} {t : Text} (h : sep ∉ t) : pieces sep t = [t] := by
  induction t with
  | nil => rfl
  | cons c t ih =>
      obtain ⟨hne, ht⟩ := not_or.mp (mt List.mem_cons.mpr h)
      rw [pieces, if_neg (Ne.symm hne), ih ht]

/-- Splitting undoes joining, where no part holds the separator. -/
theorem pieces_joinWith {sep : Char} {ps : List Text} (hne : ps ≠ [])
    (h : ∀ p ∈ ps, sep ∉ p) : pieces sep (joinWith [sep] ps) = ps := by
  induction ps with
  | nil => exact absurd rfl hne
  | cons p ps ih =>
      have hp : sep ∉ p := h p List.mem_cons_self
      cases ps with
      | nil => exact pieces_of_not_mem hp
      | cons q qs =>
          have hrest : pieces sep (joinWith [sep] (q :: qs)) = q :: qs :=
            ih (List.cons_ne_nil q qs) fun r hr => h r (List.mem_cons_of_mem p hr)
          rw [joinWith, List.append_assoc, List.singleton_append, pieces_append, hrest,
            pieces_of_not_mem hp]
          rfl

/-! ## taking characters off an end -/

/-- What is left of `t` after the longest run at its end that satisfies `p`. -/
def dropEndWhile (p : Char → Bool) (t : Text) : Text :=
  (t.reverse.dropWhile p).reverse

theorem dropEndWhile_prefix (p : Char → Bool) (t : Text) : dropEndWhile p t <+: t := by
  rw [dropEndWhile, ← List.reverse_suffix, List.reverse_reverse]
  exact List.dropWhile_suffix p

theorem dropEndWhile_append {p : Char → Bool} {a b : Text} (h : ∀ c ∈ b, p c = true) :
    dropEndWhile p (a ++ b) = dropEndWhile p a := by
  have hb : ∀ c ∈ b.reverse, p c = true := fun c hc => h c (List.mem_reverse.mp hc)
  rw [dropEndWhile, List.reverse_append, List.dropWhile_append_of_pos hb, dropEndWhile]

theorem dropEndWhile_concat {p : Char → Bool} {c : Char} (h : p c = false) (t : Text) :
    dropEndWhile p (t ++ [c]) = t ++ [c] := by
  simp [dropEndWhile, h]

/-- What is taken off is repetitions of the one character. -/
theorem eq_dropEndWhile_append (c : Char) (t : Text) :
    ∃ n, t = dropEndWhile (· == c) t ++ List.replicate n c := by
  have hrun : t.reverse.takeWhile (· == c) =
      List.replicate (t.reverse.takeWhile (· == c)).length c := by
    rw [List.eq_replicate_iff]
    refine ⟨rfl, fun d hd => ?_⟩
    simpa using List.all_eq_true.mp List.all_takeWhile d hd
  refine ⟨(t.reverse.takeWhile (· == c)).length, ?_⟩
  calc
    t = (t.reverse.takeWhile (· == c) ++ t.reverse.dropWhile (· == c)).reverse := by
      rw [List.takeWhile_append_dropWhile, List.reverse_reverse]
    _ = dropEndWhile (· == c) t ++ (t.reverse.takeWhile (· == c)).reverse := by
      rw [List.reverse_append, dropEndWhile]
    _ = dropEndWhile (· == c) t ++ List.replicate (t.reverse.takeWhile (· == c)).length c := by
      rw [← List.reverse_replicate, ← hrun]

theorem getLast?_dropEndWhile_ne (c : Char) (t : Text) :
    (dropEndWhile (· == c) t).getLast? ≠ some c := by
  intro hlast
  have hhead := List.head?_dropWhile_not (· == c) t.reverse
  rw [dropEndWhile, List.getLast?_reverse] at hlast
  simp [hlast] at hhead

/-- What is left of `t` after the runs at both ends that satisfy `p`. -/
def dropAroundWhile (p : Char → Bool) (t : Text) : Text :=
  dropEndWhile p (t.dropWhile p)

/-- How many characters at the end of `t`, counted back, satisfy `p`. -/
def countEndWhile (p : Char → Bool) (t : Text) : Nat :=
  (t.reverse.takeWhile p).length

theorem countEndWhile_concat_self (c : Char) (t : Text) :
    countEndWhile (· == c) (t ++ [c]) = countEndWhile (· == c) t + 1 := by
  simp [countEndWhile]

theorem countEndWhile_concat_of_ne {c d : Char} (h : d ≠ c) (t : Text) :
    countEndWhile (· == c) (t ++ [d]) = 0 := by
  simp [countEndWhile, h]

/-- `t` with a final `c`, unless it ends with one already. -/
def endWith (c : Char) (t : Text) : Text :=
  if t.getLast? = some c then t else t ++ [c]

/-! ## numbers -/

/-- A natural number in decimal. -/
def ofNat (n : Nat) : Text := Nat.toDigits 10 n

/-- The value of a decimal digit. -/
def digit? (c : Char) : Option Nat :=
  if '0' ≤ c ∧ c ≤ '9' then some (c.toNat - '0'.toNat) else none

/-- The number that a run of decimal digits stands for. -/
def natOfDigits (digits : List Nat) : Nat :=
  digits.foldl (fun n d => 10 * n + d) 0

end Text

end TreeSync
