import TreeSync.Proofs.Pattern.Expansion
import TreeSync.Proofs.Tree.Path

/-!
# TreeSync.Proofs.Pattern.Joining

Where removing any-depth tokens leaves the names of a pattern as they are.

The names of a pattern are its pieces between slashes, but not the pieces `**`
(`namesOf`).  A token that is a piece of its own can be removed, and the names stay.
But a token is found wherever its characters stand, at the end of a name too: `a**/b`
has one, and without it the pattern is `ab`, a name that it did not have.

* Whether one removed token joins names is seen from the texts at its sides
  (`namesOf_removed_iff`).
* So the variants of a pattern have its names exactly where every token begins a piece,
  or only pieces `**` follow it (`expandAnyDepth_namesOf_iff`).
-/

namespace TreeSync.Pattern

/-! ## the names of a pattern -/

/-- The pieces of a pattern between its slashes, but not the pieces `**`. -/
def namesOf (pattern : Text) : List Text :=
  (Text.pieces '/' pattern).filter (· ≠ ['*', '*'])

/-- **Names split at a slash.** -/
theorem namesOf_append_slash (a b : Text) : namesOf (a ++ '/' :: b) = namesOf a ++ namesOf b := by
  simp [namesOf, Text.pieces_append]

theorem namesOf_of_not_mem {t : Text} (h : '/' ∉ t) :
    namesOf t = if t = ['*', '*'] then [] else [t] := by
  rw [namesOf, Text.pieces_of_not_mem h]
  split <;> simp_all

theorem namesOf_append_anyDepth (a b : Text) :
    namesOf (a ++ anyDepth ++ b) = namesOf (a ++ ['*', '*']) ++ namesOf b := by
  have hsplit : a ++ anyDepth ++ b = a ++ ['*', '*'] ++ '/' :: b := by simp [anyDepth]
  rw [hsplit, namesOf_append_slash]

/-- A token in front adds no name. -/
theorem namesOf_anyDepth_append (t : Text) : namesOf (anyDepth ++ t) = namesOf t :=
  namesOf_append_anyDepth [] t

/-! ## where a piece begins -/

/-- What follows the text begins a piece of its own. -/
def PieceEnds (t : Text) : Prop := t = [] ∨ t.getLast? = some '/'

theorem pieceEnds_append_iff (a : Text) {b : Text} (hb : b ≠ []) :
    PieceEnds (a ++ b) ↔ PieceEnds b := by
  obtain ⟨c, hc⟩ := Option.isSome_iff_exists.mp (List.getLast?_isSome.mpr hb)
  simp [PieceEnds, List.getLast?_append, hb, hc]

/-- Where a piece ends, the names of what follows are names of the whole. -/
theorem exists_namesOf_append {before : Text} (h : PieceEnds before) :
    ∃ names, ∀ t, namesOf (before ++ t) = names ++ namesOf t := by
  obtain rfl | hslash := h
  · exact ⟨[], fun t => rfl⟩
  · obtain ⟨front, rfl⟩ := List.getLast?_eq_some_iff.mp hslash
    exact ⟨namesOf front, fun t => by rw [← List.append_cons, namesOf_append_slash]⟩

/-- A text is what ends with its last slash, and the beginning of a piece. -/
theorem exists_eq_append_piece (t : Text) :
    ∃ before piece, t = before ++ piece ∧ PieceEnds before ∧ '/' ∉ piece := by
  by_cases h : '/' ∈ t
  · obtain ⟨before, piece, rfl, hpiece⟩ := eq_append_of_mem h
    exact ⟨before ++ ['/'], piece, by simp, .inr (by simp), hpiece⟩
  · exact ⟨[], t, rfl, .inl rfl, h⟩

/-! ## one token removed -/

/-- The first piece of a text is `**`. -/
def StartsAnyNames (t : Text) : Prop := (Text.pieces '/' t).head? = some ['*', '*']

theorem startsAnyNames_iff_of_not_mem {t : Text} (h : '/' ∉ t) :
    StartsAnyNames t ↔ t = ['*', '*'] := by
  simp [StartsAnyNames, Text.pieces_of_not_mem h]

theorem startsAnyNames_append_iff {piece : Text} (h : '/' ∉ piece) (rest : Text) :
    StartsAnyNames (piece ++ '/' :: rest) ↔ piece = ['*', '*'] := by
  simp [StartsAnyNames, Text.pieces_append, Text.pieces_of_not_mem h]

theorem startsAnyNames_of_namesOf_eq_nil {t : Text} (h : namesOf t = []) : StartsAnyNames t := by
  obtain ⟨piece, pieces, hpieces⟩ := List.exists_cons_of_ne_nil (Text.pieces_ne_nil '/' t)
  rw [namesOf, List.filter_eq_nil_iff, hpieces] at h
  rw [StartsAnyNames, hpieces]
  simpa using h piece

theorem StartsAnyNames.eq_or_exists {t : Text} (h : StartsAnyNames t) :
    t = ['*', '*'] ∨ ∃ rest, t = anyDepth ++ rest := by
  by_cases hslash : '/' ∈ t
  · obtain ⟨piece, rest, rfl, hpiece⟩ := List.eq_append_cons_of_mem hslash
    obtain rfl := (startsAnyNames_append_iff hpiece rest).mp h
    exact .inr ⟨rest, rfl⟩
  · exact .inl ((startsAnyNames_iff_of_not_mem hslash).mp h)

/-- The end of a name and the piece that is joined to it are the same names as they are
apart exactly where the piece is `**`. -/
theorem namesOf_append_piece_iff {name piece : Text} (hne : name ≠ []) (hname : '/' ∉ name)
    (hpiece : '/' ∉ piece) :
    namesOf (name ++ piece) = (name ++ ['*', '*']) :: namesOf piece ↔ piece = ['*', '*'] := by
  have hslash : '/' ∉ name ++ piece := by simp [hname, hpiece]
  rw [namesOf_of_not_mem hslash, namesOf_of_not_mem hpiece]
  constructor
  · intro h
    by_cases hstars : piece = ['*', '*']
    · exact hstars
    · rw [if_neg hstars] at h
      split at h <;> simp at h
  · intro hstars
    simp [hstars, hne]

/-- **A removed token leaves the names as they are** exactly where it begins a piece, or
the piece behind it is `**`. -/
theorem namesOf_removed_iff {before after : Text} :
    namesOf (before ++ after) = namesOf (before ++ anyDepth ++ after) ↔
      PieceEnds before ∨ StartsAnyNames after := by
  by_cases hends : PieceEnds before
  · obtain ⟨names, hnames⟩ := exists_namesOf_append hends
    simp [hends, hnames, List.append_assoc, namesOf_anyDepth_append]
  · obtain ⟨front, name, rfl, hfront, hname⟩ := exists_eq_append_piece before
    have hne : name ≠ [] := by
      intro hnil
      exact hends (by simpa [hnil] using hfront)
    have hstars : '/' ∉ name ++ ['*', '*'] := by simp [hname]
    obtain ⟨names, hnames⟩ := exists_namesOf_append hfront
    have htoken : namesOf (name ++ anyDepth ++ after) = (name ++ ['*', '*']) :: namesOf after := by
      rw [namesOf_append_anyDepth, namesOf_of_not_mem hstars]
      simp [hne]
    have hwhole :
        namesOf (front ++ name ++ after) = namesOf (front ++ name ++ anyDepth ++ after) ↔
          namesOf (name ++ after) = (name ++ ['*', '*']) :: namesOf after := by
      simp only [List.append_assoc, hnames, List.append_cancel_left_eq] at htoken ⊢
      rw [htoken]
    rw [hwhole, or_iff_right hends]
    by_cases hslash : '/' ∈ after
    · obtain ⟨piece, rest, rfl, hpiece⟩ := List.eq_append_cons_of_mem hslash
      rw [startsAnyNames_append_iff hpiece, ← namesOf_append_piece_iff hne hname hpiece,
        ← List.append_assoc, namesOf_append_slash, namesOf_append_slash, ← List.cons_append,
        List.append_cancel_right_eq]
    · rw [startsAnyNames_iff_of_not_mem hslash, namesOf_append_piece_iff hne hname hslash]

/-! ## the variants -/

namespace Cuts

theorem anyDepth_append_mem_spell {t variant : Text} (h : variant ∈ (ofText t).spell) :
    anyDepth ++ variant ∈ (ofText (anyDepth ++ t)).spell := by
  rw [spell_anyDepth_append]
  exact List.mem_append_left _ (List.mem_map.mpr ⟨variant, h, rfl⟩)

theorem mem_spell_anyDepth_append {t variant : Text} (h : variant ∈ (ofText t).spell) :
    variant ∈ (ofText (anyDepth ++ t)).spell := by
  rw [spell_anyDepth_append]
  exact List.mem_append_right _ h

/-- The variant that keeps every token is the pattern. -/
theorem self_mem_spell (pattern : Text) : pattern ∈ (ofText pattern).spell := by
  induction pattern using withoutAnyDepth.induct with
  | case1 => exact List.mem_singleton_self []
  | case2 r ih => exact anyDepth_append_mem_spell ih
  | case3 c r hc ih =>
      rw [ofText_cons_of_not_token hc, spell_prepend]
      exact List.mem_map.mpr ⟨r, ih, rfl⟩

/-- Each token can be kept or removed, whatever is done to those behind it. -/
theorem append_mem_spell (before : Text) {after variant : Text}
    (h : variant ∈ (ofText after).spell) :
    before ++ anyDepth ++ variant ∈ (ofText (before ++ anyDepth ++ after)).spell ∧
      before ++ variant ∈ (ofText (before ++ anyDepth ++ after)).spell := by
  induction before using withoutAnyDepth.induct with
  | case1 => exact ⟨anyDepth_append_mem_spell h, mem_spell_anyDepth_append h⟩
  | case2 r ih => exact ⟨anyDepth_append_mem_spell ih.1, anyDepth_append_mem_spell ih.2⟩
  | case3 c r hc ih =>
      -- A token needs three characters, so none begins before the one that follows.
      have htoken : ∀ rest, c = '*' → r ++ anyDepth ++ after = '*' :: '/' :: rest → False := by
        intro rest hstar heq
        obtain _ | ⟨d, _ | ⟨e, r⟩⟩ := r
        · simp [anyDepth] at heq
        · simp [anyDepth] at heq
        · exact hc r hstar (by simp_all)
      simp only [List.cons_append]
      rw [ofText_cons_of_not_token htoken, spell_prepend]
      exact ⟨List.mem_map.mpr ⟨_, ih.1, rfl⟩, List.mem_map.mpr ⟨_, ih.2, rfl⟩⟩

end Cuts

/-- Where every token begins a piece, or no names follow it, all variants have the names
of the pattern. -/
theorem namesOf_append_of_mem_spell (before : Text) {pattern variant : Text}
    (hvariant : variant ∈ (Cuts.ofText pattern).spell)
    (htokens : ∀ front after, pattern = front ++ anyDepth ++ after →
      PieceEnds (before ++ front) ∨ namesOf after = []) :
    namesOf (before ++ variant) = namesOf (before ++ pattern) := by
  induction pattern using withoutAnyDepth.induct generalizing before variant with
  | case1 => simp_all [Cuts.ofText, Cuts.spell, Cuts.variants]
  | case2 r ih =>
      change variant ∈ (Cuts.ofText (anyDepth ++ r)).spell at hvariant
      rw [Cuts.spell_anyDepth_append, List.mem_append] at hvariant
      have hfirst : PieceEnds before ∨ namesOf r = [] := by simpa using htokens [] r rfl
      obtain hkept | hremoved := hvariant
      · obtain ⟨tail, htail, rfl⟩ := List.mem_map.mp hkept
        have hrest := ih (before ++ anyDepth) htail fun front after heq => by
          simpa using htokens (anyDepth ++ front) after (by simp [heq, anyDepth])
        simpa [anyDepth] using hrest
      · have hrest : ∀ front after, r = front ++ anyDepth ++ after →
            PieceEnds (before ++ front) ∨ namesOf after = [] := by
          intro front after heq
          obtain hends | hnames := hfirst
          · by_cases hfront : front = []
            · exact .inl (by simpa [hfront] using hends)
            · have htoken := htokens (anyDepth ++ front) after (by simp [heq, anyDepth])
              rw [← List.append_assoc, pieceEnds_append_iff _ hfront] at htoken
              rwa [pieceEnds_append_iff _ hfront]
          · rw [heq, namesOf_append_anyDepth, List.append_eq_nil_iff] at hnames
            exact .inr hnames.2
        calc
          namesOf (before ++ variant) = namesOf (before ++ r) := ih before hremoved hrest
          _ = namesOf (before ++ anyDepth ++ r) :=
            namesOf_removed_iff.mpr (hfirst.imp_right startsAnyNames_of_namesOf_eq_nil)
          _ = namesOf (before ++ (anyDepth ++ r)) := by rw [List.append_assoc]
  | case3 c r hc ih =>
      rw [Cuts.ofText_cons_of_not_token hc, Cuts.spell_prepend] at hvariant
      obtain ⟨tail, htail, rfl⟩ := List.mem_map.mp hvariant
      have hrest := ih (before ++ [c]) htail fun front after heq => by
        simpa using htokens (c :: front) after (by simp [heq])
      simpa using hrest

/-- A text of which every variant begins with the piece `**` has no names. -/
theorem namesOf_eq_nil_of_spell {pattern : Text}
    (h : ∀ variant ∈ (Cuts.ofText pattern).spell, StartsAnyNames variant) :
    namesOf pattern = [] := by
  induction pattern using withoutAnyDepth.induct with
  | case1 => exact absurd (h [] (Cuts.self_mem_spell [])) (by simp [StartsAnyNames, Text.pieces])
  | case2 r ih =>
      rw [← namesOf_anyDepth_append] at ih
      exact ih fun variant hvariant => h variant (Cuts.mem_spell_anyDepth_append hvariant)
  | case3 c r hc ih =>
      -- The pattern is a variant of itself, and it begins with no token.
      obtain heq | ⟨rest, heq⟩ := (h _ (Cuts.self_mem_spell _)).eq_or_exists
      · rw [heq]
        rfl
      · obtain ⟨rfl, rfl⟩ := List.cons.inj heq
        exact absurd rfl (hc rest rfl)

/-- **The variants of a pattern keep its names** exactly where it has too many tokens to be
expanded, or each of its tokens begins a piece, or stands before pieces `**` alone. -/
theorem expandAnyDepth_namesOf_iff (pattern : Text) :
    (∀ variant ∈ expandAnyDepth pattern, namesOf variant = namesOf pattern) ↔
      (anyDepthFits pattern = true → ∀ before after, pattern = before ++ anyDepth ++ after →
        PieceEnds before ∨ namesOf after = []) := by
  by_cases hfits : anyDepthFits pattern = true
  · have hspell : expandAnyDepth pattern = (Cuts.ofText pattern).spell := by
      rw [expandAnyDepth, if_pos hfits]
      rfl
    rw [hspell]
    constructor
    · rintro h - before after rfl
      refine Classical.or_iff_not_imp_left.mpr fun hends => ?_
      refine namesOf_eq_nil_of_spell fun variant hvariant => ?_
      obtain ⟨hkept, hremoved⟩ := Cuts.append_mem_spell before hvariant
      have hsame : namesOf (before ++ variant) = namesOf (before ++ anyDepth ++ variant) := by
        rw [h _ hkept, h _ hremoved]
      exact (namesOf_removed_iff.mp hsame).resolve_left hends
    · intro h variant hvariant
      exact namesOf_append_of_mem_spell [] hvariant (h hfits)
  · simp [expandAnyDepth, hfits]

/-- A token at the end of a name joins two names, and one behind a star leaves a token
that the pattern did not have. -/
theorem glued_tokens_join_names :
    ("ab".toList ∈ expandAnyDepth "a**/b" ∧ namesOf "ab" ≠ namesOf "a**/b") ∧
      ("**/x".toList ∈ expandAnyDepth "***/*/x" ∧ namesOf "**/x" ≠ namesOf "***/*/x") := by
  decide

end TreeSync.Pattern
