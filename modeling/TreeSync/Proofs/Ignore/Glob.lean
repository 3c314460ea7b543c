import TreeSync.Text.Blank
import TreeSync.Pattern.AnyDepth
import TreeSync.Proofs.Filter.Matching

/-!
# TreeSync.Proofs.Ignore.Glob

Lines of names and stars, and the paths they name.

1. A line is a list of names with slashes between them.  A name is made of
   ordinary characters, `?` and single `*`, and an any-depth token may stand
   before it (`GlobStep`).
2. The names of a path follow the names of the line in order, and at a token any
   number of names may be passed over, none included (`GlobStep.follows`).
3. A line with a slash in front begins at its directory; a line of one name
   begins at any depth (`GlobLine.reading`).

A filter rule passes over at least one name at a token, so a line is spelled out
as every choice of keeping and removing its tokens: `follows_iff_treads` shows
that the choices together follow the same paths.
-/

namespace TreeSync

/-- True of the characters that mean nothing but themselves in an ignore file. -/
def isOrdinary (c : Char) : Bool :=
  !Text.isBlank c && !(['/', '*', '?', '[', ']', '\\', '!', '#'].contains c)

/-- A name of ordinary characters. -/
structure PlainName where
  text : Text
  ne_nil : text ≠ []
  ordinary : text.all isOrdinary = true

theorem PlainName.isOrdinary_of_mem {name : PlainName} {c : Char} (hc : c ∈ name.text) :
    isOrdinary c = true := List.all_eq_true.mp name.ordinary c hc

/-- True of the characters of a name with wildcards. -/
def isGlobChar (c : Char) : Bool := isOrdinary c || c = '*' || c = '?'

/-- A name of a line, and whether an any-depth token stands before it. -/
structure GlobStep where
  deep : Bool
  name : Text
  ne_nil : name ≠ []
  globbing : name.all isGlobChar = true
  single : ¬ ['*', '*'] <:+: name

namespace GlobStep

theorem isGlobChar_of_mem {step : GlobStep} {c : Char} (hc : c ∈ step.name) :
    isGlobChar c = true := List.all_eq_true.mp step.globbing c hc

/-- The step without its token. -/
def elide (step : GlobStep) : GlobStep := { step with deep := false }

/-- The step with a token before it. -/
def deepen (step : GlobStep) : GlobStep := { step with deep := true }

/-- The signs of its name. -/
def signs (step : GlobStep) : List Sign := step.name.map .plain

/-! ## the paths that steps name -/

/-- True when the names of a path follow the steps, where a token may pass over
any number of names. -/
def follows : List GlobStep → List Text → Bool
  | [], [] => true
  | step :: steps, name :: path =>
      Sign.globs step.signs name && follows steps path ||
        step.deep && follows (step :: steps) path
  | _, _ => false

theorem follows_cons (step : GlobStep) (steps : List GlobStep) (name : Text)
    (path : List Text) :
    follows (step :: steps) (name :: path) =
      (Sign.globs step.signs name && follows steps path ||
        step.deep && follows (step :: steps) path) := rfl

/-- A token in front is a start at any depth. -/
theorem follows_deepen (step : GlobStep) (steps : List GlobStep) (path : List Text) :
    follows (step.deepen :: steps) path = someTail (follows (step :: steps)) path := by
  induction path with
  | nil => rfl
  | cons name path ih =>
      rw [someTail, ← ih, follows_cons, follows_cons]
      show (Sign.globs step.signs name && follows steps path ||
        true && follows (step.deepen :: steps) path) = _
      have hdeeper : follows (step :: steps) path = true →
          follows (step.deepen :: steps) path = true := by
        intro h
        rw [ih]
        cases path <;> simp [someTail, h]
      cases hnow : Sign.globs step.signs name && follows steps path <;>
        cases hlater : follows (step :: steps) path <;> simp_all

/-! ## the pieces of a filter pattern -/

/-- The pieces that stand for the step in a filter pattern. -/
def pieces (step : GlobStep) : List (List Sign) :=
  (if step.deep then [Sign.anyNames] else []) ++ [step.signs]

/-- The step with its token kept, then with it removed. -/
def choices (step : GlobStep) : List GlobStep :=
  if step.deep then [step, step.elide] else [step]

/-- Every choice of keeping or removing the tokens of the steps. -/
def elisions : List GlobStep → List (List GlobStep)
  | [] => [[]]
  | step :: steps => step.choices.flatMap fun chosen => (elisions steps).map (chosen :: ·)

/-- Every step can be kept as it is. -/
theorem self_mem_choices (step : GlobStep) : step ∈ step.choices := by
  unfold choices
  split
  · exact List.mem_cons_self
  · exact List.mem_cons_self

/-- Every step can be kept without its depth. -/
theorem elide_mem_choices (step : GlobStep) : step.elide ∈ step.choices := by
  obtain ⟨deep, name, _, _, _⟩ := step
  cases deep with
  | false => exact List.mem_cons_self
  | true => exact List.mem_cons_of_mem _ List.mem_cons_self

/-- There is no other choice. -/
theorem eq_of_mem_choices {step chosen : GlobStep} (h : chosen ∈ step.choices) :
    chosen = step ∨ chosen = step.elide := by
  unfold choices at h
  split at h
  · simpa using h
  · exact Or.inl (List.mem_singleton.mp h)

/-- The elisions of a path choose step by step. -/
theorem mem_elisions_cons {step : GlobStep} {steps kept : List GlobStep} :
    kept ∈ elisions (step :: steps) ↔
      ∃ chosen ∈ step.choices, ∃ rest ∈ elisions steps, kept = chosen :: rest := by
  simp only [elisions, List.mem_flatMap, List.mem_map, eq_comm]

/-- The signs of a step are never those of the token. -/
theorem signs_ne_anyNames (step : GlobStep) : step.signs ≠ Sign.anyNames := by
  intro h
  have hstars : step.name = ['*', '*'] := by
    obtain ⟨a, l, hname, ha, hl⟩ := List.map_eq_cons_iff.mp h
    obtain ⟨b, l, rfl, hb, hnil⟩ := List.map_eq_cons_iff.mp hl
    have hstar : ∀ c, Sign.plain c = .wildcard '*' → c = '*' := by
      intro c hc
      unfold Sign.plain at hc
      split at hc
      · exact Sign.wildcard.inj hc
      · contradiction
    rw [hname, hstar a ha, hstar b hb, List.map_eq_nil_iff.mp hnil]
  exact step.single ⟨[], [], hstars.symm⟩

/-- A step without a token takes the next name. -/
theorem treads_pieces_of_not_deep {step : GlobStep} (h : step.deep = false)
    (rest : List (List Sign)) (name : Text) (path : List Text) :
    Sign.treads (step.pieces ++ rest) (name :: path) =
      (Sign.globs step.signs name && Sign.treads rest path) := by
  rw [pieces, h, if_neg Bool.false_ne_true, List.nil_append, List.singleton_append,
    Sign.treads_cons step.signs_ne_anyNames]

/-- A step with a token passes over the next name, with the token or without. -/
theorem treads_pieces_of_deep {step : GlobStep} (h : step.deep = true)
    (rest : List (List Sign)) (name : Text) (path : List Text) :
    Sign.treads (step.pieces ++ rest) (name :: path) =
      (Sign.treads (step.elide.pieces ++ rest) path ||
        Sign.treads (step.pieces ++ rest) path) := by
  rw [pieces, h]
  exact Sign.treads_anyNames _ name path

@[simp] theorem treads_pieces_nil (step : GlobStep) (rest : List (List Sign)) :
    Sign.treads (step.pieces ++ rest) [] = false := by
  rw [pieces]
  cases step.deep <;> rfl

/-- **The choices at the tokens together follow what the steps follow**: zero or
more names at each token is one or more with the token, or none without it. -/
theorem follows_iff_treads (steps : List GlobStep) (path : List Text) :
    follows steps path = true ↔
      ∃ kept ∈ elisions steps, Sign.treads (kept.flatMap pieces) path = true := by
  induction path generalizing steps with
  | nil =>
      cases steps with
      | nil => exact ⟨fun _ => ⟨[], List.mem_singleton_self [], rfl⟩, fun _ => rfl⟩
      | cons step steps =>
          constructor
          · intro h
            contradiction
          · intro hex
            obtain ⟨kept, hkept, h⟩ := hex
            obtain ⟨chosen, -, rest, -, rfl⟩ := mem_elisions_cons.mp hkept
            rw [List.flatMap_cons, treads_pieces_nil] at h
            contradiction
  | cons name path ih =>
      cases steps with
      | nil =>
          constructor
          · intro h
            contradiction
          · intro hex
            obtain ⟨kept, hkept, h⟩ := hex
            rw [List.mem_singleton.mp hkept] at h
            contradiction
      | cons step steps =>
          rw [follows_cons, Bool.or_eq_true, Bool.and_eq_true, Bool.and_eq_true, ih, ih]
          -- A path that passes over a name was followed by a choice already, with
          -- the token or without; the choice that keeps the token follows it now.
          constructor
          · intro hor
            obtain ⟨hname, rest, hrest, h⟩ | ⟨hdeep, kept, hkept, h⟩ := hor
            · refine ⟨step.elide :: rest, mem_elisions_cons.mpr ⟨_, ?_, rest, hrest, rfl⟩, ?_⟩
              · exact elide_mem_choices step
              · rw [List.flatMap_cons, treads_pieces_of_not_deep rfl, Bool.and_eq_true]
                exact ⟨hname, h⟩
            · obtain ⟨chosen, hchosen, rest, hrest, rfl⟩ := mem_elisions_cons.mp hkept
              refine ⟨step :: rest, mem_elisions_cons.mpr ⟨step, ?_, rest, hrest, rfl⟩, ?_⟩
              · exact self_mem_choices step
              · rw [List.flatMap_cons, treads_pieces_of_deep hdeep, Bool.or_eq_true]
                rw [List.flatMap_cons] at h
                obtain rfl | rfl := eq_of_mem_choices hchosen
                · exact Or.inr h
                · exact Or.inl h
          · intro hex
            obtain ⟨kept, hkept, h⟩ := hex
            obtain ⟨chosen, hchosen, rest, hrest, rfl⟩ := mem_elisions_cons.mp hkept
            rw [List.flatMap_cons] at h
            cases hdeep : chosen.deep with
            | false =>
                have hsigns : chosen.signs = step.signs := by
                  obtain rfl | rfl := eq_of_mem_choices hchosen <;> rfl
                rw [treads_pieces_of_not_deep hdeep, hsigns, Bool.and_eq_true] at h
                exact Or.inl ⟨h.1, rest, hrest, h.2⟩
            | true =>
                have hstep : chosen = step := by
                  obtain rfl | rfl := eq_of_mem_choices hchosen
                  · rfl
                  · contradiction
                subst hstep
                rw [treads_pieces_of_deep hdeep, Bool.or_eq_true] at h
                right
                refine ⟨hdeep, ?_⟩
                obtain h | h := h
                · exact ⟨chosen.elide :: rest,
                    mem_elisions_cons.mpr ⟨_, elide_mem_choices chosen, rest, hrest, rfl⟩, h⟩
                · exact ⟨chosen :: rest,
                    mem_elisions_cons.mpr ⟨_, self_mem_choices chosen, rest, hrest, rfl⟩, h⟩

/-! ## steps as text -/

/-- A step as it is written. -/
def text (step : GlobStep) : Text :=
  (if step.deep then Pattern.anyDepth else []) ++ step.name

/-- Steps as they are written, with a slash before each. -/
def pathText (steps : List GlobStep) : Text := steps.flatMap fun step => '/' :: step.text

@[simp] theorem pathText_nil : pathText [] = [] := rfl

theorem pathText_cons (step : GlobStep) (steps : List GlobStep) :
    pathText (step :: steps) = '/' :: (step.text ++ pathText steps) := by
  rw [pathText, List.flatMap_cons, List.cons_append, ← pathText]

end GlobStep

/-! ## lines -/

/-- A line of names.  A line of several names that does not begin with a slash
begins with a token. -/
structure GlobLine where
  anchored : Bool
  first : GlobStep
  rest : List GlobStep
  opening : anchored = true ∨ first.deep = true ∨ rest = []

/-- A directory as it is written, from the root of the tree. -/
def directoryText (directory : List PlainName) : Text :=
  directory.flatMap fun name => '/' :: name.text

/-- A directory as the place of an ignore file: `none` at the root of the tree. -/
def directoryPlace : List PlainName → Option Text
  | [] => none
  | name :: names => some (directoryText (name :: names))

namespace GlobLine

/-- A line as it is written. -/
def text (line : GlobLine) : Text :=
  (if line.anchored then ['/'] else []) ++ (line.first.text ++ GlobStep.pathText line.rest)

/-- The steps of a line, read from its directory. -/
def reading (line : GlobLine) : List GlobStep :=
  (if line.anchored then line.first else line.first.deepen) :: line.rest

/-- The steps of a line as they are put behind its directory.  At the root of the
tree nothing is put in front of them. -/
def placed (line : GlobLine) (directory : List PlainName) : List GlobStep :=
  (if line.anchored || directory.isEmpty then line.first else line.first.deepen) :: line.rest

/-- The paths that a line of the ignore file in `directory` names. -/
def Names (line : GlobLine) (directory : List PlainName) (path : List Text) : Prop :=
  ∃ below, path = directory.map (·.text) ++ below ∧
    GlobStep.follows line.reading below = true

end GlobLine

end TreeSync
