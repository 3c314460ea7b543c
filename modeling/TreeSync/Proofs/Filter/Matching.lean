import TreeSync.Filter.Rule
import TreeSync.Proofs.Filter.Reading

/-!
# TreeSync.Proofs.Filter.Matching

Which paths a filter rule matches.  A path is the list of its names, from the
root of the tree.

1. A pattern is cut at its slashes, and its pieces match the names of the path
   in order (`Sign.treads`).
2. The piece `**` stands for one or more names.
3. In every other piece `?` stands for one character of the name and `*` for any
   number of them (`Sign.globs`).  Groups are spelled out before a pattern is
   put in a rule, so an opening bracket matches no name.
4. A pattern with a slash in front is matched against the whole path, every
   other against any tail of it (`FilterRule.reaches`).
-/

namespace TreeSync

/-- True when `p` holds of the list or of one of its tails. -/
def someTail {α : Type} (p : List α → Bool) : List α → Bool
  | [] => p []
  | a :: r => p (a :: r) || someTail p r

theorem someTail_iff {α : Type} {p : List α → Bool} {l : List α} :
    someTail p l = true ↔ ∃ tail, tail <:+ l ∧ p tail = true := by
  induction l with
  | nil => simp [someTail]
  | cons a r ih =>
      rw [someTail, Bool.or_eq_true, ih]
      constructor
      · intro hor
        obtain h | ⟨tail, htail, h⟩ := hor
        · exact ⟨a :: r, List.suffix_rfl, h⟩
        · exact ⟨tail, htail.trans (List.suffix_cons a r), h⟩
      · intro hex
        obtain ⟨tail, htail, h⟩ := hex
        obtain rfl | htail := List.suffix_cons_iff.mp htail
        · exact Or.inl h
        · exact Or.inr ⟨tail, htail, h⟩

namespace Sign

/-! ## one name -/

/-- True when the signs match a whole name. -/
def globs : List Sign → Text → Bool
  | [], name => name.isEmpty
  | .wildcard '*' :: signs, name => someTail (globs signs) name
  | .wildcard '?' :: signs, _ :: name => globs signs name
  | .literal c :: signs, d :: name => c = d && globs signs name
  | _, _ => false

/-- Literal signs match the one name they spell. -/
theorem globs_literals {t name : Text} : globs (t.map .literal) name = true ↔ name = t := by
  induction t generalizing name with
  | nil => simp [globs]
  | cons c t ih =>
      cases name with
      | nil => simp [globs]
      | cons d name =>
          rw [List.map_cons, globs, Bool.and_eq_true, ih, decide_eq_true_eq, List.cons.injEq]
          constructor
          · intro hex
            obtain ⟨rfl, rfl⟩ := hex
            exact ⟨rfl, rfl⟩
          · intro hex
            obtain ⟨rfl, rfl⟩ := hex
            exact ⟨rfl, rfl⟩

/-! ## the names of a path -/

/-- The sign between the names of a pattern. -/
def slash : Sign := .literal '/'

/-- The piece that stands for one or more names. -/
def anyNames : List Sign := [.wildcard '*', .wildcard '*']

/-- True when the pieces of a pattern match the names of a path, all of them. -/
def treads : List (List Sign) → List Text → Bool
  | [], [] => true
  | piece :: pieces, name :: path =>
      if piece = anyNames then treads pieces path || treads (piece :: pieces) path
      else globs piece name && treads pieces path
  | _, _ => false

@[simp] theorem treads_cons_nil (piece : List Sign) (pieces : List (List Sign)) :
    treads (piece :: pieces) [] = false := rfl

theorem treads_anyNames (pieces : List (List Sign)) (name : Text) (path : List Text) :
    treads (anyNames :: pieces) (name :: path) =
      (treads pieces path || treads (anyNames :: pieces) path) := by
  rw [treads, if_pos rfl]

theorem treads_cons {piece : List Sign} (h : piece ≠ anyNames) (pieces : List (List Sign))
    (name : Text) (path : List Text) :
    treads (piece :: pieces) (name :: path) = (globs piece name && treads pieces path) := by
  rw [treads, if_neg h]

theorem literals_ne_anyNames (t : Text) : t.map literal ≠ anyNames := by
  cases t with
  | nil => exact List.cons_ne_nil _ _ |>.symm
  | cons c t => simp [anyNames]

/-- Literal names in front of a pattern are the first names of its paths. -/
theorem treads_literals_append (names : List Text) (pieces : List (List Sign))
    (path : List Text) :
    treads (names.map (·.map literal) ++ pieces) path = true ↔
      ∃ below, path = names ++ below ∧ treads pieces below = true := by
  induction names generalizing path with
  | nil => simp
  | cons d names ih =>
      cases path with
      | nil => simp
      | cons name path =>
          rw [List.map_cons, List.cons_append, treads_cons (literals_ne_anyNames d),
            Bool.and_eq_true, globs_literals, ih]
          constructor
          · intro hex
            obtain ⟨rfl, below, rfl, h⟩ := hex
            exact ⟨below, rfl, h⟩
          · intro hex
            obtain ⟨below, hpath, h⟩ := hex
            obtain ⟨rfl, rfl⟩ := List.cons.inj hpath
            exact ⟨rfl, below, rfl, h⟩

/-- Pieces with slashes between them are cut apart again. -/
theorem splitOn_slash {piece : List Sign} {pieces : List (List Sign)}
    (h : ∀ p ∈ piece :: pieces, slash ∉ p) :
    (piece ++ pieces.flatMap (slash :: ·)).splitOn slash = piece :: pieces := by
  induction pieces generalizing piece with
  | nil =>
      rw [List.flatMap_nil, List.append_nil]
      exact List.splitOn_eq_singleton (h piece List.mem_cons_self)
  | cons q pieces ih =>
      rw [List.flatMap_cons, List.cons_append,
        List.splitOn_append_cons_self_of_not_mem (h piece List.mem_cons_self),
        ih fun p hp => h p (List.mem_cons_of_mem piece hp)]

end Sign

/-! ## a rule -/

/-- True when a rule matches a path. -/
def FilterRule.reaches (rule : FilterRule) (path : List Text) : Bool :=
  match signsOf rule.pattern with
  | .literal '/' :: signs => Sign.treads (signs.splitOn .slash) path
  | signs => someTail (Sign.treads (signs.splitOn .slash)) path

namespace FilterRule

variable {rule : FilterRule} {piece : List Sign} {pieces : List (List Sign)}

theorem reaches_of_slash (hne : pieces ≠ []) (h : ∀ p ∈ pieces, Sign.slash ∉ p)
    (hsigns : signsOf rule.pattern = pieces.flatMap (.slash :: ·)) (path : List Text) :
    rule.reaches path = Sign.treads pieces path := by
  obtain ⟨piece, pieces, rfl⟩ := List.exists_cons_of_ne_nil hne
  rw [reaches, hsigns, List.flatMap_cons, List.cons_append]
  show Sign.treads ((piece ++ pieces.flatMap (.slash :: ·)).splitOn .slash) path = _
  rw [Sign.splitOn_slash h]

theorem reaches_of_name (hne : piece ≠ []) (h : ∀ p ∈ piece :: pieces, Sign.slash ∉ p)
    (hsigns : signsOf rule.pattern = piece ++ pieces.flatMap (.slash :: ·))
    (path : List Text) :
    rule.reaches path = someTail (Sign.treads (piece :: pieces)) path := by
  rw [reaches, ← Sign.splitOn_slash h, hsigns]
  split
  · next signs hslash =>
      -- The first sign belongs to the first piece, which holds no slash.
      obtain ⟨sign, piece, rfl⟩ := List.exists_cons_of_ne_nil hne
      rw [List.cons_append] at hslash
      have hsign : sign = Sign.slash := (List.cons.inj hslash).1
      have hmem : Sign.slash ∈ sign :: piece := by rw [hsign]; exact List.mem_cons_self
      exact absurd hmem (h _ List.mem_cons_self)
  · rfl

end FilterRule

end TreeSync
