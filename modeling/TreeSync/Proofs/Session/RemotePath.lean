import TreeSync.Session.Resolve
import TreeSync.Proofs.Disk.Directory
import Mathlib.Data.List.Basic

/-!
# TreeSync.Proofs.Session.RemotePath

Which working trees share a default remote path.

A tree is named by the names on the way to it.  Its default remote path is

* `.` at the home directory,
* the path from the home directory on below it, with slashes for backslashes,
* its whole path everywhere else.

A path from the home directory on begins with no slash and tells the tree
(`below?_pathOf_injective`), so the three cases never meet, but for the slashes that were
backslashes: two trees share a path exactly if one of them has a backslash below the home
directory and is taken for the other once it is a slash (`defaultRemotePath_eq_iff`).
-/

namespace TreeSync

/-! ## paths of locations -/

namespace Disk

variable {names others : Location}

theorem pathOf_eq_joinWith (h : names ≠ []) : pathOf names = Text.joinWith ['/'] ([] :: names) := by
  induction names with
  | nil => contradiction
  | cons name rest ih =>
      cases rest with
      | nil => simp [pathOf, Text.joinWith]
      | cons next rest =>
          have hpath : pathOf (name :: next :: rest) = '/' :: name ++ pathOf (next :: rest) := rfl
          rw [hpath, ih (List.cons_ne_nil next rest)]
          simp [Text.joinWith]

theorem head?_slash (names : Location) : (pathOf names).head? = some '/' := by
  cases names <;> rfl

/-- The components of a location's path are the root and its names. -/
theorem components_pathOf (h : ∀ name ∈ names, IsName name) :
    Path.components (pathOf names) = ['/'] :: names := by
  have hidle : ∀ name ∈ names, (!Path.isIdle name) = true := fun name hname => by
    rw [Path.isIdle_eq_false (h name hname)]
    rfl
  have habsolute : Path.isAbsolute (pathOf names) = true := by
    rw [Path.isAbsolute, head?_slash]
    exact decide_eq_true rfl
  rw [Path.components, habsolute, if_pos rfl]
  cases names with
  | nil => rfl
  | cons name rest =>
      have hslash : ∀ piece ∈ [] :: name :: rest, '/' ∉ piece := by
        intro piece hpiece
        obtain rfl | hmem := List.mem_cons.mp hpiece
        · exact List.not_mem_nil
        · exact (h piece hmem).slash
      rw [pathOf_eq_joinWith (List.cons_ne_nil name rest),
        Text.pieces_joinWith (List.cons_ne_nil _ _) hslash,
        List.filter_cons_of_neg (by decide), List.filter_eq_self.mpr hidle]

/-- A location is told from its path. -/
theorem pathOf_injective (h : ∀ name ∈ names, IsName name) (h' : ∀ name ∈ others, IsName name)
    (heq : pathOf names = pathOf others) : names = others := by
  have hcomponents := congrArg Path.components heq
  rw [components_pathOf h, components_pathOf h'] at hcomponents
  exact (List.cons.inj hcomponents).2

end Disk

namespace Path

open Disk

variable {home path : Text} {names others : Location}

/-- Joined names are told from the text. -/
theorem names_joinWith (h : ∀ name ∈ names, IsName name) :
    Path.names (Text.joinWith ['/'] names) = names := by
  cases names with
  | nil => rfl
  | cons name rest =>
      rw [Path.names, Text.pieces_joinWith (List.cons_ne_nil name rest)
        fun piece hpiece => (h piece hpiece).slash]
      exact List.filter_eq_self.mpr fun piece hpiece => by simpa using (h piece hpiece).ne_nil

/-- Below a directory that has components, a tree is named by the names from there on. -/
theorem exists_of_below?_pathOf (h : ∀ name ∈ names, IsName name) (hhome : components home ≠ [])
    (hbelow : below? home (pathOf names) = some path) :
    ∃ base rest, components home = ['/'] :: base ∧ names = base ++ rest ∧
      path = Text.joinWith ['/'] rest := by
  rw [below?, if_neg hhome, components_pathOf h, Option.map_eq_some_iff] at hbelow
  obtain ⟨rest, hprefix, rfl⟩ := hbelow
  rw [List.isPrefixOf?_eq_some_iff_append_eq] at hprefix
  obtain ⟨root, base, hbase⟩ := List.exists_cons_of_ne_nil hhome
  rw [hbase, List.cons_append] at hprefix
  obtain ⟨rfl, rfl⟩ := List.cons.inj hprefix
  exact ⟨base, rest, hbase, rfl, rfl⟩

/-- **The path below a directory tells the tree.** -/
theorem below?_pathOf_injective (h : ∀ name ∈ names, IsName name)
    (h' : ∀ name ∈ others, IsName name) (hbelow : below? home (pathOf names) = some path)
    (hbelow' : below? home (pathOf others) = some path) : names = others := by
  by_cases hhome : components home = []
  · rw [below?, if_pos hhome] at hbelow hbelow'
    exact pathOf_injective h h' (Option.some.inj (hbelow.trans hbelow'.symm))
  · obtain ⟨base, rest, hbase, rfl, rfl⟩ := exists_of_below?_pathOf h hhome hbelow
    obtain ⟨base', rest', hbase', rfl, hpath⟩ := exists_of_below?_pathOf h' hhome hbelow'
    obtain rfl : base = base' := (List.cons.inj (hbase.symm.trans hbase')).2
    have hnames := congrArg Path.names hpath
    rw [names_joinWith fun name hname => h name (List.mem_append_right base hname),
      names_joinWith fun name hname => h' name (List.mem_append_right base hname)] at hnames
    rw [hnames]

/-- A path below a directory with components is neither absolute nor a dot. -/
theorem relative_of_below?_pathOf (h : ∀ name ∈ names, IsName name) (hhome : components home ≠ [])
    (hbelow : below? home (pathOf names) = some path) :
    path.head? ≠ some '/' ∧ path ≠ ['.'] := by
  obtain ⟨base, rest, -, rfl, rfl⟩ := exists_of_below?_pathOf h hhome hbelow
  have hrest : ∀ name ∈ rest, IsName name := fun name hname =>
    h name (List.mem_append_right base hname)
  constructor
  · intro hhead
    cases rest with
    | nil => cases hhead
    | cons name rest =>
        have hname := hrest name List.mem_cons_self
        obtain ⟨c, tail, rfl⟩ := List.exists_cons_of_ne_nil hname.ne_nil
        obtain ⟨more, hmore⟩ := Text.joinWith_cons ['/'] (c :: tail) rest
        rw [hmore] at hhead
        exact hname.slash (by simp [Option.some.inj hhead])
  · intro hdot
    have hnames := congrArg Path.names hdot
    rw [names_joinWith hrest] at hnames
    have hmem : ['.'] ∈ rest := by
      rw [hnames]
      decide
    exact (hrest ['.'] hmem).dot rfl

end Path

/-! ## default remote paths -/

namespace Resolve

open Disk

variable {home path root : Text} {first second : Location}

/-- A path with a slash in the place of each backslash. -/
def slashed (path : Text) : Text := path.map fun c => if c = '\\' then '/' else c

/-- A path without backslashes stays as it is. -/
theorem slashed_of_not_mem (h : '\\' ∉ path) : slashed path = path := by
  have hsame : slashed path = path.map id := by
    apply List.map_congr_left
    intro c hc
    have hne : c ≠ '\\' := fun heq => h (heq ▸ hc)
    simp [hne]
  rw [hsame, List.map_id]

/-- A path with a backslash never becomes the home directory. -/
theorem slashed_ne_dot (h : '\\' ∈ path) : slashed path ≠ ['.'] := by
  intro hdot
  have hmem : '/' ∈ slashed path := List.mem_map.mpr ⟨'\\', h, rfl⟩
  rw [hdot] at hmem
  exact absurd hmem (by decide)

/-- The home directory is mirrored by the remote one. -/
theorem defaultRemotePath_of_home (h : Path.below? home root = some []) :
    defaultRemotePath root home = ['.'] := by
  rw [defaultRemotePath, h]

/-- What is below it is mirrored by its path from there. -/
theorem defaultRemotePath_of_below (h : Path.below? home root = some path) (hne : path ≠ []) :
    defaultRemotePath root home = slashed path := by
  rw [defaultRemotePath, h]
  split
  · next heq => exact absurd (Option.some.inj heq) hne
  · next heq => rw [Option.some.inj heq, slashed]
  · contradiction

/-- What is outside keeps its own path. -/
theorem defaultRemotePath_of_outside (h : Path.below? home root = none) :
    defaultRemotePath root home = root := by
  rw [defaultRemotePath, h]

/-- The first tree has a backslash below the home directory, and with a slash in its place
it has the path of the second tree: below the home directory, or outside of it. -/
def Confuses (home : Text) (first second : Location) : Prop :=
  ∃ path, Path.below? home (pathOf first) = some path ∧ '\\' ∈ path ∧
    ((∃ other, Path.below? home (pathOf second) = some other ∧ slashed path = slashed other) ∨
      Path.below? home (pathOf second) = none ∧ slashed path = pathOf second)

/-- Roots that are confused have one remote path. -/
theorem eq_of_confuses (h : Confuses home first second) :
    defaultRemotePath (pathOf first) home = defaultRemotePath (pathOf second) home := by
  obtain ⟨path, hbelow, hmem, hor⟩ := h
  have hne : path ≠ [] := List.ne_nil_of_mem hmem
  rw [defaultRemotePath_of_below hbelow hne]
  obtain ⟨other, hother, heq⟩ | ⟨houtside, heq⟩ := hor
  · have hne' : other ≠ [] := by
      rintro rfl
      exact hne (List.map_eq_nil_iff.mp heq)
    rw [heq, defaultRemotePath_of_below hother hne']
  · rw [heq, defaultRemotePath_of_outside houtside]

/-- A tree with a backslash below the home directory is confused with all that share its
path. -/
theorem confuses_of_eq (hbelow : Path.below? home (pathOf first) = some path) (hmem : '\\' ∈ path)
    (heq : defaultRemotePath (pathOf first) home = defaultRemotePath (pathOf second) home) :
    Confuses home first second := by
  refine ⟨path, hbelow, hmem, ?_⟩
  rw [defaultRemotePath_of_below hbelow (List.ne_nil_of_mem hmem)] at heq
  cases hsecond : Path.below? home (pathOf second) with
  | none =>
      rw [defaultRemotePath_of_outside hsecond] at heq
      exact .inr ⟨rfl, heq⟩
  | some other =>
      by_cases hne : other = []
      · subst hne
        rw [defaultRemotePath_of_home hsecond] at heq
        exact absurd heq (slashed_ne_dot hmem)
      · rw [defaultRemotePath_of_below hsecond hne] at heq
        exact .inl ⟨other, rfl, heq⟩

/-! ## trees without backslashes -/

/-- The default remote path of a tree as it would be if backslashes stayed. -/
def mirrored (home : Text) (names : Location) : Text :=
  match Path.below? home (pathOf names) with
  | none => pathOf names
  | some [] => ['.']
  | some path => path

/-- Without backslashes the remote path is the mirrored one. -/
theorem defaultRemotePath_of_plain
    (hplain : ∀ path, Path.below? home (pathOf first) = some path → '\\' ∉ path) :
    defaultRemotePath (pathOf first) home = mirrored home first := by
  rw [mirrored]
  split
  · next hbelow => exact defaultRemotePath_of_outside hbelow
  · next hbelow => exact defaultRemotePath_of_home hbelow
  · next path hne hbelow =>
      rw [defaultRemotePath_of_below hbelow hne,
        slashed_of_not_mem (hplain path hbelow)]

/-- The path below the home directory is read off: no slash begins it, and it is no dot. -/
theorem below?_eq_of_mirrored (h : ∀ name ∈ first, IsName name)
    (hhome : Path.components home ≠ []) :
    Path.below? home (pathOf first) =
      if (mirrored home first).head? = some '/' then none
      else if mirrored home first = ['.'] then some []
      else some (mirrored home first) := by
  rw [mirrored]
  split
  · next hbelow => rw [hbelow, if_pos (head?_slash first)]
  · next hbelow =>
      rw [hbelow]
      rfl
  · next path _ hbelow =>
      obtain ⟨hhead, hdot⟩ := Path.relative_of_below?_pathOf h hhome hbelow
      rw [hbelow, if_neg hhead, if_neg hdot]

/-- Mirrored paths keep roots apart. -/
theorem mirrored_injective (h : ∀ name ∈ first, IsName name) (h' : ∀ name ∈ second, IsName name)
    (heq : mirrored home first = mirrored home second) : first = second := by
  by_cases hhome : Path.components home = []
  · have hwhole : ∀ names, mirrored home names = pathOf names := by
      intro names
      rw [mirrored, Path.below?, if_pos hhome]
      cases names <;> rfl
    rw [hwhole, hwhole] at heq
    exact pathOf_injective h h' heq
  · have hbelow : Path.below? home (pathOf first) = Path.below? home (pathOf second) := by
      rw [below?_eq_of_mirrored h hhome, below?_eq_of_mirrored h' hhome, heq]
    cases hsecond : Path.below? home (pathOf second) with
    | none =>
        rw [mirrored, mirrored, hbelow, hsecond] at heq
        exact pathOf_injective h h' heq
    | some path => exact Path.below?_pathOf_injective h h' (hbelow.trans hsecond) hsecond

/-- **Two trees share a default remote path** exactly if they are one tree, or a backslash
below the home directory lets one be taken for the other. -/
theorem defaultRemotePath_eq_iff (h : ∀ name ∈ first, IsName name)
    (h' : ∀ name ∈ second, IsName name) :
    defaultRemotePath (pathOf first) home = defaultRemotePath (pathOf second) home ↔
      first = second ∨ Confuses home first second ∨ Confuses home second first := by
  constructor
  · intro heq
    by_cases hfirst : ∃ path, Path.below? home (pathOf first) = some path ∧ '\\' ∈ path
    · obtain ⟨path, hbelow, hmem⟩ := hfirst
      exact .inr (.inl (confuses_of_eq hbelow hmem heq))
    by_cases hsecond : ∃ path, Path.below? home (pathOf second) = some path ∧ '\\' ∈ path
    · obtain ⟨path, hbelow, hmem⟩ := hsecond
      exact .inr (.inr (confuses_of_eq hbelow hmem heq.symm))
    rw [defaultRemotePath_of_plain fun path hbelow hmem => hfirst ⟨path, hbelow, hmem⟩,
      defaultRemotePath_of_plain fun path hbelow hmem => hsecond ⟨path, hbelow, hmem⟩] at heq
    exact .inl (mirrored_injective h h' heq)
  · rintro (rfl | hconfuses | hconfuses)
    · rfl
    · exact eq_of_confuses hconfuses
    · exact (eq_of_confuses hconfuses).symm

/-- A backslash below the home directory is harmless as long as no other tree has the path
with a slash in its place. -/
theorem defaultRemotePath_eq_iff_unshared :
    let first : Location := ["home", "a\\b"]
    let second : Location := ["srv", "a", "b"]
    (∀ name ∈ first, IsName name) ∧ (∀ name ∈ second, IsName name) ∧
      defaultRemotePath (pathOf first) "/home" ≠ defaultRemotePath (pathOf second) "/home" := by
  intro first second
  have hfirst : ∀ name ∈ first, IsName name := by decide
  have hsecond : ∀ name ∈ second, IsName name := by decide
  refine ⟨hfirst, hsecond, mt (defaultRemotePath_eq_iff hfirst hsecond).mp ?_⟩
  have hbelow : Path.below? "/home" (pathOf first) = some "a\\b".toList := by decide
  have houtside : Path.below? "/home" (pathOf second) = none := by decide
  rintro (heq | ⟨path, hpath, -, ⟨other, hother, -⟩ | ⟨-, hshown⟩⟩ | ⟨path, hpath, -⟩)
  · revert heq
    decide
  · rw [houtside] at hother
    cases hother
  · rw [hbelow] at hpath
    cases hpath
    revert hshown
    decide
  · rw [houtside] at hpath
    cases hpath

/-- Two trees below the home directory share a path, and so do one below it and one
outside. -/
theorem backslash_shares_remotePath :
    (["home", "a\\b"] : Location) ≠ ["home", "a", "b"] ∧
      defaultRemotePath (pathOf ["home", "a\\b"]) "/home" = "a/b" ∧
      defaultRemotePath (pathOf ["home", "a", "b"]) "/home" = "a/b" ∧
      defaultRemotePath (pathOf ["home", "\\srv"]) "/home" = "/srv" ∧
      defaultRemotePath (pathOf ["srv"]) "/home" = "/srv" := by
  decide

end Resolve

end TreeSync
