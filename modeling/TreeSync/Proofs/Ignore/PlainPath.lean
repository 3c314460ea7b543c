import TreeSync.Proofs.Ignore.Naming

/-!
# TreeSync.Proofs.Ignore.PlainPath

Lines of plain names with slashes between them, and the paths their rules match.

A slash in front ties a line to its directory; a slash between two names does not.  The
line is placed at any depth below its directory, as a single name is.

1. At the root of the tree such a line is one rule, the line itself; in a directory it is
   two, one with a token behind the directory and one without (`rulesOfLine_plainPath`).
2. A rule of plain names matches the one path that it spells, or every path that ends with
   it where no slash is in front; at a token some names are passed over
   (`Sign.treads_anyNames_iff`).

So the rules of a line match just the paths that begin with its directory and end with its
names, whatever stands between (`plainPath_reaches_iff`).
-/

namespace TreeSync

open Pattern

/-! ## the line -/

/-- Plain names with a slash between two. -/
def plainPath (names : List PlainName) : Text := Text.joinWith ['/'] (names.map (·.text))

theorem slash_cons_plainPath (name : PlainName) (names : List PlainName) :
    '/' :: plainPath (name :: names) = directoryText (name :: names) := by
  induction names generalizing name with
  | nil => simp [plainPath, Text.joinWith, directoryText]
  | cons next names ih =>
      have hrest := ih next
      rw [plainPath, List.map_cons] at hrest
      rw [plainPath, List.map_cons, List.map_cons, Text.joinWith, List.append_assoc,
        List.singleton_append, hrest]
      rfl

theorem of_mem_plainPath {names : List PlainName} {c : Char} (hc : c ∈ plainPath names) :
    c = '/' ∨ isOrdinary c = true := by
  obtain hslash | ⟨t, ht, hc⟩ := Text.mem_joinWith hc
  · exact .inl (List.mem_singleton.mp hslash)
  · obtain ⟨name, -, rfl⟩ := List.mem_map.mp ht
    exact .inr (PlainName.isOrdinary_of_mem hc)

theorem isLineChar_of_mem_plainPath {names : List PlainName} {c : Char}
    (hc : c ∈ plainPath names) : isLineChar c = true := by
  obtain rfl | h := of_mem_plainPath hc
  · decide
  · simp [isLineChar, isGlobChar, h]

theorem star_not_mem_plainPath (names : List PlainName) : '*' ∉ plainPath names :=
  fun h => absurd (of_mem_plainPath h) (by decide)

/-- The line begins with a character of its first name. -/
theorem exists_head?_plainPath (name : PlainName) (names : List PlainName) :
    ∃ c, (plainPath (name :: names)).head? = some c ∧ isOrdinary c = true := by
  obtain ⟨c, t, hname⟩ := List.exists_cons_of_ne_nil name.ne_nil
  obtain ⟨rest, hrest⟩ := Text.joinWith_cons ['/'] name.text (names.map (·.text))
  refine ⟨c, ?_, PlainName.isOrdinary_of_mem (by rw [hname]; exact List.mem_cons_self)⟩
  rw [plainPath, List.map_cons, hrest, hname]
  rfl

/-! ## its rules -/

theorem namesNothing_plainPath (name : PlainName) (names : List PlainName) :
    IgnoreRule.namesNothing (plainPath (name :: names)) = false := by
  have hwhole := withoutAnyDepth_of_cuts
    (Cuts.ofText_of_star_not_mem (star_not_mem_plainPath (name :: names)))
  obtain ⟨c, hc, hordinary⟩ := exists_head?_plainPath name names
  rw [IgnoreRule.namesNothing, hwhole, List.all_eq_false]
  exact ⟨c, List.mem_of_head? hc, by simpa using (of_isOrdinary hordinary).2.2⟩

theorem parse_plainPath (name : PlainName) (names directory : List PlainName) :
    IgnoreRule.parse (plainPath (name :: names)) (directoryPlace directory) =
      some ⟨.excludes, plainPath (name :: names), directoryPlace directory⟩ := by
  have hchars : ∀ c ∈ plainPath (name :: names),
      Text.isBlank c = false ∧ c ≠ '\\' ∧ c ≠ '[' ∧ c ≠ '!' ∧ c ≠ '#' :=
    fun c hc => of_isLineChar (isLineChar_of_mem_plainPath hc)
  have hparse := IgnoreRule.parse_of_unescaped .excludes (fun c hc => (hchars c hc).1)
    (fun hc => (hchars _ hc).2.1 rfl) (fun hc => (hchars _ (List.mem_of_head? hc)).2.2.2.2 rfl)
    (fun hc => (hchars _ (List.mem_of_head? hc)).2.2.2.1 rfl) (namesNothing_plainPath name names)
    (directoryPlace directory)
  rw [Sense.lineMark, List.nil_append] at hparse
  rw [hparse]
  cases directory <;> rfl

/-- The line at any depth below its directory. -/
theorem expandAnyDepth_relativePattern (name : PlainName) (names directory : List PlainName) :
    expandAnyDepth (IgnoreRule.relativePattern
        ⟨.excludes, plainPath (name :: names), directoryPlace directory⟩) =
      if directory = [] then [plainPath (name :: names)]
      else ['/' :: (anyDepth ++ plainPath (name :: names)), '/' :: plainPath (name :: names)] := by
  have hstar := star_not_mem_plainPath (name :: names)
  cases directory with
  | nil => simp [IgnoreRule.relativePattern, directoryPlace, expandAnyDepth_of_star_not_mem hstar]
  | cons d directory =>
      obtain ⟨c, hc, hordinary⟩ := exists_head?_plainPath name names
      have hslash : c ≠ '/' := (of_isOrdinary hordinary).2.2
      have htoken : ¬ anyDepth.isPrefixOf (plainPath (name :: names)) = true := by
        rw [List.isPrefixOf_iff_prefix]
        exact fun hstarts => hstar (hstarts.subset List.mem_cons_self)
      simp [IgnoreRule.relativePattern, directoryPlace, hc, hslash, htoken,
        expandAnyDepth_cons, expandAnyDepth_anyDepth_append hstar]

/-- **The rules of a line of plain names**: in a directory it is put behind it, with a
token between the two and without. -/
theorem rulesOfLine_plainPath (name : PlainName) (names directory : List PlainName) :
    rulesOfLine (plainPath (name :: names)) (directoryPlace directory) =
      if directory = [] then [⟨.excludes, plainPath (name :: names)⟩]
      else [⟨.excludes, directoryText directory ++ '/' :: (anyDepth ++ plainPath (name :: names))⟩,
        ⟨.excludes, directoryText directory ++ '/' :: plainPath (name :: names)⟩] := by
  have hbracket : '[' ∉ plainPath (name :: names) :=
    fun h => (of_isLineChar (isLineChar_of_mem_plainPath h)).2.2.1 rfl
  have hexpand := expandAnyDepth_relativePattern name names directory
  have hne : plainPath (name :: names) ≠ [] := by
    intro h
    obtain ⟨c, hc, -⟩ := exists_head?_plainPath name names
    simp [h] at hc
  have hpatterns : IgnoreRule.patterns
      ⟨.excludes, plainPath (name :: names), directoryPlace directory⟩ =
        expandAnyDepth (IgnoreRule.relativePattern
          ⟨.excludes, plainPath (name :: names), directoryPlace directory⟩) := by
    apply IgnoreRule.patterns_of_not_mem
    rw [hexpand]
    split <;> simp [hbracket, hne, anyDepth]
  rw [rulesOfLine, parse_plainPath]
  show IgnoreRule.rules ⟨.excludes, plainPath (name :: names), directoryPlace directory⟩ = _
  rw [IgnoreRule.rules, hpatterns, hexpand]
  simp only [under_directoryPlace]
  split
  · next hroot => simp [hroot, directoryText]
  · rfl

/-! ## what they match -/

namespace Sign

/-- The piece `**` passes over some names, and the rest is matched by what follows it. -/
theorem treads_anyNames_iff {pieces : List (List Sign)} {path : List Text} :
    treads (anyNames :: pieces) path = true ↔
      ∃ skipped below, skipped ≠ [] ∧ path = skipped ++ below ∧ treads pieces below = true := by
  induction path with
  | nil =>
      constructor
      · intro h
        contradiction
      · intro h
        obtain ⟨skipped, below, hne, hpath, -⟩ := h
        exact absurd (List.append_eq_nil_iff.mp hpath.symm).1 hne
  | cons name path ih =>
      rw [treads_anyNames, Bool.or_eq_true, ih]
      constructor
      · intro h
        obtain h | ⟨skipped, below, -, rfl, h⟩ := h
        · exact ⟨[name], path, by simp, rfl, h⟩
        · exact ⟨name :: skipped, below, by simp, rfl, h⟩
      · intro h
        obtain ⟨skipped, below, hne, hpath, h⟩ := h
        obtain ⟨first, skipped, rfl⟩ := List.exists_cons_of_ne_nil hne
        obtain ⟨rfl, rfl⟩ := List.cons.inj hpath
        by_cases hskipped : skipped = []
        · exact .inl (by simpa [hskipped] using h)
        · exact .inr ⟨skipped, below, hskipped, rfl, h⟩

/-- Literal names match the one path that they spell. -/
theorem treads_literals (names path : List Text) :
    treads (names.map (·.map literal)) path = true ↔ path = names := by
  have h := treads_literals_append names [] path
  have hend : ∀ below, treads [] below = true ↔ below = [] := by
    intro below
    cases below <;> simp [treads]
  rw [List.append_nil] at h
  simp [h, hend]

end Sign

/-- Each name as the signs that spell it. -/
def namePieces (names : List PlainName) : List (List Sign) :=
  (names.map (·.text)).map (·.map Sign.literal)

theorem map_plain_plainPath (name : PlainName) (names : List PlainName) :
    (plainPath (name :: names)).map Sign.plain =
      name.text.map Sign.literal ++ (namePieces names).flatMap (Sign.slash :: ·) := by
  have h := map_plain_directoryText (name :: names)
  rw [← slash_cons_plainPath] at h
  exact (List.cons.inj h).2

section
variable (name : PlainName) (names directory : List PlainName) (path : List Text)

/-- Without a slash in front the line matches every path that ends with its names. -/
theorem reaches_plainPath :
    FilterRule.reaches ⟨.excludes, plainPath (name :: names)⟩ path = true ↔
      ∃ between, path = between ++ (name :: names).map (·.text) := by
  have hquote : '\\' ∉ plainPath (name :: names) :=
    fun h => (of_isLineChar (isLineChar_of_mem_plainPath h)).2.1 rfl
  have hne : name.text.map Sign.literal ≠ [] := by
    rw [ne_eq, List.map_eq_nil_iff]
    exact name.ne_nil
  have hslash : ∀ piece ∈ namePieces (name :: names), Sign.slash ∉ piece :=
    fun _ hpiece => slash_not_mem_literals hpiece
  have hreads := Sign.treads_literals ((name :: names).map (·.text))
  rw [FilterRule.reaches_of_name hne hslash
    ((signsOf_of_not_mem hquote).trans (map_plain_plainPath name names)), someTail_iff]
  constructor
  · intro h
    obtain ⟨tail, ⟨between, rfl⟩, h⟩ := h
    exact ⟨between, by rw [(hreads tail).mp h]⟩
  · intro h
    obtain ⟨between, rfl⟩ := h
    exact ⟨_, ⟨between, rfl⟩, (hreads _).mpr rfl⟩

/-- Behind a directory it matches the one path that begins there. -/
theorem reaches_below :
    FilterRule.reaches ⟨.excludes, directoryText directory ++ '/' :: plainPath (name :: names)⟩
        path = true ↔
      path = directory.map (·.text) ++ (name :: names).map (·.text) := by
  have hpattern : directoryText directory ++ '/' :: plainPath (name :: names) =
      directoryText (directory ++ name :: names) := by
    rw [slash_cons_plainPath, directoryText, directoryText, directoryText, List.flatMap_append]
  have hquote : '\\' ∉ directoryText (directory ++ name :: names) :=
    fun h => (of_mem_directoryText h).2 rfl
  have hne : namePieces (directory ++ name :: names) ≠ [] := by simp [namePieces]
  rw [hpattern, FilterRule.reaches_of_slash hne (fun _ hp => slash_not_mem_literals hp)
    ((signsOf_of_not_mem hquote).trans (map_plain_directoryText _)), ← List.map_append]
  exact Sign.treads_literals _ path

/-- With a token between the two it matches the paths that begin with the directory and
end with the names, with something between. -/
theorem reaches_anyDepth_below :
    FilterRule.reaches
        ⟨.excludes, directoryText directory ++ '/' :: (anyDepth ++ plainPath (name :: names))⟩
        path = true ↔
      ∃ between, between ≠ [] ∧
        path = directory.map (·.text) ++ (between ++ (name :: names).map (·.text)) := by
  have hpattern : directoryText directory ++ '/' :: (anyDepth ++ plainPath (name :: names)) =
      directoryText directory ++ ('/' :: '*' :: '*' :: directoryText (name :: names)) := by
    rw [← slash_cons_plainPath]
    rfl
  have hquote : '\\' ∉
      directoryText directory ++ ('/' :: '*' :: '*' :: directoryText (name :: names)) := by
    have h : ∀ directory, '\\' ∉ directoryText directory :=
      fun _ h => (of_mem_directoryText h).2 rfl
    simp [h]
  have hslash : ∀ p ∈ namePieces directory ++ Sign.anyNames :: namePieces (name :: names),
      Sign.slash ∉ p := by
    intro p hp
    obtain hp | hp := List.mem_append.mp hp
    · exact slash_not_mem_literals hp
    · obtain rfl | hp := List.mem_cons.mp hp
      · decide
      · exact slash_not_mem_literals hp
  have hsigns : signsOf
      (directoryText directory ++ ('/' :: '*' :: '*' :: directoryText (name :: names))) =
        (namePieces directory ++ Sign.anyNames :: namePieces (name :: names)).flatMap
          (Sign.slash :: ·) := by
    rw [signsOf_of_not_mem hquote, List.map_append, List.map_cons, List.map_cons, List.map_cons,
      map_plain_directoryText, map_plain_directoryText, List.flatMap_append, List.flatMap_cons]
    rfl
  rw [hpattern, FilterRule.reaches_of_slash (by simp) hslash hsigns, namePieces,
    Sign.treads_literals_append]
  constructor
  · intro h
    obtain ⟨below, rfl, hbelow⟩ := h
    obtain ⟨between, tail, hne, rfl, htail⟩ := Sign.treads_anyNames_iff.mp hbelow
    exact ⟨between, hne, by rw [(Sign.treads_literals _ tail).mp htail]⟩
  · intro h
    obtain ⟨between, hne, rfl⟩ := h
    exact ⟨_, rfl, Sign.treads_anyNames_iff.mpr
      ⟨between, _, hne, rfl, (Sign.treads_literals _ _).mpr rfl⟩⟩

end

/-- **Where the rules of a line of plain names match**: a line with slashes between its
names, and none in front, is matched by the paths that begin with its directory and end
with its names, with any names between, and by no others. -/
theorem plainPath_reaches_iff (first second : PlainName) (rest directory : List PlainName)
    (path : List Text) :
    (∃ rule ∈ rulesOfLine (plainPath (first :: second :: rest)) (directoryPlace directory),
        rule.reaches path = true) ↔
      ∃ between, path = directory.map (·.text) ++ between ++
        (first :: second :: rest).map (·.text) := by
  rw [rulesOfLine_plainPath]
  split
  · next hroot =>
      subst hroot
      simpa using reaches_plainPath first (second :: rest) path
  · simp only [List.mem_cons, List.not_mem_nil, or_false, exists_eq_or_imp, exists_eq_left,
      reaches_anyDepth_below, reaches_below, List.append_assoc]
    constructor
    · intro h
      obtain ⟨between, -, h⟩ | h := h
      · exact ⟨between, h⟩
      · exact ⟨[], h⟩
    · intro h
      obtain ⟨between, h⟩ := h
      by_cases hbetween : between = []
      · subst hbetween
        exact .inr h
      · exact .inl ⟨between, hbetween, h⟩

/-- The line `a/b` at the root of the tree matches `x/a/b` too. -/
theorem plainPath_reaches_elsewhere :
    ¬ ∀ (first second : PlainName) (rest directory : List PlainName) (path : List Text),
      (∃ rule ∈ rulesOfLine (plainPath (first :: second :: rest)) (directoryPlace directory),
          rule.reaches path = true) ↔
        path = directory.map (·.text) ++ (first :: second :: rest).map (·.text) := by
  intro h
  have hline := (h ⟨"a", by decide, by decide⟩ ⟨"b", by decide, by decide⟩ [] []
    ["x".toList, "a".toList, "b".toList]).mp
  exact absurd (hline (by decide)) (by decide)

end TreeSync
