import TreeSync.Disk.Path
import TreeSync.Disk.Operation
import TreeSync.Proofs.Disk.Walk

/-!
# TreeSync.Proofs.Disk.Directory

Paths that are a directory and a name in it.

1. A path enters a directory if its names lead there (`Enters`).
2. A name joined to it is that name in that directory (`findEnd_join`), and it is
   walked to as such (`find_join`).
3. Whatever is found at such a path was found by entering the directory
   (`exists_enters_of_findEnd`, `exists_enters_of_find`).
-/

namespace TreeSync

/-! ## names -/

/-- A text that can be the name of an entry. -/
structure IsName (name : Text) : Prop where
  ne_nil : name ≠ []
  slash : '/' ∉ name
  nul : '\x00' ∉ name
  dot : name ≠ ['.']
  up : name ≠ ['.', '.']

instance decidableIsName (name : Text) : Decidable (IsName name) :=
  decidable_of_iff (name ≠ [] ∧ '/' ∉ name ∧ '\x00' ∉ name ∧ name ≠ ['.'] ∧ name ≠ ['.', '.'])
    ⟨fun ⟨h₁, h₂, h₃, h₄, h₅⟩ => ⟨h₁, h₂, h₃, h₄, h₅⟩,
      fun ⟨h₁, h₂, h₃, h₄, h₅⟩ => ⟨h₁, h₂, h₃, h₄, h₅⟩⟩

namespace Path

/-- The names in a path, those that repeat the directory or go up included. -/
def names (path : Text) : List Text := (Text.pieces '/' path).filter (· ≠ [])

/-- The names before a slash and those behind it. -/
theorem names_append (a b : Text) : names (a ++ '/' :: b) = names a ++ names b := by
  rw [names, Text.pieces_append, List.filter_append, names, names]

/-- A name by itself has no parts. -/
theorem names_of_isName {name : Text} (h : IsName name) : names name = [name] := by
  rw [names, Text.pieces_of_not_mem h.slash]
  simp [h.ne_nil]

theorem ne_nil_of_mem_names {path name : Text} (h : name ∈ names path) : name ≠ [] := by
  simpa using (List.mem_filter.mp h).2

theorem slash_not_mem_of_mem_names {path name : Text} (h : name ∈ names path) : '/' ∉ name :=
  Text.not_mem_of_mem_pieces (List.mem_filter.mp h).1

variable (base : Text) {name : Text}

/-- A name joined to a path is put behind a slash, which may be there already. -/
theorem join_eq (h : IsName name) :
    (base = [] ∧ join base name = name) ∨ (∃ before, base = before ++ ['/'] ∧
      join base name = before ++ '/' :: name) ∨ (base ≠ [] ∧ base.getLast? ≠ some '/' ∧
        join base name = base ++ '/' :: name) := by
  have hrelative : isAbsolute name = false := by
    simp only [isAbsolute, decide_eq_false_iff_not]
    exact fun hhead => h.slash (List.mem_of_mem_head? hhead)
  rw [join, hrelative, if_neg Bool.false_ne_true]
  by_cases hnil : base = []
  · exact Or.inl ⟨hnil, by simp [hnil]⟩
  by_cases hlast : base.getLast? = some '/'
  · obtain ⟨before, rfl⟩ := List.getLast?_eq_some_iff.mp hlast
    exact Or.inr (Or.inl ⟨before, rfl, by simp⟩)
  · exact Or.inr (Or.inr ⟨hnil, hlast, by simp [hnil, hlast]⟩)

/-- Below a directory there is one name more. -/
theorem names_join (h : IsName name) : names (join base name) = names base ++ [name] := by
  obtain ⟨rfl, heq⟩ | ⟨before, rfl, heq⟩ | ⟨-, -, heq⟩ := join_eq base h
  · rw [heq, names_of_isName h]
    rfl
  · rw [heq, names_append, names_append, names_of_isName h]
    simp [names, Text.pieces]
  · rw [heq, names_append, names_of_isName h]

/-- A path below a directory starts at the root if the directory does. -/
theorem head?_join (h : IsName name) : (join base name).head? = some '/' ↔ base.head? = some '/' := by
  obtain ⟨rfl, heq⟩ | ⟨before, rfl, heq⟩ | ⟨hne, -, heq⟩ := join_eq base h
  · rw [heq]
    exact ⟨fun hhead => absurd (List.mem_of_mem_head? hhead) h.slash, fun hhead => by contradiction⟩
  · rw [heq]
    cases before <;> simp
  · obtain ⟨c, rest, rfl⟩ := List.exists_cons_of_ne_nil hne
    rw [heq]
    simp

/-- A path that ends with a name has no slash at its end. -/
theorem getLast?_join (h : IsName name) : (join base name).getLast? ≠ some '/' := by
  have hlast : ∀ before, (before ++ '/' :: name).getLast? = name.getLast? := by
    obtain ⟨c, rest, rfl⟩ := List.exists_cons_of_ne_nil h.ne_nil
    intro before
    rw [List.getLast?_append, List.getLast?_cons_cons, List.getLast?_cons, Option.some_or]
  have hname : name.getLast? ≠ some '/' := fun h' => h.slash (List.mem_of_getLast? h')
  obtain ⟨rfl, heq⟩ | ⟨before, rfl, heq⟩ | ⟨-, -, heq⟩ := join_eq base h
  · rwa [heq]
  · rwa [heq, hlast]
  · rwa [heq, hlast]

theorem nul_mem_join (h : IsName name) : '\x00' ∈ join base name ↔ '\x00' ∈ base := by
  obtain ⟨rfl, heq⟩ | ⟨before, rfl, heq⟩ | ⟨-, -, heq⟩ := join_eq base h <;>
    simp [heq, h.nul]

theorem join_ne_nil (h : IsName name) : join base name ≠ [] := by
  intro hnil
  have := names_join base h
  rw [hnil] at this
  simp [names, Text.pieces] at this

/-! ## the parent of a joined name -/

/-- The pieces of a joined name are those of the path, and the name. -/
theorem exists_pieces_join (h : IsName name) :
    ∃ ps, Text.pieces '/' (join base name) = ps ++ [name] ∧ names base = ps.filter (· ≠ []) ∧
      ∀ p ∈ ps, '/' ∉ p := by
  have hslash : ∀ {t p : Text}, p ∈ Text.pieces '/' t → '/' ∉ p := Text.not_mem_of_mem_pieces
  obtain ⟨rfl, heq⟩ | ⟨before, rfl, heq⟩ | ⟨-, -, heq⟩ := join_eq base h
  · refine ⟨[], ?_, rfl, fun p hp => absurd hp List.not_mem_nil⟩
    rw [heq, Text.pieces_of_not_mem h.slash]
    rfl
  · refine ⟨Text.pieces '/' before, ?_, ?_, fun p => hslash⟩
    · rw [heq, Text.pieces_append, Text.pieces_of_not_mem h.slash]
    · rw [names_append]
      exact List.append_nil _
  · refine ⟨Text.pieces '/' base, ?_, rfl, fun p => hslash⟩
    rw [heq, Text.pieces_append, Text.pieces_of_not_mem h.slash]

/-- A name is not passed over. -/
theorem isIdle_eq_false (h : IsName name) : isIdle name = false := by
  have hdot : name ≠ ['.'] := h.dot
  simp [isIdle, h.ne_nil, hdot]

/-- What is taken off the end of a list is a run of elements to take off. -/
theorem eq_dropEnd_append (p : Text → Bool) (ps : List Text) :
    ∃ run, ps = dropEnd p ps ++ run ∧ ∀ q ∈ run, p q = true := by
  refine ⟨(ps.reverse.takeWhile p).reverse, ?_, ?_⟩
  · rw [dropEnd, ← List.reverse_append, List.takeWhile_append_dropWhile, List.reverse_reverse]
  · intro q hq
    exact List.all_eq_true.mp List.all_takeWhile q (List.mem_reverse.mp hq)

/-- The names of a path put together from pieces are the pieces that hold something.
-/
theorem names_ofPieces {first : Text} {rest : List Text} (h : ∀ p ∈ first :: rest, '/' ∉ p) :
    names (ofPieces first rest) = (first :: rest).filter (· ≠ []) := by
  rw [ofPieces]
  split
  · next hroot =>
      obtain ⟨rfl, rfl⟩ : first = [] ∧ rest = [] := by simpa using hroot
      rfl
  · rw [names, Text.pieces_joinWith (List.cons_ne_nil first rest) h]

/-- A path of pieces starts at the root if its first piece is empty. -/
theorem head?_ofPieces {first : Text} {rest : List Text} (h : '/' ∉ first) :
    (ofPieces first rest).head? = some '/' ↔ first = [] := by
  rw [ofPieces]
  split
  · next hroot =>
      obtain ⟨rfl, rfl⟩ : first = [] ∧ rest = [] := by simpa using hroot
      simp
  · next hroot =>
      cases first with
      | nil =>
          cases rest with
          | nil => exact absurd rfl hroot
          | cons q qs => simp [Text.joinWith]
      | cons c r =>
          obtain ⟨more, hmore⟩ := Text.joinWith_cons ['/'] (c :: r) rest
          rw [hmore]
          simpa using fun heq : c = '/' => h (by simp [heq])

/-- **The parent of a joined name** has the names of the path, dots at the end apart. -/
theorem split?_join (h : IsName name) :
    ∃ parent dots, split? (join base name) = some (parent, name) ∧
      names base = names parent ++ dots ∧ (∀ d ∈ dots, d = ['.']) ∧
      (parent.head? = some '/' ↔ base.head? = some '/') := by
  obtain ⟨ps, hps, hnames, hslash⟩ := exists_pieces_join base h
  have hjoin : join base name = Text.joinWith ['/'] (ps ++ [name]) := by
    rw [← hps, Text.joinWith_pieces]
  cases ps with
  | nil =>
      refine ⟨[], [], ?_, ?_, fun d hd => absurd hd List.not_mem_nil, ?_⟩
      · rw [split?, hps]
        simp [dropEnd, h.ne_nil]
      · rw [hnames]
        rfl
      · rw [← head?_join base h, hjoin]
        exact iff_of_false (by simp) fun hhead => h.slash (List.mem_of_mem_head? hhead)
  | cons first rest =>
      have hend : dropEnd isIdle (rest ++ [name]) = rest ++ [name] := by
        simp [dropEnd, isIdle_eq_false h]
      obtain ⟨run, hrun, hidle⟩ := eq_dropEnd_append isIdle rest
      have hfirst : '/' ∉ first := hslash first List.mem_cons_self
      refine ⟨ofPieces first (dropEnd isIdle rest), run.filter (· ≠ []), ?_, ?_, ?_, ?_⟩
      · rw [split?, hps, List.cons_append]
        simp only [hend, List.reverse_append, List.reverse_cons, List.reverse_nil, List.nil_append,
          List.singleton_append, List.reverse_reverse]
      · have hkept : ∀ p ∈ first :: dropEnd isIdle rest, '/' ∉ p := by
          intro p hp
          apply hslash
          rw [hrun, ← List.cons_append]
          exact List.mem_append_left _ hp
        rw [hnames, names_ofPieces hkept, ← List.filter_append, List.cons_append, ← hrun]
      · intro d hd
        obtain ⟨hmem, hne⟩ := List.mem_filter.mp hd
        have hempty : d ≠ [] := by simpa using hne
        simpa [isIdle, hempty] using hidle d hmem
      · have hpieces : join base name = ofPieces first (rest ++ [name]) := by
          rw [hjoin, ofPieces, if_neg (by simp)]
          rfl
        rw [head?_ofPieces hfirst, ← head?_join base h, hpieces, head?_ofPieces hfirst]

/-- The parent of a name below a directory is the directory, up to dots that lead
nowhere. -/
theorem parent?_join (h : IsName name) :
    ∃ parent dots, parent? (join base name) = some parent ∧
      names base = names parent ++ dots ∧ (∀ d ∈ dots, d = ['.']) ∧
      (parent.head? = some '/' ↔ base.head? = some '/') := by
  obtain ⟨parent, dots, hsplit, hrest⟩ := split?_join base h
  exact ⟨parent, dots, by rw [parent?, hsplit]; rfl, hrest⟩

/-- The last name of a path that ends with it. -/
theorem fileName?_join (h : IsName name) : fileName? (join base name) = some name := by
  obtain ⟨parent, dots, hsplit, -⟩ := split?_join base h
  have hplain : ¬ (name = "." || name = "..") = true := by
    simp only [Bool.or_eq_true, decide_eq_true_eq]
    exact fun hor => hor.elim h.dot h.up
  rw [fileName?, hsplit]
  exact if_neg hplain

/-- Another name in place of the last one, in the same parent. -/
theorem withFileName_join {parent : Text} (h : IsName name)
    (hparent : parent? (join base name) = some parent) (other : Text) :
    withFileName (join base name) other = join parent other := by
  rw [withFileName, fileName?_join base h, hparent]

/-- A character other than a slash is in a path if it is in one of its names. -/
theorem mem_iff_mem_names {path : Text} {c : Char} (hc : c ≠ '/') :
    c ∈ path ↔ ∃ n ∈ names path, c ∈ n := by
  constructor
  · intro hmem
    rw [← Text.joinWith_pieces '/' path] at hmem
    obtain hsep | ⟨p, hp, hmem⟩ := Text.mem_joinWith hmem
    · exact absurd (List.mem_singleton.mp hsep) hc
    · exact ⟨p, List.mem_filter.mpr ⟨hp, by simpa using List.ne_nil_of_mem hmem⟩, hmem⟩
  · rintro ⟨n, hn, hmem⟩
    exact Text.mem_of_mem_pieces (List.mem_filter.mp hn).1 hmem

end Path

namespace Disk

variable {disk disk' : Disk} {cwd : Option Location} {base name : Text} {links : Nat}
  {there : Location}

/-! ## entering a directory -/

/-- Where the names of a path are looked for. -/
def startOf (cwd : Option Location) (path : Text) : Option Location :=
  if path.head? = some '/' then some [] else cwd

/-- The names of a path lead to a directory, with some links left to go through. -/
def Enters (disk : Disk) (cwd : Option Location) (path : Text) (links : Nat)
    (there : Location) : Prop :=
  '\x00' ∉ path ∧ ∃ start, startOf cwd path = some start ∧
    disk.Leads maxLinks start (Path.names path) links there

/-- A directory is entered where it was, on a disk that keeps what was there. -/
theorem Enters.mono (hkeeps : Keeps disk disk') (h : disk.Enters cwd base links there) :
    disk'.Enters cwd base links there := by
  obtain ⟨hnul, start, hstart, hleads⟩ := h
  exact ⟨hnul, start, hstart, hleads.mono hkeeps⟩

/-- A path enters one directory. -/
theorem Enters.unique {links' : Nat} {there' : Location} (h : disk.Enters cwd base links there)
    (h' : disk.Enters cwd base links' there') : there = there' := by
  obtain ⟨-, start, hstart, hleads⟩ := h
  obtain ⟨-, start', hstart', hleads'⟩ := h'
  obtain rfl := Option.some.inj (hstart.symm.trans hstart')
  have hwalk := hleads.walk_append []
  rw [hleads'.walk_append, walk_nil, walk_nil] at hwalk
  cases hwalk
  rfl

/-- A search walks from its start, over the names of the path, with a full allowance
of links. -/
theorem find_eq {path : Text} (hnul : '\x00' ∉ path) (hne : path ≠ []) (followLast : Bool) :
    disk.find cwd followLast path =
      match startOf cwd path with
      | none => .error .notFound
      | some start => disk.walk followLast maxLinks start (namesOfPath path) := by
  rw [find, if_neg (by simpa using hnul), if_neg hne]
  rfl

theorem startOf_join (h : IsName name) : startOf cwd (Path.join base name) = startOf cwd base := by
  simp only [startOf, Path.head?_join base h]

/-- The names that are walked below a directory: its own, and the last one. -/
theorem namesOfPath_join (h : IsName name) :
    namesOfPath (Path.join base name) = Path.names base ++ [name] := by
  rw [namesOfPath, if_neg (Path.getLast?_join base h)]
  exact Path.names_join base h

/-- Where the name that a path ends with stands, or would stand. -/
def placeOf? (disk : Disk) (cwd : Option Location) (path : Text) : Option Location :=
  match disk.findEnd cwd path with
  | .ok (.name directory name _) => some (directory ++ [name])
  | _ => none

/-- Walking to a name that is joined to a path. -/
theorem find_join_eq (h : IsName name) :
    disk.find cwd true (Path.join base name) =
      if '\x00' ∈ base then .error .invalidPath
      else
        match startOf cwd base with
        | none => .error .notFound
        | some start => disk.walk true maxLinks start (Path.names base ++ [name]) := by
  by_cases hnul : '\x00' ∈ base
  · rw [if_pos hnul, find, if_pos (by simpa using (Path.nul_mem_join base h).mpr hnul)]
  · rw [if_neg hnul, find_eq (mt (Path.nul_mem_join base h).mp hnul) (Path.join_ne_nil base h),
      startOf_join h, namesOfPath_join h]

/-- The path that leads to the directory of a path's last name. -/
def before (path : Text) (names : List Text) : Text :=
  let joined := Text.joinWith ['/'] (names ++ [['.']])
  if path.head? = some '/' then '/' :: joined else joined

section
variable {path : Text} {names : List Text}
  (hnames : ∀ name ∈ names, name ≠ [] ∧ '/' ∉ name)
include hnames

/-- Names with a dot behind them, joined and cut again. -/
theorem pieces_joined :
    Text.pieces '/' (Text.joinWith ['/'] (names ++ [['.']])) = names ++ [['.']] := by
  apply Text.pieces_joinWith (by simp)
  intro name hname
  obtain hname | hname := List.mem_append.mp hname
  · exact (hnames name hname).2
  · rw [List.mem_singleton.mp hname]
    decide

/-- The names before the last one of a path, with the dot that asks for a directory.
-/
theorem namesIn_before : Path.names (before path names) = names ++ [['.']] := by
  have hjoined : Path.names (Text.joinWith ['/'] (names ++ [['.']])) = names ++ [['.']] := by
    rw [Path.names, pieces_joined hnames]
    apply List.filter_eq_self.mpr
    intro name hname
    obtain hname | hname := List.mem_append.mp hname
    · exact decide_eq_true (hnames name hname).1
    · rw [List.mem_singleton.mp hname]
      decide
  rw [before]
  split
  · exact (Path.names_append [] _).trans hjoined
  · exact hjoined

theorem head?_before : (before path names).head? = some '/' ↔ path.head? = some '/' := by
  rw [before]
  split
  · next habsolute => exact iff_of_true rfl habsolute
  · next hrelative =>
      refine iff_of_false (fun hhead => ?_) hrelative
      cases names with
      | nil => exact absurd hhead (by decide)
      | cons name names =>
          obtain ⟨hne, hslash⟩ := hnames name List.mem_cons_self
          obtain ⟨c, rest, rfl⟩ := List.exists_cons_of_ne_nil hne
          obtain ⟨more, hmore⟩ := Text.joinWith_cons ['/'] (c :: rest) (names ++ [['.']])
          rw [List.cons_append, hmore] at hhead
          exact hslash (by simp [Option.some.inj hhead])

omit hnames in
theorem getLast?_before : (before path names).getLast? = some '.' := by
  obtain ⟨more, hmore⟩ := Text.joinWith_concat ['/'] ['.'] names
  rw [before, hmore]
  split
  · rw [← List.cons_append, List.getLast?_concat]
  · rw [List.getLast?_concat]

omit hnames in
theorem nul_not_mem_before (hnul : ∀ name ∈ names, '\x00' ∉ name) :
    '\x00' ∉ before path names := by
  have hjoined : '\x00' ∉ Text.joinWith ['/'] (names ++ [['.']]) := by
    intro hmem
    obtain hsep | ⟨name, hname, hmem⟩ := Text.mem_joinWith hmem
    · exact absurd hsep (by decide)
    · obtain hname | hname := List.mem_append.mp hname
      · exact hnul name hname hmem
      · rw [List.mem_singleton.mp hname] at hmem
        exact absurd hmem (by decide)
  rw [before]
  split
  · exact fun hmem => (List.mem_cons.mp hmem).elim (by decide) hjoined
  · exact hjoined

/-- Walking to the directory of a path's last name. -/
theorem find_before (hnul : ∀ name ∈ names, '\x00' ∉ name) :
    disk.find cwd true (before path names) =
      match startOf cwd path with
      | none => .error .notFound
      | some start => disk.walk true maxLinks start (names ++ [['.']]) := by
  have hlast : (before path names).getLast? = some '.' := getLast?_before
  have hne : before path names ≠ [] := by
    intro hnil
    rw [hnil] at hlast
    contradiction
  have hpath : namesOfPath (before path names) = names ++ [['.']] := by
    rw [namesOfPath, if_neg (by rw [hlast]; decide)]
    exact namesIn_before hnames
  have hstart : startOf cwd (before path names) = startOf cwd path := by
    simp only [startOf, head?_before hnames]
  rw [find_eq (nul_not_mem_before hnul) hne, hstart, hpath]

end

/-- The directory of a name that is joined to a path is walked to in the same way. -/
theorem findEnd_join_eq (h : IsName name) :
    disk.findEnd cwd (Path.join base name) =
      if '\x00' ∈ base then .error .invalidPath
      else
        match startOf cwd base with
        | none => .error .notFound
        | some start =>
            match disk.walk true maxLinks start (Path.names base ++ [['.']]) with
            | .ok (.found directory _) => .ok (.name directory name false)
            | .ok (.free ..) => .error .notFound
            | .error fault => .error fault := by
  have hnamed : (Text.pieces '/' (Path.join base name)).filter (· ≠ []) =
      Path.names base ++ [name] := Path.names_join base h
  by_cases hnul : '\x00' ∈ base
  · rw [if_pos hnul, findEnd, if_pos (by simpa using (Path.nul_mem_join base h).mpr hnul)]
  · have hnames : ∀ n ∈ Path.names base, n ≠ [] ∧ '/' ∉ n := fun n hn =>
      ⟨Path.ne_nil_of_mem_names hn, Path.slash_not_mem_of_mem_names hn⟩
    have hnuls : ∀ n ∈ Path.names base, '\x00' ∉ n := fun n hn hmem =>
      hnul (Text.mem_of_mem_pieces (List.mem_filter.mp hn).1 hmem)
    have hfind : disk.find cwd true (before (Path.join base name) (Path.names base)) = _ :=
      find_before hnames hnuls
    rw [startOf_join h] at hfind
    rw [if_neg hnul, findEnd, if_neg (by simpa using mt (Path.nul_mem_join base h).mp hnul), hnamed,
      List.getLast?_concat, List.dropLast_concat]
    show (match disk.find cwd true (before (Path.join base name) (Path.names base)) with
      | .ok (.found directory _) => _
      | .ok (.free ..) => _
      | .error fault => _) = _
    rw [hfind]
    cases startOf cwd base with
    | none => rfl
    | some start =>
        dsimp only
        cases disk.walk true maxLinks start (Path.names base ++ [['.']]) with
        | error fault => rfl
        | ok destination =>
            cases destination with
            | free directory name' => rfl
            | found directory entry =>
                have hplain : ¬ (name = "." ∨ name = "..") := fun hor =>
                  hor.elim h.dot h.up
                dsimp only
                rw [if_neg hplain, decide_eq_false (Path.getLast?_join base h)]

/-- Finding a name below a directory takes one step from the directory. -/
theorem find_join (h : IsName name) (henters : disk.Enters cwd base links there) :
    disk.find cwd true (Path.join base name) = disk.walk true links there [name] := by
  obtain ⟨hnul, start, hstart, hleads⟩ := henters
  rw [find_join_eq h, if_neg hnul, hstart]
  exact hleads.walk_append [name]

/-- The end of such a path is the name in the directory. -/
theorem findEnd_join (h : IsName name) (henters : disk.Enters cwd base links there) :
    disk.findEnd cwd (Path.join base name) = .ok (.name there name false) := by
  obtain ⟨hnul, start, hstart, hleads⟩ := henters
  rw [findEnd_join_eq h, if_neg hnul, hstart]
  simp only [hleads.walk_append, walk_dot, walk_nil]

/-- A file written to such a path has its place in the directory. -/
theorem placeOf?_join (h : IsName name) (henters : disk.Enters cwd base links there) :
    disk.placeOf? cwd (Path.join base name) = some (there ++ [name]) := by
  rw [placeOf?, findEnd_join h henters]

/-- The parent of a joined name is entered where the path is. -/
theorem enters_parent_iff {parent : Text} (h : IsName name)
    (hparent : Path.parent? (Path.join base name) = some parent) :
    disk.Enters cwd parent links there ↔ disk.Enters cwd base links there := by
  obtain ⟨parent', dots, hparent', hnames, hdots, hhead⟩ := Path.parent?_join base h
  obtain rfl : parent = parent' := Option.some.inj (hparent.symm.trans hparent')
  have hnul : '\x00' ∈ parent ↔ '\x00' ∈ base := by
    rw [Path.mem_iff_mem_names (by decide), Path.mem_iff_mem_names (by decide), hnames]
    constructor
    · rintro ⟨n, hn, hmem⟩
      exact ⟨n, List.mem_append_left dots hn, hmem⟩
    · rintro ⟨n, hn, hmem⟩
      obtain hn | hn := List.mem_append.mp hn
      · exact ⟨n, hn, hmem⟩
      · rw [hdots n hn] at hmem
        exact absurd hmem (by decide)
  have hstart : startOf cwd parent = startOf cwd base := by simp only [startOf, hhead]
  have hleads : ∀ start, disk.Leads maxLinks start (Path.names base) links there ↔
      disk.Leads maxLinks start (Path.names parent) links there := by
    intro start
    rw [hnames, leads_append_iff]
    constructor
    · rintro ⟨middle, between, hfirst, hsecond⟩
      obtain ⟨rfl, rfl⟩ := (leads_dots_iff hdots).mp hsecond
      exact hfirst
    · exact fun hfirst => ⟨links, there, hfirst, (leads_dots_iff hdots).mpr ⟨rfl, rfl⟩⟩
  simp only [Enters, hnul, hstart, hleads]

/-- What is found at a name was found in a directory. -/
theorem exists_enters_of_find {destination : Destination} (h : IsName name)
    (hfind : disk.find cwd true (Path.join base name) = .ok destination) :
    ∃ links there, disk.Enters cwd base links there := by
  rw [find_join_eq h] at hfind
  by_cases hnul : '\x00' ∈ base
  · rw [if_pos hnul] at hfind
    contradiction
  · rw [if_neg hnul] at hfind
    cases hstart : startOf cwd base with
    | none => rw [hstart] at hfind; contradiction
    | some start =>
        rw [hstart] at hfind
        obtain ⟨links, there, hleads⟩ := exists_leads_of_walk (List.cons_ne_nil _ _) hfind
        exact ⟨links, there, hnul, start, hstart, hleads⟩

/-- Where the end of such a path is found, the directory was entered. -/
theorem exists_enters_of_findEnd {place : PathEnd} (h : IsName name)
    (hend : disk.findEnd cwd (Path.join base name) = .ok place) :
    ∃ links there, disk.Enters cwd base links there ∧ place = .name there name false := by
  rw [findEnd_join_eq h] at hend
  by_cases hnul : '\x00' ∈ base
  · rw [if_pos hnul] at hend
    contradiction
  · rw [if_neg hnul] at hend
    cases hstart : startOf cwd base with
    | none => rw [hstart] at hend; contradiction
    | some start =>
        simp only [hstart] at hend
        cases hwalk : disk.walk true maxLinks start (Path.names base ++ [['.']]) with
        | error fault => rw [hwalk] at hend; contradiction
        | ok destination =>
            obtain ⟨links, there, hleads⟩ := exists_leads_of_walk (List.cons_ne_nil _ _) hwalk
            refine ⟨links, there, ⟨hnul, start, hstart, hleads⟩, ?_⟩
            rw [hleads.walk_append, walk_dot, walk_nil] at hend
            exact (Except.ok.inj hend).symm

end Disk

end TreeSync
