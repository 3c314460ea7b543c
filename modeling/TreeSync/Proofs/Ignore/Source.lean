import TreeSync.Ignore.Source
import TreeSync.Proofs.Text.Trimming

/-!
# TreeSync.Proofs.Ignore.Source

Lists of sources, read and written.

1. A list is read name by name (`namesIn`), and no name in it is blank, so the one error
   that a name can have does not come up (`mapM_ofText?_namesIn`).
2. A comma cuts a list into two lists (`listOfText_append`).
3. The sources of a list can be written in a list (`Listable`): a file among them is not
   called like another source, and its name holds no comma and has no blanks around.  So
   names joined at commas are read back (`listOfText_joinWith`).
-/

namespace TreeSync

namespace RuleSource

/-! ## names -/

/-- A name without blanks around it is the name of a source, unless it is empty. -/
theorem ofText?_eq_some_iff {text : Text} {source : RuleSource} :
    ofText? text = some source ↔ Text.trim text ≠ [] ∧ ofName (Text.trim text) = source := by
  simp [ofText?]

/-- The names in a list: what stands between its commas, without the blanks around it, if
it is more than blanks. -/
def namesIn (list : Text) : List Text :=
  ((Text.pieces ',' list).map Text.trim).filter (· ≠ [])

theorem mem_namesIn_iff {list name : Text} :
    name ∈ namesIn list ↔ name ≠ [] ∧ ∃ piece ∈ Text.pieces ',' list, Text.trim piece = name := by
  simp [namesIn, and_comm]

theorem listOfText_eq_map (list : Text) : listOfText list = (namesIn list).map ofName := by
  rw [listOfText, namesIn]
  induction Text.pieces ',' list with
  | nil => rfl
  | cons piece pieces ih =>
      rw [List.filterMap_cons, List.map_cons, List.filter_cons, ih, ofText?]
      by_cases hblank : Text.trim piece = []
      · simp [hblank]
      · simp [hblank]

/-- Names that can be read one by one are read together. -/
theorem mapM_ofText?_eq_some {names : List Text}
    (h : ∀ name ∈ names, ofText? name = some (ofName name)) :
    names.mapM ofText? = some (names.map ofName) := by
  induction names with
  | nil => rfl
  | cons name names ih =>
      obtain ⟨hname, hnames⟩ := List.forall_mem_cons.mp h
      simp [hname, ih hnames]

/-- **Every name of a list is read**, and what they name are the sources of the list. -/
theorem mapM_ofText?_namesIn (list : Text) :
    (namesIn list).mapM ofText? = some (listOfText list) := by
  rw [listOfText_eq_map]
  apply mapM_ofText?_eq_some
  intro name hname
  obtain ⟨hne, piece, -, rfl⟩ := mem_namesIn_iff.mp hname
  exact ofText?_eq_some_iff.mpr ⟨by rwa [Text.trim_trim], by rw [Text.trim_trim]⟩

/-! ## two lists -/

/-- **A comma** ends the one list and begins the other. -/
theorem listOfText_append (a b : Text) :
    listOfText (a ++ ',' :: b) = listOfText a ++ listOfText b := by
  rw [listOfText, Text.pieces_append, List.filterMap_append, listOfText, listOfText]

/-! ## writing a list -/

/-- The words that name sources other than files. -/
def keywords : List Text := ["global", "root", "subdirs", "subdirectories"]

theorem ofName_of_not_mem {name : Text} (h : name ∉ keywords) : ofName name = .file name := by
  simp only [keywords, List.mem_cons, List.not_mem_nil, or_false, not_or] at h
  obtain ⟨hglobal, hroot, hsubdirs, hsubdirectories⟩ := h
  rw [ofName, if_neg hglobal, if_neg hroot, if_neg]
  simp only [Bool.or_eq_true, decide_eq_true_eq, not_or]
  exact ⟨hsubdirs, hsubdirectories⟩

theorem ofName_of_mem {name : Text} (h : name ∈ keywords) :
    ofName name = .global ∨ ofName name = .root ∨ ofName name = .subdirectories := by
  simp only [keywords, List.mem_cons, List.not_mem_nil, or_false] at h
  obtain rfl | rfl | rfl | rfl := h <;> decide

/-- A source that can stand in a list: if it is a file, its name is not the word for
another source, nor blank, and holds neither a comma nor blanks at its ends. -/
def Listable : RuleSource → Prop
  | .file path => path ∉ keywords ∧ path ≠ [] ∧ Text.trim path = path ∧ ',' ∉ path
  | _ => True

/-- What a list names can stand in a list. -/
theorem listable_of_mem {list : Text} {source : RuleSource} (h : source ∈ listOfText list) :
    Listable source := by
  rw [listOfText_eq_map, List.mem_map] at h
  obtain ⟨name, hname, rfl⟩ := h
  obtain ⟨hne, piece, hpiece, rfl⟩ := mem_namesIn_iff.mp hname
  by_cases hkeyword : Text.trim piece ∈ keywords
  · obtain heq | heq | heq := ofName_of_mem hkeyword <;> rw [heq] <;> trivial
  · have hcomma : ',' ∉ Text.trim piece := fun hmem =>
      Text.not_mem_of_mem_pieces hpiece (Text.mem_of_mem_trim hmem)
    rw [ofName_of_not_mem hkeyword]
    exact ⟨hkeyword, hne, Text.trim_trim piece, hcomma⟩

namespace Listable

variable {source : RuleSource}

theorem comma_not_mem_name (h : Listable source) : ',' ∉ source.name := by
  cases source with
  | file path => exact h.2.2.2
  | global | root | subdirectories => decide

/-- The name of a source is read as that source. -/
theorem ofText?_name (h : Listable source) : ofText? source.name = some source := by
  cases source with
  | file path =>
      obtain ⟨hkeyword, hne, htrim, -⟩ := h
      have hname : (file path).name = path := rfl
      refine ofText?_eq_some_iff.mpr ⟨by rwa [hname, htrim], ?_⟩
      rw [hname, htrim, ofName_of_not_mem hkeyword]
  | global | root | subdirectories => decide

end Listable

/-- **Names joined at commas** are read as the sources they name. -/
theorem listOfText_joinWith {sources : List RuleSource} (h : ∀ source ∈ sources, Listable source) :
    listOfText (Text.joinWith [','] (sources.map name)) = sources := by
  induction sources with
  | nil => rfl
  | cons source sources ih =>
      obtain ⟨hsource, hsources⟩ := List.forall_mem_cons.mp h
      have hone : listOfText source.name = [source] := by
        rw [listOfText, Text.pieces_of_not_mem hsource.comma_not_mem_name, List.filterMap_cons,
          hsource.ofText?_name, List.filterMap_nil]
      cases sources with
      | nil => exact hone
      | cons next rest =>
          have hjoin : Text.joinWith [','] ((source :: next :: rest).map name) =
              source.name ++ ',' :: Text.joinWith [','] ((next :: rest).map name) := by
            simp [Text.joinWith]
          rw [hjoin, listOfText_append, hone, ih hsources, List.singleton_append]

/-- The lists of sources that can be written are those whose sources can stand in a list. -/
theorem exists_listOfText_iff {sources : List RuleSource} :
    (∃ list, listOfText list = sources) ↔ ∀ source ∈ sources, Listable source := by
  constructor
  · rintro ⟨list, rfl⟩ source hsource
    exact listable_of_mem hsource
  · exact fun h => ⟨_, listOfText_joinWith h⟩

/-- **Lists of sources** are read whole, in parts and again.  Each name that is left of a
list when it is cut at its commas, freed of blanks and of blank names is read without
error; two lists with a comma between them are the one and then the other; and the names
of what was read, joined at commas, are read as the same. -/
theorem listOfText_reads (list a b : Text) :
    (((Text.pieces ',' list).map Text.trim).filter (· ≠ [])).mapM ofText? =
        some (listOfText list) ∧
      listOfText (a ++ ',' :: b) = listOfText a ++ listOfText b ∧
      listOfText (Text.joinWith [','] ((listOfText list).map name)) = listOfText list :=
  ⟨mapM_ofText?_namesIn list, listOfText_append a b,
    listOfText_joinWith fun _ => listable_of_mem⟩

example : listOfText " global,,\u3000extra/ignore , subdirectories".toList =
    [.global, .file "extra/ignore".toList, .subdirectories] := by
  decide

end RuleSource

end TreeSync
