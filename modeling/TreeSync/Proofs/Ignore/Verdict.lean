import TreeSync.Ignore.Compile
import TreeSync.Proofs.Ignore.Naming
import TreeSync.Proofs.Machine.Action

/-!
# TreeSync.Proofs.Ignore.Verdict

What the ignore file at the root of the tree decides about a file, when its lines
are plain names.

1. git goes by the last line that names the file (`gitVerdict`), a transfer by the
   first rule that has its name (`FilterSet.verdict`); a file that none names is
   kept by both.
2. The rules of the set are the lines, in their order (`compile_root`).

So the set decides as git does exactly where the first and the last line that name
a file say the same (`compile_root_verdict_iff`): a later line that takes an
earlier one back is not heard.
-/

namespace TreeSync

open Pattern

/-! ## plain lines -/

/-- A line that is a plain name, of either sense. -/
structure PlainLine where
  sense : Sense
  name : PlainName

namespace PlainLine

/-- A line as it is written. -/
def text (line : PlainLine) : Text := line.sense.lineMark ++ line.name.text

/-- The rule that has the sense and the name of a line. -/
def rule (line : PlainLine) : FilterRule := ⟨line.sense, line.name.text⟩

/-- A plain name as a line of one name. -/
def glob (line : PlainLine) : GlobLine where
  anchored := false
  first :=
    { deep := false
      name := line.name.text
      ne_nil := line.name.ne_nil
      globbing := List.all_eq_true.mpr fun c hc => by
        rw [isGlobChar, PlainName.isOrdinary_of_mem hc]
        rfl
      single := fun h =>
        absurd (PlainName.isOrdinary_of_mem (h.subset List.mem_cons_self)) (by decide) }
  rest := []
  opening := Or.inr (Or.inr rfl)

theorem text_glob (line : PlainLine) : line.glob.text = line.name.text := by
  show [] ++ ([] ++ line.name.text ++ []) = line.name.text
  rw [List.nil_append, List.nil_append, List.append_nil]

theorem parse_text (line : PlainLine) :
    IgnoreRule.parse line.text none = some ⟨line.sense, line.name.text, none⟩ := by
  have h := GlobLine.parse_text line.sense line.glob []
  rw [text_glob] at h
  exact h

/-- A plain line is one rule, with the name as its pattern. -/
theorem rulesOfLine_text (line : PlainLine) : rulesOfLine line.text none = [line.rule] := by
  have h := GlobLine.rulesOfLine_text line.sense line.glob [] (Nat.zero_le 10)
  rw [text_glob] at h
  rw [text]
  refine h.trans ?_
  show [(⟨line.sense, [] ++ ([] ++ line.name.text ++ [])⟩ : FilterRule)] = [line.rule]
  rw [List.nil_append, List.nil_append, List.append_nil]
  rfl

theorem isApproximate_text (line : PlainLine) :
    IgnoreRule.isApproximate ⟨line.sense, line.name.text, none⟩ = false := by
  have h := GlobLine.isApproximate_text line.sense line.glob [] (Nat.zero_le 10)
  rw [text_glob] at h
  exact h

end PlainLine

/-! ## the rules of the file -/

theorem rulesOfText_of_plain {content : Text} {lines : List PlainLine}
    (hlines : Text.lines content = lines.map PlainLine.text) :
    IgnoreFile.rulesOfText none content = lines.map PlainLine.rule := by
  rw [IgnoreFile.rulesOfText, hlines, List.flatMap_map]
  simp only [PlainLine.rulesOfLine_text]
  exact List.map_eq_flatMap.symm

theorem approximations_of_plain {content : Text} {lines : List PlainLine}
    (hlines : Text.lines content = lines.map PlainLine.text) :
    IgnoreFile.approximations none content = 0 := by
  rw [IgnoreFile.approximations, hlines, List.countP_eq_zero]
  intro rule hrule
  obtain ⟨text, htext, hparse⟩ := List.mem_filterMap.mp hrule
  obtain ⟨line, -, rfl⟩ := List.mem_map.mp htext
  rw [PlainLine.parse_text] at hparse
  rw [← Option.some.inj hparse, PlainLine.isApproximate_text]
  exact Bool.false_ne_true

/-- **The set of plain lines** is the lines, in their order, behind the metadata
rule. -/
theorem compile_root {index : IgnoreIndex} {machine : Machine} {content : Text}
    {lines : List PlainLine}
    (hread : machine.disk.readText machine.environment.cwd
      (Path.join index.root SessionFile.ignoreFile.name) = .ok content)
    (hlines : Text.lines content = lines.map PlainLine.text) :
    (compile index [.root]).on machine = (.ok ⟨lines.map PlainLine.rule⟩, machine) := by
  have hrules := rulesOfText_of_plain hlines
  have hexact := approximations_of_plain hlines
  simp [compile, RuleSource.rules, RuleSource.files, IgnoreFile.rules, IgnoreFile.read,
    Files.readOptionalText, hread, hexact, hrules, FilterSet.append,
    FilterSet.empty]

/-! ## the verdicts -/

/-- What a transfer decides about a name: the first rule with that pattern, and
the file is kept if there is none. -/
def FilterSet.verdict (set : FilterSet) (name : Text) : Sense :=
  ((set.rules.find? (·.pattern = name)).map (·.sense)).getD .includes

/-- What some lines say about a name, line by line. -/
def said (lines : List PlainLine) (name : Text) : List Sense :=
  (lines.filter (·.name.text = name)).map (·.sense)

/-- What git decides about a name: the last line that names it, and the file is
kept if there is none. -/
def gitVerdict (lines : List PlainLine) (name : Text) : Sense :=
  (said lines name).getLast?.getD .includes

/-- The set goes by the first line that names a file. -/
theorem verdict_eq_head? (lines : List PlainLine) {name : Text}
    (hname : name ≠ ".git".toList) :
    FilterSet.verdict ⟨lines.map PlainLine.rule⟩ name =
      (said lines name).head?.getD .includes := by
  rw [FilterSet.verdict, FilterSet.rules, List.find?_cons_of_neg, said]
  · rw [List.find?_map, Option.map_map, List.head?_map, List.head?_filter]
    rfl
  · rw [decide_eq_true_eq]
    exact Ne.symm hname

/-- **Where the set decides as git does**: exactly for the names about which the
first and the last line say the same. -/
theorem compile_root_verdict_iff {index : IgnoreIndex} {machine : Machine} {content : Text}
    {lines : List PlainLine}
    (hread : machine.disk.readText machine.environment.cwd
      (Path.join index.root SessionFile.ignoreFile.name) = .ok content)
    (hlines : Text.lines content = lines.map PlainLine.text) :
    ∃ set, (compile index [.root]).on machine = (.ok set, machine) ∧
      ∀ name, name ≠ ".git".toList →
        (set.verdict name = gitVerdict lines name ↔
          (said lines name).head? = (said lines name).getLast?) := by
  refine ⟨_, compile_root hread hlines, fun name hname => ?_⟩
  rw [verdict_eq_head? lines hname, gitVerdict]
  cases hsaid : said lines name with
  | nil => exact ⟨fun _ => rfl, fun _ => rfl⟩
  | cons first rest =>
      obtain ⟨last, hlast⟩ : ∃ last, (first :: rest).getLast? = some last :=
        ⟨_, List.getLast?_eq_some_getLast (List.cons_ne_nil first rest)⟩
      rw [hlast, List.head?_cons, Option.getD_some, Option.getD_some, Option.some.injEq]

/-! ## a line that is taken back -/

/-- A machine with one ignore file, at the root. -/
def ignoringMachine (content : Text) : Machine where
  disk := { entries := [([SessionFile.ignoreFile.name], .file ⟨0, content.bytes, 0o644⟩)] }

/-- The index of the tree at the root of such a machine. -/
def rootIndex : IgnoreIndex := ⟨"/", pure none, pure []⟩

theorem readText_ignoringMachine (content : Text) :
    (ignoringMachine content).disk.readText (ignoringMachine content).environment.cwd
      (Path.join rootIndex.root SessionFile.ignoreFile.name) = .ok content := by
  have hbytes : (ignoringMachine content).disk.readBytes
      (ignoringMachine content).environment.cwd
      (Path.join rootIndex.root SessionFile.ignoreFile.name) = .ok content.bytes := rfl
  rw [Disk.readText, hbytes]
  simp

/-- A line that excludes a file, and one that takes that back. -/
def takenBack : List PlainLine :=
  [⟨.excludes, "keep.log", by decide, by decide⟩, ⟨.includes, "keep.log", by decide, by decide⟩]

theorem compile_root_verdict_iff_takenBack :
    (ignoringMachine "keep.log\n!keep.log\n").disk.readText
        (ignoringMachine "keep.log\n!keep.log\n").environment.cwd
        (Path.join rootIndex.root SessionFile.ignoreFile.name) =
          .ok "keep.log\n!keep.log\n".toList ∧
      Text.lines "keep.log\n!keep.log\n" = takenBack.map PlainLine.text ∧
      ∃ set, (compile rootIndex [.root]).on (ignoringMachine "keep.log\n!keep.log\n") =
          (.ok set, ignoringMachine "keep.log\n!keep.log\n") ∧
        ∀ name, name ≠ ".git".toList →
          (set.verdict name = gitVerdict takenBack name ↔
            (said takenBack name).head? = (said takenBack name).getLast?) :=
  ⟨readText_ignoringMachine _, by decide,
    compile_root_verdict_iff (readText_ignoringMachine _) (by decide)⟩

/-- git keeps a file that is taken back, the set excludes it. -/
theorem takenBack_not_heard :
    Text.lines "keep.log\n!keep.log\n" = takenBack.map PlainLine.text ∧
      ∃ set, (compile rootIndex [.root]).on (ignoringMachine "keep.log\n!keep.log\n") =
          (.ok set, ignoringMachine "keep.log\n!keep.log\n") ∧
        gitVerdict takenBack "keep.log" = .includes ∧ set.verdict "keep.log" = .excludes :=
  ⟨by decide, ⟨takenBack.map PlainLine.rule⟩,
    compile_root (readText_ignoringMachine _) (by decide), by decide, by decide⟩

end TreeSync
