import TreeSync.Text

/-!
# TreeSync.Filter.Rule

Filter rules and the ordered set of them that a transfer is run with.

The first rule that matches a path decides about it, so the order of a set is
part of its meaning.  Every set begins with the rule that keeps version-control
metadata out of transfers; `FilterSet` holds only what comes after it, so no
operation can lose it.
-/

namespace TreeSync

/-- What a rule does with the paths it matches. -/
inductive Sense
  | includes
  | excludes
  deriving DecidableEq, Repr

namespace Sense

/-- The character that marks the sense in a written rule. -/
def marker : Sense → Char
  | .includes => '+'
  | .excludes => '-'

/-- The word for the sense. -/
def word : Sense → Text
  | .includes => "include"
  | .excludes => "exclude"

theorem marker_injective {a b : Sense} (h : a.marker = b.marker) : a = b := by
  cases a <;> cases b <;> simp_all [marker]

end Sense

/-- One filter rule: a sense and the pattern it applies to. -/
structure FilterRule where
  sense : Sense
  pattern : Text
  deriving DecidableEq, Repr

namespace FilterRule

/-- A rule as it is written: marker, blank, pattern. -/
def line (rule : FilterRule) : Text := rule.sense.marker :: ' ' :: rule.pattern

/-- The rule that keeps version-control metadata out, at any depth. -/
def metadata : FilterRule := ⟨.excludes, ".git"⟩

/-- A written rule determines the rule. -/
theorem line_injective {a b : FilterRule} (h : a.line = b.line) : a = b := by
  cases a; cases b
  simp only [line, List.cons.injEq, true_and] at h
  simp [Sense.marker_injective h.1, h.2]

end FilterRule

/-- An ordered list of rules that begins with the metadata rule. -/
structure FilterSet where
  /-- The rules after the first. -/
  added : List FilterRule := []
  deriving DecidableEq, Repr

namespace FilterSet

/-- The set with the metadata rule alone. -/
def empty : FilterSet := ⟨[]⟩

/-- All rules, in order. -/
def rules (set : FilterSet) : List FilterRule := .metadata :: set.added

/-- Put rules at the end, in their order. -/
def append (set : FilterSet) (rules : List FilterRule) : FilterSet := ⟨set.added ++ rules⟩

/-- How many rules there are. -/
def size (set : FilterSet) : Nat := set.rules.length

/-- The rules as they are written, one element each. -/
def lines (set : FilterSet) : List Text := set.rules.map FilterRule.line

/-- The rules as they are written, each on a line of its own. -/
def text (set : FilterSet) : Text := set.lines.flatMap (· ++ ['\n'])

@[simp] theorem rules_empty : empty.rules = [.metadata] := rfl

@[simp] theorem rules_append (set : FilterSet) (rules : List FilterRule) :
    (set.append rules).rules = set.rules ++ rules := rfl

theorem lines_append (set : FilterSet) (rules : List FilterRule) :
    (set.append rules).lines = set.lines ++ rules.map FilterRule.line := by
  simp [lines]

@[simp] theorem append_nil (set : FilterSet) : set.append [] = set := by
  simp [append]

theorem append_append (set : FilterSet) (xs ys : List FilterRule) :
    (set.append xs).append ys = set.append (xs ++ ys) := by
  simp [append]

end FilterSet

end TreeSync
