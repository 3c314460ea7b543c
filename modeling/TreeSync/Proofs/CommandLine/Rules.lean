import TreeSync.CommandLine.Declaration

/-!
# TreeSync.Proofs.CommandLine.Rules

What is relied on of a parser of declared command lines, and what the program makes of it.

`Reads` has one rule for each way in which a word is read, as such parsers document it:

1. `--name` gives a flag, and `--name value` an option its value;
2. a word without a dash belongs to the operand, unless that stands behind `--` only;
3. behind `--` every word belongs to the operand, and so does every word behind the first
   one of a trailing operand.

`Parser.FollowsRules` says that a command line is matched as its words are read.  Short
flags, `--name=value` and refusals are in no rule, so nothing is said of them.
-/

namespace TreeSync.CommandLine

/-! ## the rules -/

/-- An argument that is given as `--name`. -/
structure Argument.Named (argument : Argument) : Prop where
  long_ne_nil : argument.long ≠ []
  no_equals : '=' ∉ argument.long

/-- True when there is a word of the operand. -/
def CommandDeclaration.hasBegun (command : CommandDeclaration) (found : Matches) : Bool :=
  command.operand.any fun operand => found.values operand.name ≠ []

/-- **How the words of a command are read**, from what is matched before to what is matched
behind them.  In the first place stands whether every word is one of the operand. -/
inductive Reads (command : CommandDeclaration) : Bool → Matches → List Text → Matches → Prop
  | nil {opened : Bool} {found : Matches} : Reads command opened found [] found
  /-- A flag is given once. -/
  | flag {argument : Argument} {found after : Matches} {rest : List Text} :
      argument.Named → command.argument? argument.long = some argument →
      argument.value = none → found.flag argument.name = false →
      command.hasBegun found = false →
      Reads command false (found.setFlag argument.name) rest after →
      Reads command false found (("--".toList ++ argument.long) :: rest) after
  /-- An option is given once, with a value that has no dash in front. -/
  | option {argument : Argument} {kind : ValueKind} {found after : Matches} {value : Text}
      {rest : List Text} :
      argument.Named → command.argument? argument.long = some argument →
      argument.value = some kind → kind.accepts value = true → value.head? ≠ some '-' →
      found.values argument.name = [] → command.hasBegun found = false →
      Reads command false (found.add argument.name value) rest after →
      Reads command false found (("--".toList ++ argument.long) :: value :: rest) after
  /-- Behind `--` there are only words of the operand. -/
  | dashes {found after : Matches} {rest : List Text} :
      command.hasBegun found = false → Reads command true found rest after →
      Reads command false found ("--".toList :: rest) after
  /-- A trailing operand takes all that follows. -/
  | operand {operand : Operand} {opened : Bool} {found after : Matches} {word : Text}
      {rest : List Text} :
      command.operand = some operand → operand.value.accepts word = true →
      operand.many = true ∨ found.values operand.name = [] →
      opened = true ∨ operand.last = false ∧ word.head? ≠ some '-' →
      Reads command (opened || operand.trailing) (found.add operand.name word) rest after →
      Reads command opened found (word :: rest) after

/-- **What is relied on of a parser**: a command line whose words are read by the rules, and
that has all that is required, is matched so.  Its global arguments are known to the program
as well, and what is not given has its standard value. -/
structure Parser.FollowsRules (parse : Parser) : Prop where
  command : ∀ {program : ProgramDeclaration} {command : CommandDeclaration} {words : List Text}
    {found : Matches}, program.command? command.name = some command →
    command.name.head? ≠ some '-' → (program.arguments.all (!·.required)) = true →
    Reads (program.scope command) false {} words found →
    found.isComplete (program.scope command) = true →
    parse program (command.name :: words) =
      .ok ⟨(Matches.share program {} found).fill program.arguments,
        some (command.name, found.fill (program.scope command).arguments)⟩

/-! ## the words of an operand -/

namespace Matches

/-- Some values more. -/
def addAll (found : Matches) (name : Text) (values : List Text) : Matches :=
  values.foldl (fun found value => found.add name value) found

@[simp] theorem flag_add (found : Matches) (name value : Text) :
    (found.add name value).flag = found.flag := rfl

theorem values_add (found : Matches) (name value other : Text) :
    (found.add name value).values other =
      if other = name then found.values name ++ [value] else found.values other := rfl

@[simp] theorem flag_addAll (found : Matches) (name : Text) (values : List Text) :
    (found.addAll name values).flag = found.flag := by
  induction values generalizing found with
  | nil => rfl
  | cons value values ih => rw [addAll, List.foldl_cons, ← addAll, ih, flag_add]

theorem values_addAll (found : Matches) (name : Text) (values : List Text) (other : Text) :
    (found.addAll name values).values other =
      if other = name then found.values name ++ values else found.values other := by
  induction values generalizing found with
  | nil => by_cases h : other = name <;> simp [addAll, h]
  | cons value values ih =>
      rw [addAll, List.foldl_cons, ← addAll, ih, values_add, values_add]
      by_cases h : other = name <;> simp [h]

@[simp] theorem flag_fill (found : Matches) (arguments : List Argument) :
    (found.fill arguments).flag = found.flag := rfl

/-- What is given has no standard value. -/
theorem values_fill_of_ne {found : Matches} {name : Text} (h : found.values name ≠ [])
    (arguments : List Argument) : (found.fill arguments).values name = found.values name :=
  if_neg h

/-- What has no standard value is as it was matched. -/
theorem values_fill_of_none {arguments : List Argument} {name : Text}
    (h : (arguments.find? (·.name == name)).bind (·.standard) = none) (found : Matches) :
    (found.fill arguments).values name = found.values name := by
  simp only [fill, h, Option.toList_none]
  split
  · next hnone => exact hnone.symm
  · rfl

end Matches

variable {command : CommandDeclaration} {operand : Operand}

/-- **Words that belong to the operand** are its values, whatever they look like. -/
theorem reads_opened (hoperand : command.operand = some operand) (hmany : operand.many = true)
    (htext : operand.value = .text) (found : Matches) (words : List Text) :
    Reads command true found words (found.addAll operand.name words) := by
  induction words generalizing found with
  | nil => exact .nil
  | cons word words ih =>
      refine .operand hoperand (by rw [htext]; rfl) (.inl hmany) (.inl rfl) ?_
      rw [Bool.true_or]
      exact ih (found.add operand.name word)

/-- A trailing operand begins with its first word that has no dash in front. -/
theorem reads_trailing (hoperand : command.operand = some operand) (hmany : operand.many = true)
    (htext : operand.value = .text) (htrailing : operand.trailing = true)
    (hlast : operand.last = false) {word : Text} (hword : word.head? ≠ some '-')
    (found : Matches) (rest : List Text) :
    Reads command false found (word :: rest) (found.addAll operand.name (word :: rest)) := by
  refine .operand hoperand (by rw [htext]; rfl) (.inl hmany) (.inr ⟨hlast, hword⟩) ?_
  rw [htrailing, Bool.or_true]
  exact reads_opened hoperand hmany htext (found.add operand.name word) rest

/-! ## requests -/

/-- **What a command line asks for**, from how its words are read. -/
theorem request_of_reads {parse : Parser} (hparse : Parser.FollowsRules parse)
    {words : List Text} {found : Matches}
    (hcommand : declaration.command? command.name = some command)
    (hname : command.name.head? ≠ some '-')
    (hreads : Reads (declaration.scope command) false {} words found)
    (hcomplete : found.isComplete (declaration.scope command) = true) :
    request parse (command.name :: words) =
      (commandOf command.name (found.fill (declaration.scope command).arguments)).map
        fun asked => ⟨found.flag "verbose", some asked⟩ := by
  rw [request, hparse.command hcommand hname (by decide) hreads hcomplete, Except.bind, requestOf]
  rfl

end TreeSync.CommandLine
