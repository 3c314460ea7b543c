import TreeSync.Proofs.CommandLine.Reading

/-!
# TreeSync.Proofs.CommandLine.Remote

Commands to run elsewhere.

The words of such a command are declared as a trailing operand.  So it begins at its first
word without a dash, or behind a word `--`, and from there on every word is passed on
(`request_run`):

```
run make -j8 --verbose -- --help      make -j8 --verbose -- --help
run -- --no-tty ls                    --no-tty ls
```

This needs nothing of the parser but the rules.
-/

namespace TreeSync.CommandLine

theorem command?_run : declaration.command? runDeclaration.name = some runDeclaration := by
  decide

/-- A command line that begins with `run`, from how the words behind it are read. -/
theorem request_run_of_reads {parse : Parser} (hparse : Parser.FollowsRules parse)
    {words operands : List Text} (hoperands : operands ≠ [])
    (hreads : Reads (declaration.scope runDeclaration) false {} words
      (Matches.addAll {} remoteOperand.name operands)) :
    request parse ("run".toList :: words) = .ok ⟨false, some (.run false operands)⟩ := by
  generalize hfound : Matches.addAll {} remoteOperand.name operands = found at hreads
  have hvalues : found.values remoteOperand.name = operands := by
    rw [← hfound, Matches.values_addAll, if_pos rfl]
    rfl
  have hflag : ∀ name, found.flag name = false := by
    rw [← hfound, Matches.flag_addAll]
    exact fun _ => rfl
  have hcomplete : found.isComplete (declaration.scope runDeclaration) = true := by
    simp [Matches.isComplete, ProgramDeclaration.scope, runDeclaration, declaration, hvalues,
      hoperands]
  have hfilled := Matches.values_fill_of_ne (hvalues ▸ hoperands)
    (declaration.scope runDeclaration).arguments
  have hasked : commandOf "run" (found.fill (declaration.scope runDeclaration).arguments) =
      .ok (.run (found.flag "no_tty") (found.values remoteOperand.name)) := by
    rw [← hfilled]
    rfl
  rw [hvalues, hflag] at hasked
  have hrequest := request_of_reads hparse command?_run (by decide) hreads hcomplete
  rw [hflag] at hrequest
  exact hrequest.trans (congrArg _ hasked)

/-- **The words of a command** to run elsewhere are passed on as they are, by every parser
that follows the rules: from its first word on if that begins with no dash, and all words
behind `--`. -/
theorem request_run {parse : Parser} (hparse : Parser.FollowsRules parse) :
    (∀ (word : Text) (rest : List Text), word.head? ≠ some '-' →
        request parse ("run".toList :: word :: rest) =
          .ok ⟨false, some (.run false (word :: rest))⟩) ∧
      ∀ words : List Text, words ≠ [] →
        request parse ("run".toList :: "--".toList :: words) =
          .ok ⟨false, some (.run false words)⟩ := by
  constructor
  · intro word rest hword
    exact request_run_of_reads hparse (List.cons_ne_nil word rest)
      (reads_trailing rfl rfl rfl rfl rfl hword {} rest)
  · intro words hwords
    exact request_run_of_reads hparse hwords (.dashes rfl (reads_opened rfl rfl rfl {} words))

theorem request_run_make :
    Parser.FollowsRules parse ∧
      ("make".toList.head? ≠ some '-' ∧ (["--", "-v", "--no-tty"] : List Text) ≠ []) ∧
      CommandLine.read ["run", "make", "--", "--no-tty", "-v", "--help", "run"] =
        .ok ⟨false, some (.run false ["make", "--", "--no-tty", "-v", "--help", "run"])⟩ ∧
      CommandLine.read ["run", "--", "--", "-v", "--no-tty"] =
        .ok ⟨false, some (.run false ["--", "-v", "--no-tty"])⟩ :=
  ⟨followsRules_parse, ⟨by decide, by decide⟩,
    (request_run followsRules_parse).1 "make" ["--", "--no-tty", "-v", "--help", "run"] (by decide),
    (request_run followsRules_parse).2 ["--", "-v", "--no-tty"] (by decide)⟩

end TreeSync.CommandLine
