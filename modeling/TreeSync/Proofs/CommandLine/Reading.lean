import TreeSync.CommandLine.Reading
import TreeSync.Proofs.CommandLine.Rules

/-!
# TreeSync.Proofs.CommandLine.Reading

The parser that the program is run with follows the rules (`followsRules_parse`).

What was read last is looked at later.  So a level is compared with the rules by what
`resolve` makes of it: that is what the rules have matched so far (`readLevel_of_reads`).
-/

namespace TreeSync.CommandLine

/-! ## words -/

/-- Only a dash makes a word something else than an operand. -/
theorem Word.ofText_of_head?_ne {word : Text} (h : word.head? ≠ some '-') :
    Word.ofText word = .operand := by
  cases word with
  | nil => rfl
  | cons c r =>
      have hc : c ≠ '-' := fun heq => h (by rw [heq]; rfl)
      simp [Word.ofText, hc]

/-- A long name behind two dashes. -/
theorem Word.ofText_long {argument : Argument} (h : argument.Named) :
    Word.ofText ("--".toList ++ argument.long) = .long argument.long none := by
  have hall : ∀ c ∈ argument.long, (c != '=') = true := by
    intro c hc
    rw [bne_iff_ne]
    rintro rfl
    exact h.no_equals hc
  have hequals : (argument.long ++ []).dropWhile (· != '=') = [] :=
    List.dropWhile_append_of_pos hall
  rw [List.append_nil] at hequals
  obtain ⟨c, r, hlong⟩ := List.exists_cons_of_ne_nil h.long_ne_nil
  rw [hlong] at hequals ⊢
  simp [Word.ofText, hequals]

/-! ## what was read last -/

namespace Found

variable {found : Found} {before : Matches}

/-- A value that was read last is added. -/
theorem resolve_pending {name value : Text} {kind : ValueKind}
    (hvalue : kind.accepts value = true) (hfirst : before.values name = []) :
    resolve ⟨before, some ⟨name, kind, some value⟩⟩ = .ok ⟨before.add name value, none⟩ := by
  simp [resolve, hvalue, hfirst]

/-- Where everything can be looked at no option waits for its value. -/
theorem pending_ne_of_resolve {found' : Found} (h : found.resolve = .ok found') (name : Text)
    (kind : ValueKind) : found.pending ≠ some ⟨name, kind, none⟩ := by
  intro hpending
  simp [resolve, hpending] at h

/-- What is pending becomes a value of its name. -/
theorem cases_of_resolve (h : found.resolve = .ok ⟨before, none⟩) :
    found = ⟨before, none⟩ ∨ ∃ name kind value, found.pending = some ⟨name, kind, some value⟩ ∧
      before = found.matched.add name value := by
  obtain ⟨matched, pending⟩ := found
  cases pending with
  | none =>
      cases h
      exact .inl rfl
  | some pending =>
      obtain ⟨name, kind, value⟩ := pending
      cases value with
      | none => contradiction
      | some value =>
          simp only [resolve] at h
          split at h
          · contradiction
          · split at h
            · cases h
              exact .inr ⟨name, kind, value, rfl, rfl⟩
            · contradiction

/-- An operand without values has not been read. -/
theorem hasOperand_of_resolve {name : Text} (h : found.resolve = .ok ⟨before, none⟩)
    (hfirst : before.values name = []) : found.hasOperand name = false := by
  obtain rfl | ⟨other, kind, value, hpending, rfl⟩ := cases_of_resolve h
  · simp [hasOperand, hfirst]
  · rw [Matches.values_add] at hfirst
    split at hfirst
    · simp at hfirst
    · next hne => simp [hasOperand, hpending, hfirst, Ne.symm hne]

end Found

/-! ## a level -/

section
variable {found : Found} {before : Matches} (hfound : found.resolve = .ok ⟨before, none⟩)
include hfound

/-- A word that cannot be a flag or an option is bare. -/
theorem readLevel_bare (level : Level) {opened : Bool} {word : Text}
    (hword : opened = true ∨ word.head? ≠ some '-') (rest : List Text) :
    readLevel level found opened (word :: rest) =
      readBare level found opened word rest fun found opened =>
        readLevel level found opened rest := by
  rw [readLevel]
  cases opened with
  | true => rfl
  | false =>
      have hoperand := Word.ofText_of_head?_ne (hword.resolve_left Bool.false_ne_true)
      simp only [Bool.false_eq_true, if_false, hoperand]
      split
      · next name kind hpending =>
          exact absurd hpending (Found.pending_ne_of_resolve hfound name kind)
      · rfl

/-- A word of the operand is one value more. -/
theorem exists_readOperand {operand : Operand} {opened : Bool} {word : Text}
    (hvalue : operand.value.accepts word = true)
    (hfirst : operand.many = true ∨ before.values operand.name = [])
    (hplace : opened = true ∨ operand.last = false) (next : Found → Bool → Outcome) :
    ∃ found' : Found, found'.resolve = .ok ⟨before.add operand.name word, none⟩ ∧
      readOperand operand found opened word next = next found' (opened || operand.trailing) := by
  have hlast : (operand.last && !opened) = false := by
    obtain rfl | hlast := hplace
    · rw [Bool.not_true, Bool.and_false]
    · rw [hlast, Bool.false_and]
  cases hmany : operand.many with
  | true =>
      refine ⟨⟨before.add operand.name word, none⟩, rfl, ?_⟩
      simp [readOperand, hlast, hmany, hfound, hvalue, bind, Except.bind]
  | false =>
      have hfirst := hfirst.resolve_left (by rw [hmany]; exact Bool.false_ne_true)
      refine ⟨⟨before, some ⟨operand.name, operand.value, some word⟩⟩,
        Found.resolve_pending hvalue hfirst, ?_⟩
      simp [readOperand, hlast, hmany, Found.hasOperand_of_resolve hfound hfirst, hfound, bind,
        Except.bind]

end

/-- What a declared long name stands for. -/
theorem Level.long_of_argument? {level : Level} {command : CommandDeclaration}
    {argument : Argument} (hlevel : level.arguments = command.arguments)
    (h : command.argument? argument.long = some argument) :
    level.long argument.long = .argument argument := by
  rw [CommandDeclaration.argument?, ← hlevel] at h
  rw [Level.long, h]
  rfl

/-- **A level follows the rules**: where they have read what is found so far, it is found
behind the words what they read there. -/
theorem readLevel_of_reads {level : Level} {command : CommandDeclaration}
    (harguments : level.arguments = command.arguments)
    (hoperands : level.operands = .operand command.operand) {opened : Bool}
    {before after : Matches} {words : List Text} (h : Reads command opened before words after)
    {found : Found} (hfound : found.resolve = .ok ⟨before, none⟩) :
    readLevel level found opened words = .ok (⟨after, none⟩, []) := by
  induction h generalizing found with
  | nil =>
      rw [readLevel, hfound]
      rfl
  | flag hnamed hargument hvalue hfirst _ _ ih =>
      rw [readLevel, Word.ofText_long hnamed]
      simp only [Bool.false_eq_true, if_false, Level.long_of_argument? harguments hargument,
        Found.take, Found.takeArgument, hvalue, hfound, bind, Except.bind, hfirst]
      exact ih rfl
  | @option argument kind before after value rest hnamed hargument hkind hvalue hdash hfirst _ _
      ih =>
      rw [readLevel, Word.ofText_long hnamed]
      simp only [Bool.false_eq_true, if_false, Level.long_of_argument? harguments hargument,
        Found.take, Found.takeArgument, hkind, hfound, bind, Except.bind]
      -- The next word becomes the value, and is looked at with what follows it.
      have hnext : readLevel level ⟨before, some ⟨argument.name, kind, none⟩⟩ false
          (value :: rest) =
          readLevel level ⟨before, some ⟨argument.name, kind, some value⟩⟩ false rest := by
        rw [readLevel, Word.ofText_of_head?_ne hdash]
        rfl
      exact hnext.trans (ih (Found.resolve_pending hvalue hfirst))
  | dashes _ _ ih =>
      rw [readLevel]
      exact ih hfound
  | @operand operand opened before after word rest hoperand hvalue hmany hplace _ ih =>
      obtain ⟨found', hresolve, hread⟩ := exists_readOperand hfound hvalue hmany
        (hplace.imp_right And.left) fun found opened => readLevel level found opened rest
      rw [readLevel_bare hfound level (hplace.imp_right And.right), readBare, hoperands, hoperand]
      exact hread.trans (ih hresolve)

/-! ## whole command lines -/

theorem Matches.share_empty (program : ProgramDeclaration) (found : Matches) :
    found.share program {} = found := by
  obtain ⟨flag, values⟩ := found
  simp only [Matches.share, Bool.and_false, Bool.or_false, Matches.mk.injEq, true_and]
  funext name
  split
  · next h => simpa [eq_comm] using (Bool.and_eq_true_iff.mp h).2
  · rfl

/-- **The parser that the program is run with follows the rules.** -/
theorem followsRules_parse : Parser.FollowsRules parse where
  command := by
    intro program command words found hcommand hname _ hreads hcomplete
    have hprogram : readLevel program.level {} false (command.name :: words) =
        .ok ({}, command.name :: words) := by
      rw [readLevel_bare rfl _ (.inr hname), readBare, ProgramDeclaration.level,
        ProgramDeclaration.isCommandWord, hcommand]
      simp only [Option.isSome_some, Bool.or_true, if_true, Bool.false_eq_true, if_false]
      rfl
    have hlevel : readLevel (program.commandLevel command) {} false words =
        .ok (⟨found, none⟩, []) := readLevel_of_reads rfl rfl hreads rfl
    have hinner : readCommand program command.name words = .ok (command, found) := by
      simp only [readCommand, hcommand, hlevel, bind, Except.bind, hcomplete, if_true]
      rfl
    simp only [parse, hprogram, hinner, bind, Except.bind, Matches.share_empty]
    rfl

end TreeSync.CommandLine
