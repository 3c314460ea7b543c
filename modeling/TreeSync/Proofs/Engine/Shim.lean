import TreeSync.Engine.Config
import TreeSync.Proofs.CommandLine.Reading
import TreeSync.Proofs.Shell.Reading

/-!
# TreeSync.Proofs.Engine.Shim

The script that the engine runs for a transfer and the command line that it ends
up at understand each other.

The script is one command.  A shell reads its words as the words that were
quoted, and the arguments of the script after them (`readWords_shimLine`), and the
command line reads these as a transfer with the lock, the transfer program and
the arguments that were meant (`request_transferWords`), whatever characters are in
them.

Of quoting it is only known that a quoted word is one word (`Shell.Quotes`), and of the
parser only that it follows the rules (`CommandLine.Parser.FollowsRules`).
-/

namespace TreeSync.Engine

/-! ## the words of a transfer -/

/-- The words that ask for a transfer, without the name of the program. -/
def transferWords (lock rsync : Text) (arguments : List Text) : List Text :=
  "transfer" :: "--lock" :: lock :: "--rsync" :: rsync :: "--" :: arguments

section
open CommandLine

variable {lock rsync : Text}

theorem command?_transfer :
    declaration.command? transferDeclaration.name = some transferDeclaration := by
  decide

/-- What is matched of the words of a transfer. -/
def transferMatches (lock rsync : Text) (arguments : List Text) : Matches :=
  ((Matches.add {} lockOption.name lock).add rsyncOption.name rsync).addAll transferOperand.name
    arguments

theorem transferMatches_eq (lock rsync : Text) (arguments : List Text) :
    (∀ name, (transferMatches lock rsync arguments).flag name = false) ∧
      (transferMatches lock rsync arguments).values lockOption.name = [lock] ∧
      (transferMatches lock rsync arguments).values rsyncOption.name = [rsync] ∧
      (transferMatches lock rsync arguments).values transferOperand.name = arguments := by
  refine ⟨fun name => ?_, ?_, ?_, ?_⟩
  · rw [transferMatches, Matches.flag_addAll]
    rfl
  · rw [transferMatches, Matches.values_addAll]
    rfl
  · rw [transferMatches, Matches.values_addAll]
    rfl
  · rw [transferMatches, Matches.values_addAll]
    rfl

theorem commandOf_transfer (found : Matches) :
    commandOf "transfer" found =
      match (found.values lockOption.name).head?, (found.values rsyncOption.name).head? with
      | some lock, some rsync =>
          .ok (.transfer lock rsync (found.values transferOperand.name))
      | _, _ => .error .missingArgument :=
  rfl

/-- **A transfer is asked for** by its lock, its program and the arguments behind `--`. -/
theorem reads_transferWords (hempty : lock ≠ []) (hlock : lock.head? ≠ some '-')
    (hrsync : rsync.head? ≠ some '-') (arguments : List Text) :
    Reads (declaration.scope transferDeclaration) false {}
      (transferWords lock rsync arguments).tail (transferMatches lock rsync arguments) := by
  have hnamed : lockOption.Named ∧ rsyncOption.Named :=
    ⟨⟨by decide, by decide⟩, ⟨by decide, by decide⟩⟩
  have haccepts : ValueKind.path.accepts lock = true := by simp [ValueKind.accepts, hempty]
  refine .option hnamed.1 (by decide) rfl haccepts hlock rfl rfl ?_
  refine .option hnamed.2 (by decide) rfl rfl hrsync rfl rfl ?_
  exact .dashes rfl (reads_opened rfl rfl rfl _ arguments)

/-- A transfer has all that is required once it has a lock. -/
theorem isComplete_transfer {found : Matches} (h : found.values lockOption.name ≠ []) :
    found.isComplete (declaration.scope transferDeclaration) = true := by
  have harguments : (declaration.scope transferDeclaration).arguments =
      [lockOption, rsyncOption] ++ declaration.arguments := rfl
  rw [Matches.isComplete, harguments, List.all_append]
  simp only [List.all_cons, decide_eq_true h, Bool.or_true]
  rfl

/-- The transfer that is asked for by a lock, a program and words for it. -/
theorem commandOf_transfer_filled {found : Matches} {arguments : List Text}
    (hlock : found.values lockOption.name = [lock])
    (hrsync : found.values rsyncOption.name = [rsync])
    (harguments : found.values transferOperand.name = arguments) :
    commandOf "transfer" (found.fill (declaration.scope transferDeclaration).arguments) =
      .ok (.transfer lock rsync arguments) := by
  have hlockFilled := Matches.values_fill_of_ne (hlock ▸ List.cons_ne_nil lock [])
    (declaration.scope transferDeclaration).arguments
  have hrsyncFilled := Matches.values_fill_of_ne (hrsync ▸ List.cons_ne_nil rsync [])
    (declaration.scope transferDeclaration).arguments
  have hargumentsFilled : (found.fill (declaration.scope transferDeclaration).arguments).values
      transferOperand.name = found.values transferOperand.name :=
    Matches.values_fill_of_none (by decide) found
  rw [commandOf_transfer, hlockFilled, hrsyncFilled, hargumentsFilled, hlock, hrsync, harguments]
  rfl

/-- **The words of a transfer** are read as the transfer they ask for. -/
theorem request_transferWords {parse : Parser} (hparse : Parser.FollowsRules parse)
    (hempty : lock ≠ []) (hlock : lock.head? ≠ some '-') (hrsync : rsync.head? ≠ some '-')
    (arguments : List Text) :
    request parse (transferWords lock rsync arguments) =
      .ok ⟨false, some (.transfer lock rsync arguments)⟩ := by
  have hreads := reads_transferWords hempty hlock hrsync arguments
  obtain ⟨hflag, hlockValue, hrsyncValue, hargumentValues⟩ :=
    transferMatches_eq lock rsync arguments
  generalize transferMatches lock rsync arguments = found at *
  have hcomplete := isComplete_transfer (by simp [hlockValue] : found.values lockOption.name ≠ [])
  have hasked := commandOf_transfer_filled hlockValue hrsyncValue hargumentValues
  have hrequest := request_of_reads hparse command?_transfer (by decide) hreads hcomplete
  rw [hflag] at hrequest
  exact hrequest.trans (congrArg _ hasked)

end

/-! ## the script -/

/-- The words that the script is written with, each of them one word for a shell. -/
def shimWords (config : SessionConfig) (executable : Text) (quote : Text → Text) : List Text :=
  ["exec", quote executable, "transfer", "--lock", quote config.lockPath, "--rsync",
    quote config.binaries.rsync, "--"]

/-- The script is one command. -/
theorem shimText_eq (config : SessionConfig) (executable : Text) (quote : Text → Text) :
    shimText config executable quote =
      "#!/bin/sh\n".toList ++
        (Text.joinWith [' '] (shimWords config executable quote) ++ ' ' :: "\"$@\"\n".toList) := by
  -- What the script writes in one piece is several words of the command.
  have hexec : "#!/bin/sh\nexec ".toList = "#!/bin/sh\n".toList ++ "exec".toList ++ [' '] := rfl
  have hlock : " transfer --lock ".toList =
      [' '] ++ "transfer".toList ++ [' '] ++ "--lock".toList ++ [' '] := rfl
  have hrsync : " --rsync ".toList = [' '] ++ "--rsync".toList ++ [' '] := rfl
  have harguments : " -- \"$@\"\n".toList =
      [' '] ++ "--".toList ++ ' ' :: "\"$@\"\n".toList := rfl
  unfold shimText
  rw [hexec, hlock, hrsync, harguments]
  simp only [shimWords, Text.joinWith, List.append_assoc]

/-- **The words of the script**, as a shell reads them. -/
theorem readWords_shimLine {quote : Text → Text} (hquote : Shell.Quotes quote)
    (config : SessionConfig) (executable : Text) (arguments : List Text) :
    Shell.readWords arguments .bare none
        (Text.joinWith [' '] (shimWords config executable quote) ++ ' ' :: "\"$@\"\n".toList) =
      some ("exec".toList :: executable ::
        transferWords config.lockPath config.binaries.rsync arguments, []) := by
  have hwords : (shimWords config executable quote).map (Shell.unquote? .bare none) =
      ("exec".toList :: executable ::
        transferWords config.lockPath config.binaries.rsync []).map some := by
    have hliteral : Shell.unquote? .bare none "exec" = some "exec".toList ∧
        Shell.unquote? .bare none "transfer" = some "transfer".toList ∧
        Shell.unquote? .bare none "--lock" = some "--lock".toList ∧
        Shell.unquote? .bare none "--rsync" = some "--rsync".toList ∧
        Shell.unquote? .bare none "--" = some "--".toList := by
      decide
    simp only [shimWords, transferWords, List.map_cons, List.map_nil, hquote.unquote?_quote, hliteral]
  rw [Shell.readWords_join_append hwords, Shell.readWords_arguments]
  rfl

/-- The path of a session file is absolute if the state directory is. -/
theorem head?_pathOf {config : SessionConfig} (h : Path.isAbsolute config.stateDirectory = true)
    (file : SessionFile) : (config.pathOf file).head? = some '/' := by
  have hname : Path.isAbsolute file.name = false := by cases file <;> decide
  rw [Path.isAbsolute, decide_eq_true_eq] at h
  obtain ⟨r, hr⟩ := List.head?_eq_some_iff.mp h
  simp only [SessionConfig.pathOf, Path.join, hname, Bool.false_eq_true, if_false]
  split <;> simp [hr]

/-- **The script and the command line agree**, however words are quoted and by whichever
parser the command line is read.  Behind its first line the script is one command; with the
arguments put in, its words are `exec`, the executable, and words that the command line reads
as the transfer with the lock of the session, its transfer program and these arguments. -/
theorem shimText_asks_for_transfer {quote : Text → Text} (hquote : Shell.Quotes quote)
    {parse : CommandLine.Parser} (hparse : CommandLine.Parser.FollowsRules parse)
    {config : SessionConfig} (hstate : Path.isAbsolute config.stateDirectory = true)
    (hrsync : config.binaries.rsync.head? ≠ some '-') (executable : Text)
    (arguments : List Text) :
    ∃ line words, shimText config executable quote = "#!/bin/sh\n".toList ++ line ∧
      Shell.readWords arguments .bare none line =
        some ("exec".toList :: executable :: words, []) ∧
      CommandLine.request parse words =
        .ok ⟨false, some (.transfer config.lockPath config.binaries.rsync arguments)⟩ := by
  have hlock : config.lockPath.head? = some '/' := head?_pathOf hstate .lock
  refine ⟨_, transferWords config.lockPath config.binaries.rsync arguments,
    shimText_eq config executable quote, readWords_shimLine hquote config executable arguments, ?_⟩
  apply request_transferWords hparse
  · intro hempty
    simp [hempty] at hlock
  · simp [hlock]
  · exact hrsync

/-- The session of a tree whose name has a blank, with a quote in the name of its
transfer program. -/
def quotedSession : SessionConfig where
  root := "/my app"
  stateDirectory := "/my app/.git/tether"
  host := "builder"
  remotePath := "app"
  sources := RuleSource.defaults
  delay := .zero false
  compress := true
  binaries := { rsync := "it's rsync" }

theorem shimText_asks_for_transfer_quoted :
    Shell.Quotes Shell.quote ∧ CommandLine.Parser.FollowsRules CommandLine.parse ∧
      Path.isAbsolute quotedSession.stateDirectory = true ∧
      quotedSession.binaries.rsync.head? ≠ some '-' ∧
      ∃ line words, shimText quotedSession "/opt/tether" = "#!/bin/sh\n".toList ++ line ∧
        Shell.readWords ["--".toList, "-a b".toList, []] .bare none line =
          some ("exec".toList :: "/opt/tether".toList :: words, []) ∧
        CommandLine.read words =
          .ok ⟨false, some (.transfer quotedSession.lockPath quotedSession.binaries.rsync
            ["--".toList, "-a b".toList, []])⟩ :=
  ⟨Shell.quotes_quote, CommandLine.followsRules_parse, by decide, by decide,
    shimText_asks_for_transfer Shell.quotes_quote CommandLine.followsRules_parse (by decide)
      (by decide) _ _⟩

end TreeSync.Engine
