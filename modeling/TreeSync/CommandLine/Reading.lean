import TreeSync.CommandLine.Declaration

/-!
# TreeSync.CommandLine.Reading

Reading command lines by their declaration: the parser that the program is run with.

1. Flags and options stand anywhere before a word `--`; short flags can be
   written together.  A flag is given at most once at each level, where the
   program and its command are the two levels.
2. An option takes what follows its equals sign, or else the next word that does
   not start with a dash.  It is looked at when the next flag, option or operand
   has been understood, or at the end.
3. An operand that may begin with a dash begins at the first word that is no known
   flag or option, and a trailing one takes everything from there on as it is.
4. Every level knows the flag `help`, the program knows `version`, and there is a
   command `help`.
-/

namespace TreeSync.CommandLine

/-! ## levels -/

/-- What a level does with words that are neither flags nor options. -/
inductive Operands
  /-- The first names a command of the program, and the rest are the words of its level. -/
  | command
  /-- They belong to the operand of a command, if it has one. -/
  | operand (operand : Option Operand)
  deriving DecidableEq, Repr

/-- What one level of the command line knows. -/
structure Level where
  program : ProgramDeclaration
  arguments : List Argument
  operands : Operands
  deriving DecidableEq, Repr

/-- The level of a program. -/
def ProgramDeclaration.level (program : ProgramDeclaration) : Level :=
  ⟨program, program.arguments, .command⟩

/-- The level of one of its commands. -/
def ProgramDeclaration.commandLevel (program : ProgramDeclaration) (command : CommandDeclaration) :
    Level :=
  ⟨program, (program.scope command).arguments, .operand command.operand⟩

/-- The word that asks for help, as a flag and as a command. -/
def helpWord : Text := "help"

/-- The word that asks for the version. -/
def versionWord : Text := "version"

/-- True of the words that name a command, help included. -/
def ProgramDeclaration.isCommandWord (program : ProgramDeclaration) (word : Text) : Bool :=
  word = helpWord || (program.command? word).isSome

/-- What a name with dashes before it stands for. -/
inductive Known
  | argument (argument : Argument)
  | help
  | version
  | unknown
  deriving DecidableEq, Repr

namespace Level

/-- What an argument stands for, or else help and version if they are asked for. -/
def knownOf (level : Level) (argument : Option Argument) (help version : Bool) : Known :=
  match argument with
  | some argument => .argument argument
  | none =>
      if help then .help
      else if version && level.operands = .command then .version
      else .unknown

/-- What a long name stands for. -/
def long (level : Level) (name : Text) : Known :=
  level.knownOf (level.arguments.find? (·.long == name)) (name = helpWord) (name = versionWord)

/-- What a letter stands for. -/
def letter (level : Level) (c : Char) : Known :=
  level.knownOf (level.arguments.find? (·.letter == some c)) (c == 'h') (c == 'V')

/-- True when the operand may begin with a dash. -/
def takesHyphens (level : Level) : Bool :=
  match level.operands with
  | .operand (some operand) => operand.hyphens
  | _ => false

end Level

/-! ## what has been read -/

/-- What was read last and is still to be looked at: a value, and what it is a value of. -/
structure Pending where
  name : Text
  kind : ValueKind
  /-- An option waits for it until the next word is read. -/
  value : Option Text
  deriving DecidableEq, Repr

/-- What has been read at one level. -/
structure Found where
  matched : Matches := {}
  pending : Option Pending := none

namespace Found

/-- Look at what was read last.  It is given once. -/
def resolve (found : Found) : Except Refusal Found :=
  match found.pending with
  | none => .ok found
  | some pending =>
      match pending.value with
      | none => .error .invalidValue
      | some value =>
          if found.matched.values pending.name ≠ [] then .error .repeated
          else if pending.kind.accepts value then .ok ⟨found.matched.add pending.name value, none⟩
          else .error .invalidValue

/-- Take a flag or an option, with what follows its equals sign. -/
def takeArgument (found : Found) (given : Option Text) (argument : Argument) :
    Except Refusal Found :=
  match argument.value with
  | none => do
      if given.isSome then throw .unexpectedValue
      let found ← found.resolve
      if found.matched.flag argument.name then throw .repeated
      return ⟨found.matched.setFlag argument.name, none⟩
  | some kind => do
      let found ← found.resolve
      let next : Found := ⟨found.matched, some ⟨argument.name, kind, given⟩⟩
      if given.isSome then next.resolve else return next

/-- Take a name with dashes before it. -/
def take (found : Found) (given : Option Text) : Known → Except Refusal Found
  | .argument argument => found.takeArgument given argument
  | .help => if given.isSome then .error .unexpectedValue else found.resolve >>= fun _ => throw .help
  | .version =>
      if given.isSome then .error .unexpectedValue else found.resolve >>= fun _ => throw .version
  | .unknown => .error .unknownArgument

/-- Take the letters of short flags. -/
def takeLetters (level : Level) (found : Found) : List Char → Except Refusal Found
  | [] => .ok found
  | c :: cs => do (← found.take none (level.letter c)).takeLetters level cs

/-- True when the operand of a name has been read. -/
def hasOperand (found : Found) (name : Text) : Bool :=
  found.matched.values name ≠ [] || found.pending.any (·.name == name)

end Found

/-! ## reading a level -/

/-- A word of the command line, by how it starts. -/
inductive Word
  /-- The word `--`. -/
  | dashes
  /-- A long name, with what follows an equals sign. -/
  | long (name : Text) (value : Option Text)
  /-- Letters after one dash. -/
  | letters (letters : List Char)
  | operand
  deriving DecidableEq, Repr

/-- How a word starts. -/
def Word.ofText : Text → Word
  | ['-', '-'] => .dashes
  | '-' :: '-' :: r =>
      match r.dropWhile (· != '=') with
      | '=' :: value => .long (r.takeWhile (· != '=')) (some value)
      | _ => .long r none
  | '-' :: c :: r => .letters (c :: r)
  | _ => .operand

/-- What reading a level leads to: what was found, and the words from the
command on, if it came to one. -/
abbrev Outcome := Except Refusal (Found × List Text)

/-- Read a word of an operand.  `opened` tells that every word is one, and `next` reads the
words that follow. -/
def readOperand (operand : Operand) (found : Found) (opened : Bool) (word : Text)
    (next : Found → Bool → Outcome) : Outcome :=
  if operand.last && !opened then .error .unknownArgument
  else if operand.many then do
    let found ← found.resolve
    if operand.value.accepts word then
      next ⟨found.matched.add operand.name word, none⟩ (opened || operand.trailing)
    else throw .invalidValue
  else if found.hasOperand operand.name then .error .unknownArgument
  else do
    let found ← found.resolve
    next ⟨found.matched, some ⟨operand.name, operand.value, some word⟩⟩
      (opened || operand.trailing)

/-- Read a word that is neither a flag nor an option. -/
def readBare (level : Level) (found : Found) (opened : Bool) (word : Text) (rest : List Text)
    (next : Found → Bool → Outcome) : Outcome :=
  match level.operands with
  | .command =>
      if level.program.isCommandWord word then
        if opened then .error .unknownArgument
        else do return (← found.resolve, word :: rest)
      else .error .unknownCommand
  | .operand none => .error .unknownArgument
  | .operand (some operand) => readOperand operand found opened word next

/-- Read the words of a level.  `opened` tells that every word from now on is an operand. -/
def readLevel (level : Level) (found : Found) (opened : Bool) : List Text → Outcome
  | [] => do return (← found.resolve, [])
  | word :: rest =>
      let bare := readBare level found opened word rest fun found opened =>
        readLevel level found opened rest
      if opened then bare
      else
        match Word.ofText word with
        | .dashes => readLevel level found true rest
        | .long name given =>
            if level.long name = .unknown && level.takesHyphens then bare
            else do readLevel level (← found.take given (level.long name)) false rest
        | .letters letters =>
            if (letters.any fun c => level.letter c = .unknown) && level.takesHyphens then bare
            else do readLevel level (← found.takeLetters level letters) false rest
        | .operand =>
            match found.pending with
            | some ⟨name, kind, none⟩ =>
                readLevel level ⟨found.matched, some ⟨name, kind, some word⟩⟩ false rest
            | _ => bare

/-! ## whole command lines -/

/-- Read the words of a command. -/
def readCommand (program : ProgramDeclaration) (name : Text) (words : List Text) :
    Except Refusal (CommandDeclaration × Matches) :=
  match program.command? name with
  | some command => do
      let (found, _) ← readLevel (program.commandLevel command) {} false words
      if found.matched.isComplete (program.scope command) then return (command, found.matched)
      else throw .missingArgument
  | none =>
      -- Help is asked for in general, or on one command.
      match words with
      | [] => .error .help
      | [word] => if program.isCommandWord word then .error .help else .error .unknownCommand
      | _ => .error .unknownCommand

/-- Read a command line by its declaration.  What is global is known at both levels,
wherever it is given. -/
def parse : Parser := fun program words => do
  let (found, rest) ← readLevel program.level {} false words
  let own := found.matched
  match rest with
  | [] => return ⟨own.fill program.arguments, none⟩
  | name :: words =>
      let (command, inner) ← readCommand program name words
      return ⟨(own.share program inner).fill program.arguments,
        some (name, (inner.share program own).fill (program.scope command).arguments)⟩

/-- Read the words of a command line, without the name of the program. -/
def read (words : List Text) : Except Refusal Request := request parse words

end TreeSync.CommandLine
