import DepLock.Text.Split

/-!
# Arguments

The arguments of a command line are read from left to right, first those before the command and then
its own. An option is long (`--root x`, `--root=x`) or a letter, and letters may stand together. After
`--` all arguments are words. `Level.read` gathers what is given at one level, and refuses options
that are unknown there or given twice. Asking for help or for the version ends the reading.
-/

namespace DepLock.CommandLine

/-- The form of an argument. -/
inductive Argument where
  | stop
  | long (name : String) (value : Option String)
  | letters (cs : List Char)
  | word (text : String)
  deriving DecidableEq, Repr

/-- The form that a text has as an argument. -/
def Argument.of (s : String) : Argument :=
  match Text.stripPrefix? "--" s with
  | some "" => .stop
  | some rest => match Text.splitFirst? '=' rest with
    | some (name, value) => .long name (some value)
    | none => .long rest none
  | none => match s.toList with
    | '-' :: c :: cs => .letters (c :: cs)
    | _ => .word s

/-- The commands. -/
inductive CommandName where
  | init
  | hashInputs
  deriving DecidableEq, Repr

/-- The word for a command. -/
def CommandName.word : CommandName → String
  | init => "init"
  | hashInputs => "hash-inputs"

/-- The command that a word names. -/
def CommandName.ofWord? (s : String) : Option CommandName :=
  [init, hashInputs].find? (·.word = s)

/-- The word that asks for help instead of naming a command. -/
def helpWord : String := "help"

/-- What is switched on. -/
inductive Switch where
  | verbose
  | quiet
  | noColor
  | skipTools
  | offline
  deriving DecidableEq, Repr

/-- An option: a switch, the import path of the project, or a question about the program. -/
inductive Choice where
  | switch (s : Switch)
  | root
  | help
  | version
  deriving DecidableEq, Repr

/-- Why a command line is not understood. -/
inductive UsageError where
  | unknown (argument : String)
  | repeated (argument : String)
  | valueMissing (argument : String)
  | valueUnexpected (argument : String)
  | emptyPath
  | verboseAndQuiet
  | noCommand
  | notBoolean (value : String)
  deriving DecidableEq, Repr

/-- The text of an error. -/
def UsageError.message : UsageError → String
  | unknown argument => s!"unexpected argument '{argument}'"
  | repeated argument => s!"the argument '{argument}' is given more than once"
  | valueMissing argument => s!"the argument '{argument}' needs a value"
  | valueUnexpected argument => s!"the argument '{argument}' takes no value"
  | emptyPath => "the path is empty"
  | verboseAndQuiet => "'--verbose' and '--quiet' exclude each other"
  | noCommand => "a command is needed"
  | notBoolean value => s!"'{value}' is neither 'true' nor 'false'"

/-- Why reading ends before the last argument. -/
inductive Ending where
  | misuse (e : UsageError)
  | help
  | version
  deriving DecidableEq, Repr

/-- What is given at a level: switches, an import path, and the path of a directory. -/
structure Given where
  switches : List Switch := []
  root : Option String := none
  path : Option String := none
  deriving DecidableEq, Repr

namespace Given

/-- What is given with a switch turned on. -/
def turnOn (g : Given) (argument : String) (s : Switch) : Except Ending Given :=
  if s ∈ g.switches then .error (.misuse (.repeated argument))
  else .ok { g with switches := s :: g.switches }

/-- What is given with an import path. -/
def withRoot (g : Given) (argument root : String) : Except Ending Given :=
  match g.root with
  | some _ => .error (.misuse (.repeated argument))
  | none => .ok { g with root }

/-- What is given with the path of a directory. -/
def withPath (g : Given) (path : String) : Except Ending Given :=
  match g.path with
  | some _ => .error (.misuse (.unknown path))
  | none => if path = "" then .error (.misuse .emptyPath) else .ok { g with path }

end Given

/-- The level of an argument: before the command, or after it. -/
inductive Level where
  | start
  | command (name : CommandName)
  deriving DecidableEq, Repr

namespace Level

/-- The option with a long name. -/
def long? (l : Level) (name : String) : Option Choice :=
  match name, l with
  | "verbose", _ => some (.switch .verbose)
  | "quiet", _ => some (.switch .quiet)
  | "no-color", _ => some (.switch .noColor)
  | "help", _ => some .help
  | "version", .start => some .version
  | "root", .command _ => some .root
  | "skip-tools", .command .init => some (.switch .skipTools)
  | "offline", .command .init => some (.switch .offline)
  | _, _ => none

/-- The option with a letter. -/
def letter? (l : Level) (c : Char) : Option Choice :=
  match c, l with
  | 'v', _ => some (.switch .verbose)
  | 'q', _ => some (.switch .quiet)
  | 'h', _ => some .help
  | 'V', .start => some .version
  | _, _ => none

/-- What is given with an option that has no value. -/
def choose (g : Given) (argument : String) : Choice → Except Ending Given
  | .switch s => g.turnOn argument s
  | .help => .error .help
  | .version => .error .version
  | .root => .error (.misuse (.valueMissing argument))

/-- What is given with the option of a letter. -/
def addLetter (l : Level) (g : Given) (c : Char) : Except Ending Given :=
  let argument := String.ofList ['-', c]
  match l.letter? c with
  | some choice => choose g argument choice
  | none => .error (.misuse (.unknown argument))

/-- What is given with a word. Only one command takes one. -/
def addWord (l : Level) (g : Given) (word : String) : Except Ending Given :=
  match l with
  | .command .init => g.withPath word
  | .start | .command .hashInputs => .error (.misuse (.unknown word))

/-- Help, unless what it is asked about is no command. -/
def helpAbout : List String → Ending
  | [] => .help
  | [word] =>
    if word = helpWord ∨ (CommandName.ofWord? word).isSome then .help else .misuse (.unknown word)
  | _ :: word :: _ => .misuse (.unknown word)

/-- What is given at a level, and the command after it with its arguments. -/
def read (l : Level) (g : Given) :
    List String → Except Ending (Given × Option (CommandName × List String))
  | [] => .ok (g, none)
  | argument :: rest =>
    match Argument.of argument with
    | .stop => (rest.foldlM l.addWord g).map fun g => (g, none)
    | .letters cs => do read l (← cs.foldlM l.addLetter g) rest
    | .word word =>
      if l = .start ∧ word = helpWord then .error (helpAbout rest)
      else match l, CommandName.ofWord? word with
        | .start, some name => .ok (g, some (name, rest))
        | _, _ => do read l (← l.addWord g word) rest
    | .long name value =>
      match l.long? name, value, rest with
      | none, _, _ => .error (.misuse (.unknown argument))
      | some .root, some root, rest => do read l (← g.withRoot argument root) rest
      | some .root, none, [] => .error (.misuse (.valueMissing argument))
      | some .root, none, next :: rest =>
        match Argument.of next with
        | .word root => do read l (← g.withRoot argument root) rest
        | _ => .error (.misuse (.valueMissing argument))
      | some _, some _, _ => .error (.misuse (.valueUnexpected argument))
      | some choice, none, rest => do read l (← choose g argument choice) rest

end Level
end DepLock.CommandLine
