import DepLock.CommandLine.Arguments
import DepLock.Console.Log
import DepLock.Setup.Run

/-!
# Requests

A request is what a command line asks for: a command with its options, or something about the
program. Switches that belong to every command may be given before the command or after it.
-/

namespace DepLock.CommandLine

/-- A command with its options. -/
inductive Command where
  | init (options : SetupOptions) (isOffline : Bool)
  | hashInputs (root : Option String)

/-- A command, and how much is shown of what it has to say. -/
structure Request where
  command : Command
  verbosity : Verbosity

/-- Whether the switches of a level go together. -/
def Given.check (g : Given) : Except Ending Unit :=
  if .verbose ∈ g.switches ∧ .quiet ∈ g.switches then .error (.misuse .verboseAndQuiet) else .ok ()

/-- Whether the network is done without, by a switch or by a variable of the environment. -/
def Given.isOffline (g : Given) (setting : Option String) : Except Ending Bool :=
  if .offline ∈ g.switches then .ok true
  else match setting with
    | none | some "false" => .ok false
    | some "true" => .ok true
    | some value => .error (.misuse (.notBoolean value))

/-- A command with what is given for it. -/
def Command.of (g : Given) (offlineSetting : Option String) : CommandName → Except Ending Command
  | .hashInputs => .ok (.hashInputs g.root)
  | .init => (g.isOffline offlineSetting).map fun isOffline =>
    .init { path := g.path.getD ".", root := g.root, skipsTools := .skipTools ∈ g.switches } isOffline

/-- The request that some arguments make. -/
def Request.of (arguments : List String) (offlineSetting : Option String) :
    Except Ending Request := do
  let (before, command) ← Level.start.read {} arguments
  match command with
  | none => .error (.misuse .noCommand)
  | some (name, rest) =>
    let (after, _) ← (Level.command name).read {} rest
    let command ← Command.of after offlineSetting name
    after.check
    before.check
    let isOn (s : Switch) : Bool := s ∈ before.switches ++ after.switches
    .ok { command, verbosity := .ofFlags (isOn .quiet) (isOn .verbose) }

end DepLock.CommandLine
