/-!
# Messages to the user

Operations answer with a `Log`, the messages in the order in which they were issued. What of it is
shown depends on the verbosity alone: `Log.render`.
-/

namespace DepLock

/-- How much is shown. -/
inductive Verbosity where
  | quiet
  | normal
  | verbose
  deriving DecidableEq, Repr, Inhabited

namespace Verbosity

/-- The verbosity that two flags ask for; quiet wins. -/
def ofFlags (quiet verbose : Bool) : Verbosity :=
  if quiet then .quiet else if verbose then .verbose else .normal

end Verbosity

/-- What a message is about. -/
inductive Status where
  | chosen
  | locking
  | created
  | finished
  | searching
  | importing
  | resolving
  | info
  | skipped
  | warning
  | error
  deriving DecidableEq, Repr

/-- The word that introduces a message. -/
def Status.label : Status → String
  | chosen => "Using"
  | locking => "Locking"
  | created => "Created"
  | finished => "Finished"
  | searching => "Searching"
  | importing => "Importing"
  | resolving => "Resolving"
  | info => "Info"
  | skipped => "Skipped"
  | warning => "Warning"
  | error => "error"

/-- A message with its status, a message for the verbose only, or a block of text. -/
inductive Message where
  | status (status : Status) (text : String)
  | detail (status : Status) (text : String)
  | block (text : String)
  deriving DecidableEq, Repr

/-- Messages in the order in which they were issued. -/
abbrev Log := List Message

namespace Message

/-- A warning. -/
def warn (text : String) : Message := status .warning text

/-- A piece of information. -/
def note (text : String) : Message := status .info text

/-- An error, which is shown even to the quiet. -/
def error (text : String) : Message := status .error text

/-- The label of a status filled up with spaces on the left to this width. -/
def labelWidth : Nat := 12

/-- A label and a text on a line. -/
def line (s : Status) (text : String) : String :=
  String.ofList (List.replicate (labelWidth - s.label.length) ' ') ++ s.label ++ " " ++ text ++ "\n"

/-- What is shown of a message. -/
def render (v : Verbosity) : Message → String
  | status s text => if v = .quiet ∧ s ≠ .error then "" else line s text
  | detail s text => if v = .verbose then line s text else ""
  | block text => text

end Message

/-- What is shown of a log. -/
def Log.render (v : Verbosity) (log : Log) : String :=
  String.join (log.map (·.render v))

end DepLock
