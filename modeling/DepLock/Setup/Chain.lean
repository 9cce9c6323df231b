import DepLock.Setup.Run

/-!
# Chains of causes

An error that was caused by another is told together with it. The chain of an error is its text
followed by the texts of its causes, the nearest first. What a reader of a data format says about a
text that it refuses is left out.
-/

namespace DepLock

/-- The texts of a source error and of its cause. -/
def SourceError.chain (e : SourceError) : List String :=
  e.message :: match e with
    | fileSystem _ cause => [cause]
    | _ => []

/-- The text of a list error. -/
def ListError.chain (e : ListError) : List String := [e.message]

/-- The texts of a load error and of its cause. -/
def LoadError.chain (e : LoadError) : List String :=
  e.message :: match e with
    | unreadable _ _ fault => [fault.message]
    | malformed _ _ (.content reason) => [reason]
    | malformed _ _ .syntaxError => []

/-- The texts of an import error and of its causes. -/
def ImportError.chain (e : ImportError) : List String :=
  e.message :: match e with
    | unreadable _ fault => [fault.message]
    | unknownRoot _ cause => cause.chain
    | missingField _ _ _ | unparsable _ => []

/-- The texts of a discovery error and of its causes. -/
def DiscoveryError.chain (e : DiscoveryError) : List String :=
  e.message :: match e with
    | deduceRoot _ cause => cause.chain
    | importCycle _ => []

/-- The texts of a solve error and of its causes. -/
def SolveError.chain (e : SolveError) : List String :=
  e.message :: match e with
    | deduceRoot _ cause | listVersions _ cause => cause.chain
    | noMatchingVersion _ _ _ => []

/-- The texts of a memo error and of its causes. -/
def MemoError.chain (e : MemoError) : List String :=
  match e with
  | load error => error.chain
  | listing _ error => e.message :: error.chain
  | noProject _ | unknownImportPath _ => [e.message]

/-- The texts of a setup error and of its causes. -/
def SetupError.chain (e : SetupError) : List String :=
  e.message :: match e with
    | unresolved _ fault | unwritable _ _ fault => [fault.message]
    | listing _ error => error.chain
    | discovery error => error.chain
    | foreign error => error.chain
    | solve error => error.chain
    | alreadyExists _ | emptyRoot | unknownImportPath _ => []

end DepLock
