import DepLock.CommandLine.Request
import DepLock.Git.Cache
import DepLock.Git.Checkout
import DepLock.Package.Listing
import DepLock.Setup.Chain

/-!
# Running a command line

A run finds files, repositories and an environment, and leaves texts, files and an exit code. Both
the messages and a last line about an error go to the text for errors; only what was asked for goes
to the output.
-/

namespace DepLock.CommandLine

/-- What a run finds: files, the environment and the working directory, whether the environment asks
to do without the network, and the repositories and clones in directories. -/
structure Surroundings where
  files : FileTree
  environment : Environment
  workingDirectory : String
  offlineSetting : Option String := none
  repository? : String → Option GitRepository
  clone? : String → Option Clone
  remotes : Remotes := fun _ => none

/-- What a run leaves. -/
structure Aftermath where
  exitCode : UInt32
  output : String := ""
  errors : String := ""
  files : FileTree

/-- The line about an error that ends a run. -/
def errorLine (chain : List String) : String := "error: " ++ ": ".intercalate chain ++ "\n"

/-- The exit code of a run that an error ended. -/
def failureCode : UInt32 := 1

/-- The exit code of a run whose arguments are not understood. -/
def usageCode : UInt32 := 2

namespace Surroundings

/-- The context of a run. -/
def context (s : Surroundings) : Context := .of s.files s.environment s.workingDirectory

/-- What is known of projects from the clones in the cache. -/
def sources (s : Surroundings) (c : Context) : SourceManager :=
  (CloneCache.ofFiles s.files s.clone? c.cacheDirectory c.config.isOffline).sources s.remotes

/-- Sets up a project. -/
def init (s : Surroundings) (verbosity : Verbosity) (options : SetupOptions) (isOffline : Bool) :
    Option Aftermath :=
  let c := s.context
  let c := { c with config := { c.config with isOffline := isOffline || c.config.isOffline } }
  let sources := s.sources c
  let setup : Setup :=
    { context := c, sources, lister := s.files.listPackages
      workspace := .ofSearchPaths s.files s.repository? c.searchPaths }
  (setup.run s.files options (Setup.budget s.files)).map fun o =>
    let told := (o.log ++ Discovery.syncWarnings sources o.synced).render verbosity
    match o.result with
    | .ok _ => { exitCode := 0, errors := told, files := o.files }
    | .error e => { exitCode := failureCode, errors := told ++ errorLine e.chain, files := o.files }

/-- Prints the memo of the project around the working directory. -/
def hashInputs (s : Surroundings) (root : Option String) : Aftermath :=
  let c := s.context
  match c.memo s.files (s.sources c) s.files.listPackages root with
  | .ok memo => { exitCode := 0, output := memo ++ "\n", files := s.files }
  | .error e => { exitCode := failureCode, errors := errorLine e.chain, files := s.files }

/-- What is printed for help. -/
def usage : String := String.join <| [
  "Usage: [OPTIONS] COMMAND",
  "Commands:",
  "  init [--root IMPORT_PATH] [--skip-tools] [--offline] [PATH]",
  "  hash-inputs [--root IMPORT_PATH]",
  "Options: -v --verbose, -q --quiet, --no-color, -h --help, -V --version"].map (· ++ "\n")

/-- What is printed for the version. -/
def versionText : String := "0.1.0\n"

/-- Runs a command line, unless setting up takes more steps than its budget allows. -/
def run (s : Surroundings) (arguments : List String) : Option Aftermath :=
  match Request.of arguments s.offlineSetting with
  | .error .help => some { exitCode := 0, output := usage, files := s.files }
  | .error .version => some { exitCode := 0, output := versionText, files := s.files }
  | .error (.misuse e) =>
    some { exitCode := usageCode, errors := errorLine [e.message], files := s.files }
  | .ok { command := .init options isOffline, verbosity } => s.init verbosity options isOffline
  | .ok { command := .hashInputs root, .. } => some (s.hashInputs root)

end Surroundings
end DepLock.CommandLine
