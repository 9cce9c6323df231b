import DepLock.CommandLine.Run
import DepLock.Git.Metadata

/-!
# The command line

The paths that a run may look at come on the standard input, one to a line, a directory with a slash
at its end. The files among them are read, the run is computed, and the files that it changed are
written.
-/

namespace DepLock.CommandLine

/-- The lines of the standard input. -/
partial def readPaths (input : IO.FS.Stream) (paths : List String) : IO (List String) := do
  let line ← input.getLine
  if line.isEmpty then return paths.reverse
  readPaths input (Text.trim line :: paths)

/-- The files at some paths. -/
def readTree (paths : List String) : IO FileTree :=
  paths.foldlM (fun files path => do
    if Text.endsWith "/" path then return files.place (Path.elements path) .directory
    else return files.place (Path.elements path) (.file (← IO.FS.readBinFile path))) {}

/-- Writes the files that are not as they were. -/
def writeChanges (before after : FileTree) : IO Unit :=
  after.nodes.toList.forM fun (place, node) => match node with
    | .directory => pure ()
    | .file bytes => do
      if before.node? place ≠ some node then IO.FS.writeBinFile (Path.ofElements place) bytes

/-- What a run finds on this machine. -/
def surroundings (files : FileTree) : IO Surroundings := do
  let home := (← IO.getEnv "HOME").getD "/"
  let environment : Environment :=
    { home, dataHome := Path.join home ".cache/wharf"
      ownPath := ← IO.getEnv "WHARF_PATH", goPath := ← IO.getEnv "GOPATH" }
  return { files, environment
           workingDirectory := (← IO.getEnv "PWD").getD "/"
           offlineSetting := ← IO.getEnv "WHARF_OFFLINE"
           repository? := GitRepository.ofFiles? files
           clone? := Clone.ofFiles? files }

end DepLock.CommandLine

open DepLock.CommandLine in
/-- Runs the command line of this process. -/
def main (arguments : List String) : IO UInt32 := do
  let paths ← readPaths (← IO.getStdin) []
  let s ← surroundings (← readTree paths)
  match s.run arguments with
  | none =>
    IO.eprint (errorLine ["the project takes too many steps"])
    return failureCode
  | some after =>
    writeChanges s.files after.files
    IO.print after.output
    IO.eprint after.errors
    return after.exitCode
