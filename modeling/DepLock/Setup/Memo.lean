import DepLock.Config.Context
import DepLock.Files.Load
import DepLock.Foreign.Analyzer
import DepLock.Solve.Problem

/-!
# The memo of the current project

The memo in a lock tells whether the lock still belongs to the manifest and the sources. The memo of
the project around the working directory is computed from its files alone.
-/

namespace DepLock

/-- Why the memo of a project cannot be computed. -/
inductive MemoError where
  | noProject (directory : String)
  | unknownImportPath (directory : String)
  | load (error : LoadError)
  | listing (directory : String) (error : ListError)
  deriving DecidableEq, Repr

namespace MemoError

/-- The text of an error. -/
def message : MemoError → String
  | noProject directory =>
    s!"could not find {Manifest.fileName} in {directory} or any parent directory"
  | unknownImportPath directory =>
    s!"unable to determine the import path of {directory}; pass `--root`"
  | load error => error.message
  | listing directory _ => s!"failed to list packages in {directory}"

end MemoError

/-- A text without slashes around it. -/
def trimSlashes (s : String) : String := Text.trimStartChar '/' (Text.trimEndChar '/' s)

/-- The problem that the files of the project in a directory pose. -/
def SolveProblem.ofFiles (files : FileTree) (lister : PackageLister)
    (directory importRoot : String) : Except MemoError SolveProblem :=
  match files.loadManifest (Path.join directory Manifest.fileName) with
  | .error e => .error (.load e)
  | .ok manifest => match files.loadLockIfAny (Path.join directory Lock.fileName) with
    | .error e => .error (.load e)
    | .ok lock => match lister directory importRoot with
      | .error e => .error (.listing directory e)
      | .ok tree => .ok { tree, manifest, lock }

namespace Context

/-- The memo of the project around the working directory. The import path of the project is `root`,
or else follows from the search paths. -/
def memo (c : Context) (files : FileTree) (sources : SourceManager) (lister : PackageLister)
    (root : Option String) : Except MemoError String :=
  match c.projectDirectory? files with
  | none => .error (.noProject c.workingDirectory)
  | some directory =>
    match root.map trimSlashes <|> c.importPath? files directory with
    | none => .error (.unknownImportPath directory)
    | some importRoot =>
      (SolveProblem.ofFiles files lister directory importRoot).map fun p =>
        p.memo (.ofFiles files sources c.config.enabledTools)

end Context
end DepLock
