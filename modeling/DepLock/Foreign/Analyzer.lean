import DepLock.Files.Load
import DepLock.Foreign.Import
import DepLock.Solve.Problem

/-!
# What a checked-out project declares

A project that has a manifest of its own declares what that says. Otherwise the files of other tools
count.
-/

namespace DepLock

/-- Why it cannot be told what a project declares. -/
inductive DeclarationError where
  | load (error : LoadError)
  | foreign (error : ImportError)
  deriving DecidableEq, Repr

/-- What a project declares, if anything. -/
structure Declaration where
  result : Except DeclarationError (Option (Manifest × Lock))
  log : Log := []

namespace Declaration

/-- The manifest and the lock of a project that has a manifest. -/
def ofOwnFiles (files : FileTree) (directory : String) :
    Except LoadError (Manifest × Lock) := do
  let manifest ← files.loadManifest (Path.join directory Manifest.fileName)
  let lock ← files.loadLockIfAny (Path.join directory Lock.fileName)
  .ok (manifest, lock)

/-- What the project in a directory declares. -/
def of (files : FileTree) (sm : SourceManager) (enabled : List String) (directory : String)
    (root : ProjectRoot) : Declaration :=
  if files.isFile (Path.join directory Manifest.fileName) then
    match ofOwnFiles files directory with
    | .ok pair => ⟨.ok (some pair), []⟩
    | .error e => ⟨.error (.load e), []⟩
  else
    let i := importForeign files sm enabled directory root
    match i.result with
    | .ok pair => ⟨.ok pair, i.log⟩
    | .error e => ⟨.error (.foreign e), i.log⟩

/-- What can be used of a declaration; one that cannot be told counts as none. -/
def toDerivation (d : Declaration) : Derivation where
  result := match d.result with
    | .ok pair => pair
    | .error _ => none
  log := d.log

end Declaration

/-- The analyzer that goes by the files of checked-out projects. -/
def Analyzer.ofFiles (files : FileTree) (sm : SourceManager) (enabled : List String) : Analyzer where
  name := "wharf"
  version := 1
  derive := fun directory root => (Declaration.of files sm enabled directory root).toDerivation

end DepLock
