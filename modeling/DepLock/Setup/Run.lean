import DepLock.Console.Diagnostic
import DepLock.Discovery.Walk
import DepLock.Setup.Memo
import DepLock.Setup.Reconcile
import DepLock.Solve.Solver

/-!
# Setting up a project

A project without a manifest gets one, and a lock. What is checked out in the workspace is
discovered, the files of other tools are laid over it, the result is solved, and the manifest is
brought in line with the solution. Only then are the two files written. An outcome tells how it
ended, the files afterwards, the projects whose synchronization was started, and the messages.
-/

namespace DepLock

/-- What is set up: a directory, the import path of the project if it is given, and whether the
files of other tools are left alone. -/
structure SetupOptions where
  path : String
  root : Option String := none
  skipsTools : Bool := false

/-- What a setup works with. Writing is among it, so that it can fail for reasons of its own. -/
structure Setup where
  context : Context
  sources : SourceManager
  lister : PackageLister
  workspace : Workspace
  write : FileTree → String → String → Except FileFault FileTree := FileTree.write

/-- Why a project cannot be set up. -/
inductive SetupError where
  | unresolved (path : String) (fault : FileFault)
  | alreadyExists (path : String)
  | emptyRoot
  | unknownImportPath (directory : String)
  | listing (directory : String) (error : ListError)
  | discovery (error : DiscoveryError)
  | foreign (error : ImportError)
  | solve (error : SolveError)
  | unwritable (kind : FileKind) (path : String) (fault : FileFault)

namespace SetupError

/-- The text of an error. -/
def message : SetupError → String
  | unresolved path _ => s!"failed to resolve {path}"
  | alreadyExists path => s!"refusing to overwrite {path}"
  | emptyRoot => "the root import path must not be empty"
  | unknownImportPath directory => s!"unable to determine the import path of {directory}"
  | listing directory _ => s!"failed to list packages in {directory}"
  | discovery _ => "failed to discover dependencies"
  | foreign _ => "failed to import legacy configuration"
  | solve _ => "failed to solve dependencies"
  | unwritable kind path _ => s!"failed to write {kind.word}: {path}"

/-- What can be done about a project that has a manifest or a lock already. -/
def startOver : String := "Remove the existing Wharf.toml and Wharf.lock to start over"

/-- What can be done about a project that is in no search path. -/
def passRoot : String := "Pass the project's import path with `--root`, or set WHARF_PATH"

/-- What the user is told about an error besides its text. -/
def diagnostic? : SetupError → Option Diagnostic
  | alreadyExists path => some { message := s!"{path} already exists", suggestions := [startOver] }
  | unknownImportPath directory =>
    some { message := s!"{directory} is not inside any workspace search root"
           suggestions := [passRoot] }
  | solve error => some error.toDiagnostic
  | _ => none

end SetupError

/-- How a setup ended, the files afterwards, the projects whose synchronization was started, and the
messages. -/
structure SetupOutcome where
  result : Except SetupError (Manifest × Lock)
  files : FileTree
  synced : List ProjectRoot := []
  log : Log := []

namespace SetupOutcome

/-- A setup that failed and left the files as they were. -/
def failed (files : FileTree) (synced : List ProjectRoot) (log : Log) (e : SetupError) :
    SetupOutcome :=
  let told := e.diagnostic?.map Diagnostic.toMessage
  { result := .error e, files, synced, log := log ++ told.toList }

end SetupOutcome

/-- A manifest and a lock to start solving from, with the messages so far. -/
structure Draft where
  manifest : Manifest
  lock : Lock
  log : Log

namespace Setup

/-- The messages about the checked-out dependencies: first the constraints on direct ones, then the
locked versions. -/
def discoveredLog (d : ProjectData) : Log :=
  (d.constraints.toList.map fun (root, rule) =>
      (Feedback.ofConstraint root rule.constraint .direct).toMessage)
    ++ d.lock.projects.map fun p =>
      let kind : DependencyKind := if d.constraints.contains p.root then .direct else .transitive
      (Feedback.ofLocked p kind).toMessage

/-- The directory to set up, in which there must be neither a manifest nor a lock. -/
def directory (s : Setup) (files : FileTree) (options : SetupOptions) : Except SetupError String := do
  let directory ← match files.canonical (Path.join s.context.workingDirectory options.path) with
    | .ok directory => .ok directory
    | .error fault => .error (.unresolved options.path fault)
  let existing := [Manifest.fileName, Lock.fileName].map (Path.join directory)
  match existing.find? files.holds with
  | some path => .error (.alreadyExists path)
  | none => .ok directory

/-- The import path of the project in a directory. -/
def importRoot (s : Setup) (files : FileTree) (options : SetupOptions) (directory : String) :
    Except SetupError String :=
  match options.root with
  | some root =>
    let root := trimSlashes root
    if root = "" then .error .emptyRoot else .ok root
  | none => match s.context.importPath? files directory with
    | some path => .ok path
    | none => .error (.unknownImportPath directory)

/-- What was discovered, with what the files of other tools say laid over it. -/
def draft (s : Setup) (files : FileTree) (options : SetupOptions) (directory : String)
    (tree : PackageTree) (d : ProjectData) : Except (ImportError × Log) Draft :=
  let log := discoveredLog d
  if options.skipsTools then .ok ⟨d.manifest, d.lock, log⟩
  else
    let i := importForeign files s.sources s.context.config.enabledTools directory tree.projectRoot
    let log := log ++ i.log
    match i.result with
    | .error e => .error (e, log)
    | .ok none => .ok ⟨d.manifest, d.lock, log⟩
    | .ok (some (m, l)) => .ok ⟨d.manifest.merge m, d.lock.merge l, log⟩

/-- The analyzer for checked-out dependencies. -/
def analyzer (s : Setup) (files : FileTree) : Analyzer :=
  .ofFiles files s.sources s.context.config.enabledTools

/-- The solver. -/
def solver (s : Setup) (files : FileTree) : Solver :=
  { sources := s.sources, workspace := s.workspace, analyzer := s.analyzer files
    lister := some s.lister }

/-- The manifest and the lock that come from a solution, and the messages about them. The memo of the
lock is that of the manifest as it is written. -/
def settle (s : Setup) (files : FileTree) (tree : PackageTree) (d : ProjectData) (draft : Draft)
    (solution : List LockedProject) : Manifest × Lock × Log :=
  let (manifest, log) := draft.manifest.reconcile d draft.lock solution
  let lock := Lock.ofProjects solution
  let problem : SolveProblem := { tree, manifest, lock }
  (manifest, { lock with memo := problem.memo (s.analyzer files) }, log)

/-- The files with a manifest and a lock written to a directory. If the second cannot be written, the
first is there already. -/
def save (s : Setup) (files : FileTree) (directory : String) (m : Manifest) (l : Lock) :
    Except SetupError Unit × FileTree :=
  let manifestPath := Path.join directory Manifest.fileName
  let lockPath := Path.join directory Lock.fileName
  match s.write files manifestPath m.render with
  | .error fault => (.error (.unwritable .manifest manifestPath fault), files)
  | .ok files => match s.write files lockPath l.renderFile with
    | .error fault => (.error (.unwritable .lock lockPath fault), files)
    | .ok files => (.ok (), files)

/-- The message that the files are written. -/
def createdMessage (directory : String) : Message :=
  .status .created s!"{Manifest.fileName} and {Lock.fileName} in {directory}"

/-- The end of a setup, from the discovered dependencies on. -/
def finish (s : Setup) (files : FileTree) (options : SetupOptions) (directory : String)
    (tree : PackageTree) (budget : Nat) (synced : List ProjectRoot) (log : Log)
    (d : ProjectData) : Option SetupOutcome :=
  match s.draft files options directory tree d with
  | .error (e, more) => some (.failed files synced (log ++ more) (.foreign e))
  | .ok draft =>
    let log := log ++ draft.log ++ [.status .resolving "dependencies"]
    let problem : SolveProblem := { tree, manifest := draft.manifest, lock := draft.lock }
    ((s.solver files).solve problem budget).map fun o =>
      let log := log ++ o.log
      match o.result with
      | .error e => .failed files synced log (.solve e)
      | .ok solution =>
        let (manifest, lock, more) := s.settle files tree d draft solution
        let log := log ++ more
        match s.save files directory manifest lock with
        | (.error e, files) => .failed files synced log e
        | (.ok (), files) =>
          { result := .ok (manifest, lock), files, synced
            log := log ++ [createdMessage directory] }

/-- The setup of a project, unless it takes more steps than a budget allows. -/
def run (s : Setup) (files : FileTree) (options : SetupOptions) (budget : Nat) :
    Option SetupOutcome :=
  match s.directory files options with
  | .error e => some (.failed files [] [] e)
  | .ok directory => match s.importRoot files options directory with
    | .error e => some (.failed files [] [] e)
    | .ok importRoot => match s.lister directory importRoot with
      | .error e => some (.failed files [] [] (.listing directory e))
      | .ok tree =>
        let discovery : Discovery :=
          { sources := s.sources, lister := s.lister, workspace := s.workspace }
        match discovery.discover tree budget with
        | none => none
        | some o => match o.result with
          | .error e => some (.failed files o.synced o.log (.discovery e))
          | .ok d => s.finish files options directory tree budget o.synced o.log d

/-- A budget for a setup whose collaborators know no more than what is in the files: an import, a
rule or a locked project takes at least a byte, and counts once for each project that a byte can
name. -/
def budget (files : FileTree) : Nat :=
  4 * ((files.byteCount + 2) * (files.byteCount + 2))

end Setup
end DepLock
