import DepLock.Console.Log
import DepLock.Discovery.Data
import DepLock.Package.Reach
import DepLock.Source.Manager
import DepLock.Workspace

/-!
# The walk through checked-out dependencies

Discovery classifies the direct imports of a project and then follows each of them depth first
through the packages of checked-out projects. A package is grey while the walk is in its imports and
black afterwards, so that an import of a grey package is a cycle. The sources of every project that
is seen are to be synchronized; `Walk.synced` lists the projects in the order of their dispatch.

`Discovery.visit` takes a budget of nested packages; `none` means that the budget was too small.
-/

namespace DepLock

/-- Why discovery fails. -/
inductive DiscoveryError where
  | importCycle (package : String)
  | deduceRoot (path : String) (cause : SourceError)
  deriving DecidableEq, Repr

/-- The text of an error. -/
def DiscoveryError.message : DiscoveryError → String
  | importCycle package => s!"import cycle detected on `{package}`"
  | deduceRoot path _ => s!"could not determine the project root of `{path}`"

/-- The code under which an error is documented. -/
def DiscoveryError.code : DiscoveryError → String
  | importCycle _ => "wharf::discovery::import_cycle"
  | deduceRoot _ _ => "wharf::discovery::deduce_root"

/-- What to do about an error. -/
def DiscoveryError.help? : DiscoveryError → Option String
  | importCycle _ => some "Break the cycle by restructuring the packages involved"
  | deduceRoot _ _ => none

/-- How far the walk is with a package. -/
inductive Color where
  | grey
  | black
  deriving DecidableEq, Repr

/-- A listed checkout. -/
structure Checkout where
  version : Version
  reach : ReachMap
  faults : SortedMap String PackageFault

/-- A walk in progress. -/
structure Walk where
  data : ProjectData := {}
  colors : SortedMap String Color := ∅
  checkouts : SortedMap ProjectRoot Checkout := ∅
  synced : List ProjectRoot := []
  log : Log := []

/-- The end of a walk by an error. -/
structure WalkFailure where
  error : DiscoveryError
  walk : Walk

namespace Walk

/-- The walk in which a package has a color. -/
def paint (w : Walk) (path : String) (c : Color) : Walk :=
  { w with colors := w.colors.insert path c }

/-- The walk in which the source of a project is dispatched for synchronization. -/
def sync (w : Walk) (root : ProjectRoot) : Walk :=
  if root ∈ w.synced then w else { w with synced := w.synced ++ [root] }

/-- The walk in which a used path is recorded. -/
def record (w : Walk) (root : ProjectRoot) (path : String) : Walk :=
  { w with data := w.data.record root path }

/-- The walk in which a project has no usable checkout. -/
def markNotOnDisk (w : Walk) (root : ProjectRoot) : Walk :=
  { w with data := w.data.markNotOnDisk root }

/-- The walk with a message issued. -/
def tell (w : Walk) (m : Message) : Walk :=
  { w with log := w.log ++ [m] }

end Walk

/-- What discovery works with. -/
structure Discovery where
  sources : SourceManager
  lister : PackageLister
  workspace : Workspace

namespace Discovery

/-- The root of the project that owns a path, or the failure of the walk. -/
def deduce (d : Discovery) (w : Walk) (path : String) : Except WalkFailure ProjectRoot :=
  match d.sources.deduceRoot path with
  | .ok root => .ok root
  | .error cause => .error ⟨.deduceRoot path cause, w⟩

/-- The walk in which a project that is imported directly has been looked up in the workspace. -/
def classifyRoot (d : Discovery) (w : Walk) (root : ProjectRoot) : Walk :=
  match d.workspace.version root with
  | .resolved version =>
    let data := w.data
    let constraints := match Constraint.ofVersion? version with
      | some c => data.constraints.insert root { constraint := c }
      | none => data.constraints
    let w := w.tell (.detail .info s!"found {root.text} at {version.render} in workspace")
    { w with data := { data with constraints, onDisk := data.onDisk.insert root version } }
  | .absent =>
    let w := w.tell (.detail .info s!"{root.text} not found in workspace")
    { w with data := { w.data with notOnDisk := w.data.notOnDisk.add root } }
  | .unknown reason =>
    let w := w.tell (.detail .info s!"could not determine version of {root.text}: {reason}")
    { w with data := { w.data with notOnDisk := w.data.notOnDisk.add root } }

/-- The walk in which a direct import is recorded and its project, when it is new, looked up. -/
def classify (d : Discovery) (w : Walk) (path : String) : Except WalkFailure Walk :=
  match d.deduce w path with
  | .error f => .error f
  | .ok root =>
    let w := { w with data := { w.data with direct := w.data.direct.add root } }
    if w.data.dependencies.contains root then .ok (w.record root path)
    else .ok (d.classifyRoot ((w.sync root).record root path) root)

/-- The walk in which all direct imports are classified. -/
def classifyAll (d : Discovery) : Walk → List String → Except WalkFailure Walk
  | w, [] => .ok w
  | w, path :: paths =>
    match d.classify w path with
    | .error f => .error f
    | .ok w => d.classifyAll w paths

/-- The walk in which the checkout of a project is listed, or in which the project has no usable
checkout. -/
def load (d : Discovery) (w : Walk) (root : ProjectRoot) : Walk × Option Checkout :=
  match d.workspace.directory? root with
  | none => (w.markNotOnDisk root, none)
  | some directory =>
    match (w.data.onDisk.get? root).or (d.workspace.version root).version? with
    | none => (w.markNotOnDisk root, none)
    | some version =>
      match d.lister directory root.text with
      | .error e =>
        let w := w.tell (.warn s!"Unable to list packages of {root.text}: {e.message}")
        (w.markNotOnDisk root, none)
      | .ok tree =>
        let (reach, faults) := tree.reach { mains := true, tests := false, propagate := false }
        let checkout : Checkout := { version, reach, faults }
        ({ w with checkouts := w.checkouts.insert root checkout }, some checkout)

/-- The checkout of a project, listed when it comes up first. -/
def checkout (d : Discovery) (w : Walk) (root : ProjectRoot) : Walk × Option Checkout :=
  if w.data.notOnDisk.contains root then (w, none)
  else match w.checkouts.get? root with
    | some c => (w, some c)
    | none => d.load w root

/-- The imports of a package of a checkout that may lie in other projects; a package that is
missing or at fault has none. -/
def Checkout.imports? (c : Checkout) (path : String) : Option (List String) :=
  match c.reach.get? path with
  | some e =>
    if c.faults.contains path then none
    else some (e.external.filter fun i => !ImportPath.isStandard i)
  | none => none

/-- What to do at a package: nothing more, or to follow its imports. The package is painted black in
the first case and grey in the second. -/
def enter (d : Discovery) (home : ProjectRoot) (w : Walk) (path : String) :
    Except WalkFailure (Walk × Option (List String)) :=
  match w.colors.get? path with
  | some .black => .ok (w, none)
  | some .grey => .error ⟨.importCycle path, w⟩
  | none =>
    if home.contains path then .ok (w.paint path .black, none)
    else
      let w := w.paint path .grey
      match d.deduce w path with
      | .error f => .error f
      | .ok root =>
        match d.checkout (w.sync root) root with
        | (w, none) => .ok ((w.record root path).paint path .black, none)
        | (w, some c) =>
          match Checkout.imports? c path with
          | none => .ok (w.paint path .black, none)
          | some imports =>
            let onDisk := if w.data.onDisk.contains root then w.data.onDisk
              else w.data.onDisk.insert root c.version
            let w := { w with data := { w.data with onDisk } }
            .ok (w.record root path, some imports)

/-- The walk after each of some packages is visited. -/
def visitEach (visit : Walk → String → Option (Except WalkFailure Walk)) :
    Walk → List String → Option (Except WalkFailure Walk)
  | w, [] => some (.ok w)
  | w, path :: paths =>
    match visit w path with
    | some (.ok w) => visitEach visit w paths
    | stopped => stopped

/-- The walk after a package is visited with all that is imported from it, if at most `budget`
packages are nested. -/
def visit (d : Discovery) (home : ProjectRoot) :
    Nat → Walk → String → Option (Except WalkFailure Walk)
  | 0, _, _ => none
  | budget + 1, w, path =>
    match d.enter home w path with
    | .error f => some (.error f)
    | .ok (w, none) => some (.ok w)
    | .ok (w, some imports) =>
      (visitEach (d.visit home budget) w imports).map fun r => r.map (·.paint path .black)

/-- The data of a walk or the error that ended it, the projects dispatched for synchronization, and
the messages. -/
structure Outcome where
  result : Except DiscoveryError ProjectData
  synced : List ProjectRoot
  log : Log

namespace Outcome

/-- The outcome of a walk. -/
def ofWalk : Except WalkFailure Walk → Outcome
  | .ok w => ⟨.ok w.data.normalize, w.synced, w.log⟩
  | .error f => ⟨.error f.error, f.walk.synced, f.walk.log⟩

end Outcome

/-- The warnings for the projects whose synchronization fails. They are issued in no particular
order, as synchronization goes on beside the walk. -/
def syncWarnings (sources : SourceManager) (synced : List ProjectRoot) : Log :=
  synced.filterMap fun root =>
    let id : ProjectId := ⟨root, none⟩
    match sources.sync id with
    | .ok _ => none
    | .error e => some (.warn s!"Unable to cache {id.render}: {e.message}")

/-- The walk over the direct imports of a project: all are classified, then all are visited. -/
def walk (d : Discovery) (home : ProjectRoot) (direct : List String) (budget : Nat) (w : Walk) :
    Option (Except WalkFailure Walk) :=
  match d.classifyAll w direct with
  | .error f => some (.error f)
  | .ok w => visitEach (d.visit home budget) w direct

/-- The direct imports of a tree: what its packages, commands and tests import from other projects,
without the standard library. -/
def directImports (tree : PackageTree) : List String :=
  (tree.reach { mains := true, tests := true, propagate := false }).1.externalImports false

/-- What there is to know of the dependencies of a tree, if at most `budget` packages are nested in
the walk. -/
def discover (d : Discovery) (tree : PackageTree) (budget : Nat) : Option Outcome :=
  let (reach, _) := tree.reach { mains := true, tests := true, propagate := false }
  if reach.isEmpty then some ⟨.ok {}, [], []⟩
  else
    let direct := directImports tree
    let opening := .status .searching s!"workspace for {direct.length} direct imports"
    (d.walk tree.projectRoot direct budget { log := [opening] }).map Outcome.ofWalk

/-- A budget for a workspace in which only the given projects are checked out: each nested package
is imported by the one before it, and the first by the tree. -/
def budget (d : Discovery) (tree : PackageTree) (roots : List ProjectRoot) : Nat :=
  let imports (root : ProjectRoot) : Nat := match d.workspace.directory? root with
    | none => 0
    | some directory => match d.lister directory root.text with
      | .ok tree => (tree.importReach.externalImports false).length
      | .error _ => 0
  (directImports tree).length + (roots.map imports).foldr (· + ·) 0 + 1

end Discovery
end DepLock
