import DepLock.Order.SortedSet
import DepLock.Solve.Problem
import DepLock.Solve.Selection
import DepLock.Workspace

/-!
# The solver

The solver works through a queue of projects. The first time a project comes up, a version is
selected for it, and if it is checked out, the demands of its own manifest join those on other
projects. Each time it comes up, the imports of the packages used from its checkout are required;
a project that was settled before is queued again when one of its packages is required anew. There
is no backtracking: a demand that rejects a version already chosen ends the solve.

`Solver.run` takes a budget of queue entries; `none` means that the budget was too small.
-/

namespace DepLock

/-- What is asked of one project: where to fetch it, the demands on its version, and the packages
that are imported from it. -/
structure Requirement where
  source : Option String := none
  demands : List Demand := []
  packages : List String := []
  deriving DecidableEq

namespace Requirement

/-- The requirement joined by the rule of a manifest. The first source stays. -/
def join (r : Requirement) (requiredBy : String) (rule : ProjectRule) : Requirement where
  source := r.source.or rule.source
  demands := if rule.constraint.isAny then r.demands else r.demands ++ [⟨requiredBy, rule.constraint⟩]
  packages := r.packages

end Requirement

/-- A solve in progress. -/
structure SolveState where
  requirements : SortedMap ProjectRoot Requirement := ∅
  queue : List ProjectRoot := []
  chosen : SortedMap ProjectRoot (ProjectId × Version) := ∅
  /-- The packages whose imports were required. -/
  followed : SortedSet String := ∅
  log : Log := []

/-- The end of a solve without a solution. -/
structure SolveFailure where
  error : SolveError
  log : Log

namespace SolveState

/-- The state in which a project is required; it is queued the first time. -/
def require (s : SolveState) (root : ProjectRoot) : SolveState :=
  if s.requirements.contains root then s
  else { s with requirements := s.requirements.insert root {}, queue := s.queue ++ [root] }

/-- The state in which the requirement on a project, if there is one, is changed by `f`. -/
def modify (s : SolveState) (root : ProjectRoot) (f : Requirement → Requirement) : SolveState :=
  match s.requirements.get? root with
  | none => s
  | some r => { s with requirements := s.requirements.insert root (f r) }

/-- The packages required of a project. -/
def packages (s : SolveState) (root : ProjectRoot) : List String :=
  ((s.requirements.get? root).map (·.packages)).getD []

/-- The state in which a package of a project is required. -/
def requirePackage (s : SolveState) (root : ProjectRoot) (rel : String) : SolveState :=
  (s.require root).modify root fun r => { r with packages := insertSorted rel r.packages }

/-- The packages used from a project: those required, or else those that the lock records. -/
def usedPackages (s : SolveState) (lock : Lock) (root : ProjectRoot) : List String :=
  match s.packages root with
  | [] => ((lock.get? root).map (·.packages)).getD []
  | packages => packages

/-- The failure that a state runs into. -/
def fail (s : SolveState) (error : SolveError) : SolveFailure := ⟨error, s.log⟩

end SolveState

/-- What a solver works with. Without a lister it does not follow imports. -/
structure Solver where
  sources : SourceManager
  workspace : Workspace
  analyzer : Analyzer
  lister : Option PackageLister

namespace Solver

/-- The state in which the imports of the problem are required. -/
def requireImports (sv : Solver) (p : SolveProblem) :
    List String → SolveState → Except SolveFailure SolveState
  | [], s => .ok s
  | path :: paths, s =>
    if p.root.contains path then sv.requireImports p paths s
    else match sv.sources.deduceRoot path with
      | .error cause => .error (s.fail (.deduceRoot path cause))
      | .ok root => sv.requireImports p paths (s.requirePackage root (root.relative path))

/-- The state in which the projects of a lock are required, too, at the source that is locked. -/
def requireLocked (lock : Lock) (s : SolveState) : SolveState :=
  lock.projects.foldl (fun s q =>
    if s.requirements.contains q.root then s
    else (s.require q.root).modify q.root fun r => { r with source := q.id.source }) s

/-- The state in which the manifest's constraints join the requirements that there are. -/
def joinConstraints (p : SolveProblem) (s : SolveState) : SolveState :=
  p.manifest.constraints.toList.foldl (fun s (root, rule) =>
    s.modify root fun r => r.join p.root.text rule) s

/-- The state from which the queue is worked through. -/
def start (sv : Solver) (p : SolveProblem) : Except SolveFailure SolveState :=
  (sv.requireImports p p.externalImports {}).map fun s =>
    joinConstraints p (requireLocked p.lock s)

/-- The demands on a project and its id: an override replaces all other demands. -/
def effective (p : SolveProblem) (root : ProjectRoot) (r : Requirement) : ProjectId × List Demand :=
  match p.manifest.overrides.get? root with
  | some o =>
    (.withSource root (o.source.or r.source),
      if o.constraint.isAny then [] else [⟨p.root.text, o.constraint⟩])
  | none => (.withSource root r.source, r.demands)

/-- The state in which the rules of the manifest of a dependency are taken into account. -/
def joinRules (p : SolveProblem) (root : ProjectRoot) :
    List (ProjectRoot × ProjectRule) → SolveState → Except SolveFailure SolveState
  | [], s => .ok s
  | (dep, rule) :: rules, s =>
    if dep = p.root ∨ dep = root then joinRules p root rules s
    else match s.chosen.get? dep with
      | some (id, version) =>
        if p.manifest.overrides.contains dep || rule.constraint.admits version then
          joinRules p root rules s
        else
          let demands := ((s.requirements.get? dep).map (·.demands)).getD []
          .error (s.fail (.noMatchingVersion id.root (demands ++ [⟨root.text, rule.constraint⟩])
            [version]))
      | none =>
        joinRules p root rules ((s.require dep).modify dep fun r => r.join root.text rule)

/-- The state in which the manifest of a checked-out dependency is taken into account. -/
def followManifest (sv : Solver) (p : SolveProblem) (root : ProjectRoot) (directory : String)
    (s : SolveState) : Except SolveFailure SolveState :=
  let derivation := sv.analyzer.derive directory root
  let s := { s with log := s.log ++ derivation.log }
  match derivation.result with
  | none => .ok s
  | some (manifest, _) => joinRules p root manifest.constraints.toList s

/-- The packages among the used ones that were not followed yet, with the set of all that were. -/
def newlyUsed (root : ProjectRoot) (rels : List String) (followed : SortedSet String) :
    List String × SortedSet String :=
  rels.foldl (fun (acc, followed) rel =>
    let path := root.absolute rel
    if followed.contains path then (acc, followed) else (acc ++ [path], followed.add path))
    ([], followed)

/-- The imports of some packages of a project that may lie in other projects. -/
def importsOf (reach : ReachMap) (paths : List String) : List String :=
  sortDedup <| paths.flatMap fun path => match reach.get? path with
    | some e => e.external.filter fun i => !ImportPath.isStandard i
    | none => []

/-- The state in which imports of a project are required. A settled project of which a package is
required anew is queued again. -/
def requireFrom (sv : Solver) (p : SolveProblem) (root : ProjectRoot) :
    List String → SolveState → Except SolveFailure SolveState
  | [], s => .ok s
  | path :: paths, s =>
    if p.root.contains path || root.contains path then sv.requireFrom p root paths s
    else match sv.sources.deduceRoot path with
      | .error cause => .error (s.fail (.deduceRoot path cause))
      | .ok dep =>
        let rel := dep.relative path
        let again := s.chosen.contains dep && rel ∉ s.packages dep
        let s := s.requirePackage dep rel
        sv.requireFrom p root paths (if again then { s with queue := s.queue ++ [dep] } else s)

/-- The state in which the imports of the packages used from a checkout are required. -/
def followImports (sv : Solver) (p : SolveProblem) (lister : PackageLister) (root : ProjectRoot)
    (directory : String) (s : SolveState) : Except SolveFailure SolveState :=
  let reach : ReachMap := match lister directory root.text with
    | .ok tree => tree.importReach
    | .error _ => ∅
  let (paths, followed) := newlyUsed root (s.usedPackages p.lock root) s.followed
  sv.requireFrom p root (importsOf reach paths) { s with followed }

/-- The state in which a version is chosen for a project and its manifest is followed. -/
def settle (sv : Solver) (p : SolveProblem) (root : ProjectRoot) (r : Requirement)
    (s : SolveState) : Except SolveFailure SolveState :=
  let (id, demands) := effective p root r
  match sv.sources.select id demands p.lock with
  | .error e => .error (s.fail e)
  | .ok version =>
    let s := { s with chosen := s.chosen.insert root (id, version) }
    match sv.workspace.directory? root with
    | some directory => sv.followManifest p root directory s
    | none => .ok s

/-- The state after a project came up in the queue. -/
def step (sv : Solver) (p : SolveProblem) (root : ProjectRoot) (s : SolveState) :
    Except SolveFailure SolveState :=
  match s.requirements.get? root with
  | none => .ok s
  | some r => do
    let s ← if s.chosen.contains root then .ok s else sv.settle p root r s
    match sv.lister, sv.workspace.directory? root with
    | some lister, some directory => sv.followImports p lister root directory s
    | _, _ => .ok s

/-- The state in which the queue is empty, if at most `budget` projects come up until then. -/
def run (sv : Solver) (p : SolveProblem) : Nat → SolveState → Option (Except SolveFailure SolveState)
  | budget, s =>
    match s.queue with
    | [] => some (.ok s)
    | root :: queue =>
      match budget with
      | 0 => none
      | budget + 1 =>
        match sv.step p root { s with queue } with
        | .error f => some (.error f)
        | .ok s => sv.run p budget s

/-- The projects that a state has chosen, in the order of their roots. -/
def solution (p : SolveProblem) (s : SolveState) : List LockedProject :=
  s.chosen.toList.map fun (root, id, version) =>
    LockedProject.of id version (s.usedPackages p.lock root)

/-- A solution, or why there is none, and the messages of the solve. -/
structure Outcome where
  result : Except SolveError (List LockedProject)
  log : Log

/-- The outcome of a solve within a budget of queue entries. -/
def solve (sv : Solver) (p : SolveProblem) (budget : Nat) : Option Outcome :=
  match sv.start p with
  | .error f => some ⟨.error f.error, f.log⟩
  | .ok s =>
    (sv.run p budget s).map fun
      | .error f => ⟨.error f.error, f.log⟩
      | .ok s => ⟨.ok (solution p s), s.log⟩

/-- What the checkout of a project contributes to the queue: its external imports, which may
require projects and queue settled ones again, and the rules of its manifest. -/
def contribution (sv : Solver) (root : ProjectRoot) : Nat :=
  match sv.workspace.directory? root with
  | none => 0
  | some directory =>
    let imports := match sv.lister with
      | none => 0
      | some lister => match lister directory root.text with
        | .ok tree => (tree.importReach.externalImports false).length
        | .error _ => 0
    let rules := match (sv.analyzer.derive directory root).result with
      | some (manifest, _) => manifest.constraints.size
      | none => 0
    2 * imports + rules

/-- A budget for a workspace in which only the given projects are checked out. -/
def budget (sv : Solver) (p : SolveProblem) (roots : List ProjectRoot) : Nat :=
  p.externalImports.length + p.lock.projects.length
    + (roots.map sv.contribution).foldr (· + ·) 0

end Solver
end DepLock
