import DepLock.Discovery.Data
import DepLock.Feedback

/-!
# Bringing a manifest in line with a solution

A solution may contain projects that were not locked before. Those that the project imports directly
and that are not checked out get a constraint that their version implies, unless there is one. A
constraint on a project that is not in the solution is dropped.
-/

namespace DepLock

namespace ProjectData

/-- Whether a project was added by the solver as a direct dependency. -/
def isNewDirect (d : ProjectData) (root : ProjectRoot) : Bool :=
  d.notOnDisk.contains root && d.direct.contains root

end ProjectData

namespace Manifest

/-- The constraint that an added project gets. -/
def impliedRule? (d : ProjectData) (m : Manifest) (p : LockedProject) : Option ProjectRule :=
  if d.isNewDirect p.root && !m.constraints.contains p.root then
    (Constraint.ofVersion? p.version).map fun c => .withSource c p.id.source
  else none

/-- The manifest with the constraint that an added project gets, and the messages about it. -/
def addProject (d : ProjectData) (m : Manifest) (p : LockedProject) : Manifest × Log :=
  let kind : DependencyKind := if d.isNewDirect p.root then .direct else .transitive
  let locked := (Feedback.ofLocked p kind).toMessage
  match m.impliedRule? d p with
  | none => (m, [locked])
  | some rule =>
    ({ m with constraints := m.constraints.insert p.root rule },
      [(Feedback.ofConstraint p.root rule.constraint .direct).toMessage, locked])

/-- The manifest with the constraints that added projects get, and the messages about them. -/
def addProjects (d : ProjectData) : List LockedProject → Manifest → Manifest × Log
  | [], m => (m, [])
  | p :: ps, m =>
    let (m, log) := m.addProject d p
    let (m, more) := addProjects d ps m
    (m, log ++ more)

/-- The manifest without the constraints on projects that are not in a solution. -/
def prune (m : Manifest) (solution : List LockedProject) : Manifest :=
  { m with constraints := m.constraints.filter fun root _ => solution.any (·.root = root) }

/-- The manifest in line with the solution that was found with a lock, and the messages about the
projects that the lock did not have. -/
def reconcile (m : Manifest) (d : ProjectData) (before : Lock) (solution : List LockedProject) :
    Manifest × Log :=
  let added := solution.filter fun p => !before.contains p.root
  let (m, log) := addProjects d added m
  (m.prune solution, log)

end Manifest
end DepLock
