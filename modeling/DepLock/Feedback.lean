import DepLock.Console.Log
import DepLock.Constraint
import DepLock.Lock.Basic

/-!
# Feedback on dependencies

One event is issued for each dependency: the constraint chosen for it, or the version that it was
locked to.
-/

namespace DepLock

/-- How a dependency came in. -/
inductive DependencyKind where
  | direct
  | transitive
  | imported
  deriving DecidableEq, Repr

namespace DependencyKind

/-- The name of a kind in an event. -/
def name : DependencyKind → String
  | direct => "direct"
  | transitive => "transitive"
  | imported => "imported"

/-- The words for a dependency of a kind. -/
def phrase (k : DependencyKind) : String := k.name ++ " dep"

end DependencyKind

/-- An event about a dependency. A constraint that pins a revision is called a hint. -/
inductive Feedback where
  | constrained (project constraint : String) (isHint : Bool) (kind : DependencyKind)
  | locked (project : String) (version revision : Option String) (kind : DependencyKind)
  deriving DecidableEq, Repr

namespace Feedback

/-- The event for a constraint. -/
def ofConstraint (root : ProjectRoot) (c : Constraint) (kind : DependencyKind) : Feedback :=
  constrained root.text c.render c.isPin kind

/-- The event for a locked project, with the revision shortened. -/
def ofLocked (p : LockedProject) (kind : DependencyKind) : Feedback :=
  locked p.root.text (p.version.ref?.map (·.name)) (p.version.revision?.map (·.short)) kind

/-- The word for a constraint in an event. -/
def constraintWord (isHint : Bool) : String := if isHint then "hint" else "constraint"

/-- The version and the revision of an event, as far as they are known. -/
def pinned : Option String → Option String → String
  | some v, some r => s!"{v} ({r})"
  | some v, none => v
  | none, some r => r
  | none, none => "*"

/-- The status of an event. -/
def status : Feedback → Status
  | constrained _ _ _ _ => .chosen
  | locked _ _ _ _ => .locking

/-- The text of an event. -/
def text : Feedback → String
  | constrained project c isHint .imported =>
    s!"{c} as initial {constraintWord isHint} for imported dep {project}"
  | constrained project c isHint kind =>
    s!"{c} as {constraintWord isHint} for {kind.phrase} {project}"
  | locked project version revision .imported =>
    let version := version.getD "*"
    let revision := revision.getD ""
    s!"{version} ({revision}) as initial lock for imported dep {project}"
  | locked project version revision kind =>
    s!"{pinned version revision} for {kind.phrase} {project}"

/-- The message of an event. -/
def toMessage (f : Feedback) : Message := .status f.status f.text

end Feedback
end DepLock
