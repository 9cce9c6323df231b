import DepLock.Source.Manager

/-!
# Versions and constraints from hints

What is known of a dependency is often only a text: a branch, a range, a tag, or a revision that
may be abbreviated. `inferConstraint?` turns such a hint into a constraint, and `matchRevision`
finds the version that a revision belongs to.
-/

namespace DepLock

/-- A hint shorter than this many bytes never abbreviates a revision. -/
def shortestAbbreviation : Nat := 7

/-- Whether `hint` is the revision or abbreviates it. -/
def Revision.isNamedBy (r : Revision) (hint : String) : Bool :=
  r.text = hint || (shortestAbbreviation ≤ Text.byteLength hint && Text.startsWith hint r.text)

/-- Whether a text has the form of a hash, possibly abbreviated. -/
def Revision.isLikely (hint : String) : Bool :=
  shortestAbbreviation ≤ Text.byteLength hint && Text.byteLength hint ≤ hashLength
    && hint.toList.all Text.isHexDigit

namespace Inference

/-- Whether `v` is the branch `name`. -/
def isBranch (name : String) (v : Version) : Bool :=
  (Constraint.branch name).admits v

/-- Whether `v` is the tag `tag` and names no semantic version. -/
def isPlainTag (tag : String) (v : Version) : Bool :=
  (Constraint.plain tag).admits v

/-- The constraint that a hint means for a project with the given versions: nothing is any
version, then a branch is looked for, then a range, a tag, a listed revision, and last a text of
the form of a revision. -/
def inferConstraint? (hint : String) (versions : List Version) : Option Constraint :=
  if hint = "" then some .any
  else if versions.any (isBranch hint) then some (.branch hint)
  else match Constraint.impliedCaret? hint with
    | some c => some c
    | none =>
      if versions.any (isPlainTag hint) then some (.plain hint)
      else match (versions.filterMap Version.revision?).find? (·.isNamedBy hint) with
        | some r => some (.revision r)
        | none => if Revision.isLikely hint then some (.revision ⟨hint⟩) else none

/-- Whether the revision of `v` is named by `r`. -/
def isAt (r : Revision) (v : Version) : Bool :=
  v.revision?.any (·.isNamedBy r.text)

/-- The branch of a branch constraint among some versions. -/
def branchRef? (constraint : Option Constraint) (versions : List Version) : Option Ref :=
  match constraint with
  | some (.branch name) => versions.findSome? fun v => match v.ref? with
    | some (.branch n d) => if n = name then some (.branch n d) else none
    | _ => none
  | _ => none

/-- The version for a revision: the preferred listed one that the constraint admits, or else the
branch that the constraint asks for at this revision, or else the preferred listed one, or else the
bare revision. -/
def matchRevision (versions : List Version) (constraint : Option Constraint) (r : Revision) :
    Version :=
  let sorted := Version.sortForUpgrade versions
  let here := sorted.filter (isAt r)
  match constraint.bind fun c => here.find? c.admits with
  | some v => v
  | none =>
    match branchRef? constraint sorted with
    | some branch => .paired branch r
    | none => here.head?.getD (.bare r)

end Inference

namespace SourceManager

/-- The constraint that a hint means for a project. -/
def inferConstraint (sm : SourceManager) (hint : String) (id : ProjectId) :
    Except SourceError Constraint :=
  if hint = "" then .ok .any
  else match sm.listVersions id with
    | .error e => .error e
    | .ok versions =>
      match Inference.inferConstraint? hint versions with
      | some c => .ok c
      | none => .error (.invalidVersion hint id.render)

/-- The version for a revision of a project, which is the bare revision when the versions cannot
be listed. -/
def versionAt (sm : SourceManager) (id : ProjectId) (constraint : Option Constraint)
    (r : Revision) : Version :=
  match sm.listVersions id with
  | .ok versions => Inference.matchRevision versions constraint r
  | .error _ => .bare r

end SourceManager
end DepLock
