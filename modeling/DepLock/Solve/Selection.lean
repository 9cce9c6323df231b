import DepLock.Console.Diagnostic
import DepLock.Lock.Basic
import DepLock.Source.Inference

/-!
# Selecting a version

`SourceManager.select` chooses the version of one project under the demands on it. A locked version
that meets them all is kept. A pinned revision is looked up. Otherwise the preferred one of the
listed versions that meet them all is taken.
-/

namespace DepLock

/-- A constraint, and who asks for it. -/
structure Demand where
  requiredBy : String
  constraint : Constraint
  deriving DecidableEq

/-- Why there is no solution. -/
inductive SolveError where
  | noMatchingVersion (project : ProjectRoot) (demands : List Demand) (available : List Version)
  | deduceRoot (path : String) (cause : SourceError)
  | listVersions (project : ProjectRoot) (cause : SourceError)
  deriving DecidableEq

namespace SolveError

/-- The text of an error. -/
def message : SolveError → String
  | noMatchingVersion project _ _ => s!"no matching version for `{project.text}`"
  | deduceRoot path _ => s!"could not determine the project for `{path}`"
  | listVersions project _ => s!"could not list versions of `{project.text}`"

/-- The line of a diagnostic for a demand. -/
def demandLine (project : ProjectRoot) (d : Demand) : String :=
  s!"`{d.requiredBy}` requires {project.text} {d.constraint.render}"

/-- The line of a diagnostic for the versions at hand, if there are any. -/
def availableLine (available : List Version) : List String :=
  if available.isEmpty then []
  else ["available versions: " ++ ", ".intercalate (available.map (·.render))]

/-- What to try when the network is at fault. -/
def networkSuggestion : String := "Check your network connection, or retry with `--offline`"

/-- The diagnostic of an error. -/
def toDiagnostic : SolveError → Diagnostic
  | noMatchingVersion project demands available =>
    { message := s!"no version of `{project.text}` satisfies every constraint"
      context := demands.map (demandLine project) ++ availableLine available
      suggestions := [s!"Relax the constraint on `{project.text}` in Wharf.toml"] }
  | deduceRoot path cause =>
    { message := s!"could not determine the project for `{path}`", context := [cause.message] }
  | listVersions project cause =>
    { message := s!"could not list versions of `{project.text}`"
      context := [cause.message]
      suggestions := [networkSuggestion] }

end SolveError

/-- Whether a version meets all demands. -/
def Version.meets (v : Version) (demands : List Demand) : Bool :=
  demands.all fun d => d.constraint.admits v

/-- The first revision that a demand pins. -/
def pinnedRevision? (demands : List Demand) : Option Revision :=
  demands.findSome? fun d => match d.constraint with
    | .revision r => some r
    | _ => none

/-- The version that a lock keeps for a project under the demands on it. -/
def Lock.kept? (l : Lock) (root : ProjectRoot) (demands : List Demand) : Option Version :=
  ((l.get? root).map (·.version)).filter (·.meets demands)

namespace SourceManager

/-- A version for a project under the demands on it. -/
def select (sm : SourceManager) (id : ProjectId) (demands : List Demand) (lock : Lock) :
    Except SolveError Version :=
  match lock.kept? id.root demands with
  | some v => .ok v
  | none =>
    match pinnedRevision? demands with
    | some r =>
      let v := sm.versionAt id none r
      if v.meets demands then .ok v else .error (.noMatchingVersion id.root demands [v])
    | none =>
      match sm.listVersions id with
      | .error cause => .error (.listVersions id.root cause)
      | .ok versions =>
        let sorted := Version.sortForUpgrade versions
        match sorted.find? (·.meets demands) with
        | some v => .ok v
        | none => .error (.noMatchingVersion id.root demands sorted)

end SourceManager
end DepLock
