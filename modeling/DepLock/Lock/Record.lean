import DepLock.Lock.Basic

/-!
# The written form of a lock

A `LockRecord` is what a lock file says, field by field. A record has a lock unless an entry has no
name, has both a branch and a tag, has neither a version nor a revision, or repeats a project. The
record of a lock is sorted by name.
-/

namespace DepLock

/-- An entry for one project. -/
structure LockedRecord where
  name : String
  source : Option String := none
  branch : Option String := none
  version : Option String := none
  revision : Option String := none
  packages : List String := []
  deriving DecidableEq, Repr

/-- The fields of a lock file. -/
structure LockRecord where
  memo : String := ""
  projects : List LockedRecord := []
  deriving DecidableEq, Repr

/-- Why a record has no lock. -/
inductive LockFault where
  | unnamed
  | branchAndVersion (name : String)
  | versionless (name : String)
  | repeated (root : ProjectRoot)
  deriving DecidableEq

/-- The text of a fault. -/
def LockFault.message : LockFault → String
  | unnamed => "lock entry is missing `name`"
  | branchAndVersion name => s!"`{name}` may declare only one of `branch` or `version`"
  | versionless name => s!"lock entry for `{name}` has no version or revision"
  | repeated root => s!"duplicate lock entry for `{root.text}`"

namespace LockedRecord

/-- The record of a locked project. -/
def ofProject (p : LockedProject) : LockedRecord :=
  let base : LockedRecord :=
    { name := p.root.text, source := p.id.source, packages := p.packages
      revision := p.version.revision?.map (·.text) }
  match p.version.ref? with
  | some (.branch name _) => { base with branch := some name }
  | some ref => { base with version := some ref.name }
  | none => base

/-- The version of a branch or a tag, if there is one, and a revision. -/
def version? (ref : Option Ref) (revision : Option String) : Option Version :=
  match ref, revision with
  | some ref, some r => some (.paired ref ⟨r⟩)
  | some ref, none => some (.named ref)
  | none, some r => some (.bare ⟨r⟩)
  | none, none => none

/-- The locked project of a record. -/
def toProject (r : LockedRecord) : Except LockFault LockedProject :=
  let locked (ref : Option Ref) : Except LockFault LockedProject :=
    match version? ref r.revision with
    | some v => .ok (.of (.withSource (.ofString r.name) r.source) v r.packages)
    | none => .error (.versionless r.name)
  if r.name = "" then .error .unnamed
  else match r.branch, r.version with
    | some _, some _ => .error (.branchAndVersion r.name)
    | some branch, none => locked (some (.branch branch false))
    | none, some version => locked (some (.ofTag version))
    | none, none => locked none

end LockedRecord

namespace LockRecord

/-- The projects of some records, after others whose roots they must not repeat. -/
def addProjects : List LockedRecord → Lock → Except LockFault Lock
  | [], l => .ok l
  | r :: rs, l =>
    match r.toProject with
    | .error fault => .error fault
    | .ok p =>
      if l.contains p.root then .error (.repeated p.root)
      else addProjects rs { l with projects := l.projects ++ [p] }

/-- The lock of a record. -/
def toLock (r : LockRecord) : Except LockFault Lock :=
  addProjects r.projects { memo := r.memo }

end LockRecord

/-- The record of a lock, with its projects sorted by name. -/
def Lock.toRecord (l : Lock) : LockRecord where
  memo := l.memo
  projects := (l.projects.map LockedRecord.ofProject).mergeSort fun a b => orderedLE a.name b.name

end DepLock
