import DepLock.Console.Log
import DepLock.Feedback
import DepLock.Foreign.Entry
import DepLock.Lock.Basic
import DepLock.Manifest.Basic
import DepLock.Source.Inference

/-!
# Converting foreign entries

The entries of other tools become a manifest and a lock. Entries of one project are first put
together (`consolidate`); if the project of any entry is unknown, nothing is converted. A revision
or tag that an entry is locked to becomes a locked version if it satisfies the constraint of the
entry, and a pinned revision never becomes a constraint.
-/

namespace DepLock

namespace ForeignEntry

/-- The first of two texts that says something. -/
def firstSaid (a b : String) : String := if a = "" then b else a

/-- An entry with what it leaves open taken from a later one of the same project. -/
def fillFrom (e later : ForeignEntry) : ForeignEntry :=
  { e with
    source := firstSaid e.source later.source
    lockHint := firstSaid e.lockHint later.lockHint
    constraintHint := firstSaid e.constraintHint later.constraintHint }

/-- One entry for each project of a list of entries, sorted by root. -/
def consolidate (deduce : String → Except SourceError ProjectRoot) :
    List ForeignEntry → SortedMap ProjectRoot ForeignEntry →
      Except ImportError (SortedMap ProjectRoot ForeignEntry)
  | [], projects => .ok projects
  | e :: es, projects =>
    match deduce e.name with
    | .error cause => .error (.unknownRoot e.name cause)
    | .ok root =>
      consolidate deduce es <| projects.alter root fun known => match known with
        | some first => first.fillFrom e
        | none => e

/-- Whether a source is where a project is fetched from anyway. -/
def isDefaultSource (root : ProjectRoot) (source : String) : Bool :=
  let source := Text.trimEndChar '/' source
  let source := (Text.stripSuffix? ".git" source).getD source
  let bare := match Text.stripPrefix? "https://" source with
    | some bare => bare
    | none => (Text.stripPrefix? "http://" source).getD source
  bare = root.text

/-- The project of an entry, with the source of the entry unless that is the default one. -/
def projectId (e : ForeignEntry) (root : ProjectRoot) : ProjectId :=
  .withSource root (if e.source = "" || isDefaultSource root e.source then none else some e.source)

end ForeignEntry

/-- The listed tag of a name. -/
def SourceManager.tagNamed? (sm : SourceManager) (id : ProjectId) (name : String) :
    Option Version :=
  match sm.listVersions id with
  | .error _ => none
  | .ok versions => versions.find? fun v => match v.ref? with
    | some (.semver tag _) => tag = name
    | some (.plain tag) => tag = name
    | _ => false

/-- What the entries so far were converted to. -/
structure Conversion where
  manifest : Manifest := {}
  lock : Lock := {}
  deriving DecidableEq, Inhabited

namespace Conversion

/-- The constraint that an entry asks for. If that cannot be told there is none, with a warning. -/
def askedConstraint (sm : SourceManager) (id : ProjectId) (e : ForeignEntry) : Constraint × Log :=
  match sm.inferConstraint e.constraintHint id with
  | .ok c => (c, [])
  | .error cause =>
    (.any, [.warn s!"Unable to infer a constraint for {id.render} from `{e.constraintHint}`: {cause.message}"])

/-- The version that the lock hint of an entry means, if there is a hint. -/
def hintedVersion? (sm : SourceManager) (id : ProjectId) (e : ForeignEntry) (c : Constraint) :
    Option Version :=
  if e.lockHint = "" then none
  else match sm.tagNamed? id e.lockHint with
    | some tagged => some tagged
    | none => some (sm.versionAt id (some c) ⟨e.lockHint⟩)

/-- The constraint that goes into the manifest. If it may be taken from the locked version, it is
when none was asked for. A pinned revision stays out. -/
def declaredConstraint (fromLock : Bool) (asked : Constraint) (locked : Option Version) :
    Constraint :=
  let c := if fromLock && asked.isAny then (locked.bind Constraint.ofVersion?).getD asked else asked
  if c.isPin then .any else c

/-- The conversion with the entry of one project added. -/
def addEntry (sm : SourceManager) (fromLock : Bool) (root : ProjectRoot) (e : ForeignEntry)
    (c : Conversion) : Conversion × Log :=
  let id := e.projectId root
  let (asked, askedLog) := askedConstraint sm id e
  let hinted := hintedVersion? sm id e asked
  let locked := hinted.filter asked.admits
  let (lock, lockLog) : Lock × Log := match hinted with
    | none => (c.lock, [])
    | some v =>
      if asked.admits v then
        let p := LockedProject.of id v []
        (c.lock.upsert p, [(Feedback.ofLocked p .imported).toMessage])
      else
        (c.lock, [.warn s!"Ignoring imported lock {v.render} for {id.render}: it does not satisfy {asked.render}"])
  let declared := declaredConstraint fromLock asked locked
  let (manifest, manifestLog) : Manifest × Log :=
    if declared.isAny && id.source.isNone then (c.manifest, [])
    else
      ({ c.manifest with
          constraints := c.manifest.constraints.insert root (.withSource declared id.source) },
        [(Feedback.ofConstraint root declared .imported).toMessage])
  (⟨manifest, lock⟩, askedLog ++ lockLog ++ manifestLog)

/-- The conversion with the entries of some projects added. -/
def addProjects (sm : SourceManager) (fromLock : Bool) :
    List (ProjectRoot × ForeignEntry) → Conversion → Conversion × Log
  | [], c => (c, [])
  | (root, e) :: es, c =>
    let (c, log) := c.addEntry sm fromLock root e
    let (c, more) := addProjects sm fromLock es c
    (c, log ++ more)

/-- The conversion with some entries added. With `fromLock`, an entry that asks for no version is
constrained to what its locked version implies. -/
def addEntries (sm : SourceManager) (fromLock : Bool) (es : List ForeignEntry) (c : Conversion) :
    Except ImportError (Conversion × Log) :=
  match ForeignEntry.consolidate sm.deduceRoot es ∅ with
  | .error e => .error e
  | .ok projects => .ok (addProjects sm fromLock projects.toList c)

end Conversion
end DepLock
