import DepLock.Files.Tree
import DepLock.Git.Clone
import DepLock.Source.CloneName
import DepLock.Source.Deduction
import DepLock.Source.Manager

/-!
# The cache of clones

Sources are cloned into a directory of the cache when they are first needed, and fetched into their
clones from then on. Without a network nothing is cloned or fetched. The versions of a clone are
listed once until it is fetched into again.
-/

namespace DepLock

/-- What is at the place of the cache: nothing yet, its directory, or something else. -/
inductive CachePlace where
  | free
  | made
  | taken
  deriving DecidableEq, Repr

/-- A clone in the cache, which may have been damaged. -/
inductive CachedClone where
  | intact (clone : Clone)
  | damaged

/-- A cache: its directory, whether it does without the network, the clones by their directories,
and the versions that have been listed. -/
structure CloneCache where
  directory : String
  isOffline : Bool
  place : CachePlace := .free
  clones : SortedMap String CachedClone := ∅
  listed : SortedMap String (List Version) := ∅

/-- The repositories that can be reached, by their addresses. -/
abbrev Remotes := String → Option GitRepository

namespace CloneCache

/-- The cache in a directory as the files show it. What is no clone at the place of one counts as a
damaged one. -/
def ofFiles (files : FileTree) (clone? : String → Option Clone) (directory : String)
    (isOffline : Bool) : CloneCache :=
  let path (name : String) : String := Path.join (Path.join directory "git") name
  let clones := (files.names (Path.join directory "git")).map fun name =>
    (path name, match clone? (path name) with
      | some clone => .intact clone
      | none => .damaged)
  { directory, isOffline, clones := .ofList clones
    place := if files.isDirectory directory then .made
      else if files.holds directory then .taken else .free }

/-- The clone of a project. -/
def clone? (c : CloneCache) (id : ProjectId) : Option CachedClone :=
  c.clones.get? (id.clonePath c.directory)

/-- The clones with another one for a project, whose versions are to be listed anew. -/
def put (c : CloneCache) (id : ProjectId) (clone : Clone) : CloneCache :=
  let path := id.clonePath c.directory
  { c with clones := c.clones.insert path (.intact clone), listed := c.listed.erase path }

/-- Clones a project into the cache. -/
def addClone (c : CloneCache) (remotes : Remotes) (id : ProjectId) :
    Except SourceError Unit × CloneCache :=
  if c.place = .taken then
    let parent := Path.join c.directory "git"
    (.error (.fileSystem parent FileFault.notDirectory.message), c)
  else
    let c := { c with place := .made }
    match (remotes id.remoteUrl).bind GitRepository.clone? with
    | some clone => (.ok (), c.put id clone)
    | none => (.error (.git id.render), c)

/-- Brings the clone of a project up to date, or makes it. -/
def sync (c : CloneCache) (remotes : Remotes) (id : ProjectId) :
    Except SourceError Unit × CloneCache :=
  if c.isOffline then (.ok (), c)
  else match c.clone? id, remotes id.remoteUrl with
    | none, _ => c.addClone remotes id
    | some (.intact clone), some repository => (.ok (), c.put id (clone.fetch repository))
    | some .damaged, _ | some (.intact _), none => (.error (.git id.render), c)

/-- Lists the versions of the clone of a project. -/
def listClone (c : CloneCache) (id : ProjectId) : Except SourceError (List Version) × CloneCache :=
  match c.clone? id with
  | none => (.error (.offline id.render), c)
  | some .damaged => (.error (.git id.render), c)
  | some (.intact clone) =>
    let versions := clone.versions
    (.ok versions, { c with listed := c.listed.insert (id.clonePath c.directory) versions })

/-- Lists the versions of a project, which is cloned first if it has no clone. -/
def listVersions (c : CloneCache) (remotes : Remotes) (id : ProjectId) :
    Except SourceError (List Version) × CloneCache :=
  match c.listed.get? (id.clonePath c.directory), c.clone? id with
  | some versions, _ => (.ok versions, c)
  | none, some _ => c.listClone id
  | none, none => match c.sync remotes id with
    | (.ok (), c) => c.listClone id
    | (.error e, c) => (.error e, c)

/-- What is known of projects, each question put to the cache as it is. -/
def sources (c : CloneCache) (remotes : Remotes) : SourceManager :=
  { deduceRoot := Deduction.deduceRoot
    listVersions := fun id => (c.listVersions remotes id).1
    sync := fun id => (c.sync remotes id).1 }

end CloneCache
end DepLock
