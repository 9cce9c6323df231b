import DepLock.Files.Tree
import DepLock.Git.Repository
import DepLock.Workspace

/-!
# Checkouts in search paths

The checkout of a project is in the directory `src` of a search path, under the root of the project.
A checkout at a tagged commit is at the tag that is preferred for an upgrade. Otherwise it is at its
branch, or at a bare revision if HEAD is detached.
-/

namespace DepLock

/-- Why the version of a checkout cannot be told. -/
inductive CheckoutFault where
  | noRepository (directory : String)
  | unbornBranch (name : String)
  | notCommit (id : String)
  deriving DecidableEq, Repr

/-- The text of a fault. -/
def CheckoutFault.message : CheckoutFault → String
  | noRepository directory =>
    s!"not a git checkout: could not find repository at '{directory}'"
  | unbornBranch name => s!"unreadable HEAD: reference 'refs/heads/{name}' not found"
  | notCommit id =>
    s!"HEAD is not a commit: the git_object of id '{id}' can not be successfully peeled into a commit (git_object_t=1)."

namespace GitRepository

/-- The revision of HEAD. -/
def headRevision (r : GitRepository) : Except CheckoutFault Revision :=
  match r.head with
  | .detached revision => .ok revision
  | .branch name => match r.branches.get? name with
    | none => .error (.unbornBranch name)
    | some (.blob id) => .error (.notCommit id)
    | some (.commit revision) => .ok revision

/-- The tags on a revision, the preferred one first. -/
def tagsAt (r : GitRepository) (revision : Revision) : List Ref :=
  let tags := (r.tags.toList.filter (·.2 = .commit revision)).map fun (tag, _) => Ref.ofTag tag
  (Version.sortForUpgrade (tags.map .named)).filterMap Version.ref?

/-- The version that is checked out. -/
def version (r : GitRepository) : Except CheckoutFault Version :=
  r.headRevision.map fun revision =>
    match r.tagsAt revision, r.head with
    | tag :: _, _ => .paired tag revision
    | [], .branch name => .paired (.branch name false) revision
    | [], .detached _ => .bare revision

end GitRepository

namespace Workspace

/-- The directory of a project in the first search path that has one. -/
def checkout? (files : FileTree) (searchPaths : List String) (root : ProjectRoot) : Option String :=
  (searchPaths.map fun p => Path.join (Path.join p "src") root.text).find? files.isDirectory

/-- The version that is checked out in a directory. -/
def versionIn (repository? : String → Option GitRepository) (directory : String) : OnDiskVersion :=
  let version : Except CheckoutFault Version := match repository? directory with
    | none => .error (.noRepository directory)
    | some r => r.version
  match version with
  | .ok v => .resolved v
  | .error fault => .unknown fault.message

/-- The workspace that some search paths make up. -/
def ofSearchPaths (files : FileTree) (repository? : String → Option GitRepository)
    (searchPaths : List String) : Workspace :=
  { directory? := checkout? files searchPaths
    version := fun root => match checkout? files searchPaths root with
      | none => .absent
      | some directory => versionIn repository? directory }

end Workspace
end DepLock
