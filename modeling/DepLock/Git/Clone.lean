import DepLock.Git.Repository

/-!
# Clones

A clone without a checkout keeps the branches and the tags of a repository as they were when it was
last fetched from. One branch it has of its own, the one that HEAD of the repository was on when the
clone was made. Fetching moves and adds branches, and adds tags. A tag that is known stays where it
is, the clone's own branch too, and nothing is removed.
-/

namespace DepLock

/-- A clone: the branch of its own, and what was fetched. -/
structure Clone where
  ownBranch : Option (String × Revision) := none
  branches : SortedMap String GitObject := ∅
  tags : SortedMap String GitObject := ∅

namespace GitRepository

/-- The branch of a new repository. -/
def initialBranch : String := "master"

/-- The branch that is taken for the one of a detached HEAD: among those at its revision the initial
one, or else the first. -/
def guessedBranch? (r : GitRepository) (revision : Revision) : Option String :=
  let names := (r.branches.toList.filter (·.2 = .commit revision)).map (·.1)
  if initialBranch ∈ names then some initialBranch else names.head?

/-- A clone of a repository. There is none if HEAD is on a branch that names no commit, or if HEAD is
detached and no branch or tag asks for any commit at all. -/
def clone? (r : GitRepository) : Option Clone :=
  let fetched (ownBranch : Option (String × Revision)) : Clone :=
    { ownBranch, branches := r.branches, tags := r.tags }
  match r.head with
  | .branch name => match r.branches.get? name with
    | none => some (fetched none)
    | some (.commit revision) => some (fetched (some (name, revision)))
    | some (.blob _) => none
  | .detached revision => match r.guessedBranch? revision with
    | some name => some (fetched (some (name, revision)))
    | none => if r.branches.isEmpty && r.tags.isEmpty then none else some (fetched none)

end GitRepository

namespace Clone

/-- The clone after fetching from a repository. -/
def fetch (c : Clone) (r : GitRepository) : Clone :=
  { c with branches := c.branches.overlay r.branches, tags := r.tags.overlay c.tags }

/-- The name under which HEAD of the repository is fetched, which is no branch. -/
def headName : String := "HEAD"

/-- The branches with their revisions; the clone's own branch is preferred to the fetched one of the
same name. -/
def branchRevisions (c : Clone) : SortedMap String Revision :=
  let fetched := (GitObject.commits c.branches).filter fun name _ => name ≠ headName
  match c.ownBranch with
  | some (name, revision) => fetched.insert name revision
  | none => fetched

/-- The versions of a project: its tags and then its branches, by name. The clone's own branch is the
default branch. -/
def versions (c : Clone) : List Version :=
  let tags := (GitObject.commits c.tags).toList.map fun (tag, revision) =>
    Version.paired (.ofTag tag) revision
  let branches := c.branchRevisions.toList.map fun (name, revision) =>
    Version.paired (.branch name (c.ownBranch.any (·.1 = name))) revision
  tags ++ branches

end Clone
end DepLock
