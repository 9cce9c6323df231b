import DepLock.Files.Tree
import DepLock.Git.Clone

/-!
# Repositories in files

What a repository says of itself is in text files. HEAD names a branch or holds a hash. A file below
`refs` holds the hash that the ref of its name is at, and one file holds the hashes of all refs that
have been packed, an annotated tag followed by what it is put on.
-/

namespace DepLock.GitMetadata

/-- The hash that a text consists of. -/
def hash? (text : String) : Option Revision :=
  let r : Revision := ⟨Text.trim text⟩
  if r.isFullHash then some r else none

/-- The refs in the lines of the packed ones. -/
def packedRefs : List String → List (String × Revision)
  | [] => []
  | line :: rest =>
    let peeled := (rest.head?.bind (Text.stripPrefix? "^")).bind hash?
    match Text.splitFirst? ' ' line with
    | none => packedRefs rest
    | some (hash, name) => match hash? hash with
      | none => packedRefs rest
      | some r => (name, peeled.getD r) :: packedRefs rest

/-- The refs that have files of their own. -/
def looseRefs (files : FileTree) (directory : String) : List (String × Revision) :=
  match files.resolve (Path.join directory "refs") with
  | .error _ => []
  | .ok place => (files.filesBeneath place).filterMap fun (elements, bytes) =>
    ((String.fromUTF8? bytes).bind hash?).map fun r => ("/".intercalate ("refs" :: elements), r)

/-- The refs of a repository. A file of its own is newer than the packed refs. -/
def refs (files : FileTree) (directory : String) : SortedMap String Revision :=
  let packed := match files.readText (Path.join directory "packed-refs") with
    | .ok text => packedRefs (Text.lines text)
    | .error _ => []
  (SortedMap.ofList packed).overlay (.ofList (looseRefs files directory))

/-- The refs with a beginning, by the rest of their names. -/
def refsBelow (beginning : String) (refs : SortedMap String Revision) :
    SortedMap String GitObject :=
  .ofList (refs.toList.filterMap fun (name, r) =>
    (Text.stripPrefix? beginning name).map fun rest => (rest, .commit r))

/-- The HEAD of a repository. -/
def head? (files : FileTree) (directory : String) : Option GitHead :=
  match files.readText (Path.join directory "HEAD") with
  | .error _ => none
  | .ok text => match Text.stripPrefix? "ref: refs/heads/" text with
    | some name => some (.branch (Text.trimEnd name))
    | none => (hash? text).map .detached

end DepLock.GitMetadata

namespace DepLock

/-- The repository whose checkout is in a directory. -/
def GitRepository.ofFiles? (files : FileTree) (directory : String) : Option GitRepository :=
  let directory := Path.join directory ".git"
  let refs := GitMetadata.refs files directory
  (GitMetadata.head? files directory).map fun head =>
    { head, branches := GitMetadata.refsBelow "refs/heads/" refs
      tags := GitMetadata.refsBelow "refs/tags/" refs }

/-- The clone without a checkout in a directory. -/
def Clone.ofFiles? (files : FileTree) (directory : String) : Option Clone :=
  let refs := GitMetadata.refs files directory
  (GitMetadata.head? files directory).map fun head =>
    { ownBranch := match head with
        | .branch name => (refs.get? ("refs/heads/" ++ name)).map fun r => (name, r)
        | .detached _ => none
      branches := GitMetadata.refsBelow "refs/remotes/origin/" refs
      tags := GitMetadata.refsBelow "refs/tags/" refs }

end DepLock
