import DepLock.Source.Manager

/-!
# Deducing project roots

The root of an import path is read off its elements alone: up to the first element that names a
repository, or as many elements as the host's projects have.
-/

namespace DepLock.Deduction

/-- Hosts whose projects have a host, an owner and a name. -/
def ownerHosts : List String := ["github.com", "bitbucket.org", "gitlab.com"]

/-- Beginnings after which one more element makes a project. -/
def vanityBeginnings : List (List String) := [
  ["golang.org", "x"],
  ["google.golang.org"],
  ["cloud.google.com"],
  ["go.uber.org"],
  ["k8s.io"],
  ["sigs.k8s.io"]]

/-- Endings that mark the element of a path that names a repository. -/
def repositoryEndings : List String := [".git", ".hg", ".bzr", ".svn"]

/-- Whether an element names a repository. -/
def isRepository (element : String) : Bool :=
  repositoryEndings.any fun ending => Text.endsWith ending element

/-- Whether an element is a name followed by `.v` and a major version. -/
def hasMajorVersion (element : String) : Bool :=
  match Text.splitLast? ".v" element with
  | some (name, major) => name ≠ "" && major ≠ "" && major.toList.all SemVer.isDigit
  | none => false

/-- How many elements of a path make its root. -/
def rootLength (elements : List String) : Except DeductionFault Nat :=
  match elements.findIdx? isRepository with
  | some i => .ok (i + 1)
  | none =>
    match elements with
    | [] => .error .unknownHost
    | host :: rest =>
      if host ∈ ownerHosts then
        if rest.length < 2 then .error .tooFewElements else .ok 3
      else if host = "gopkg.in" then
        match rest with
        | first :: more =>
          if hasMajorVersion first then .ok 2
          else match more with
            | second :: _ => if hasMajorVersion second then .ok 3 else .error .noMajorVersion
            | [] => .error .noMajorVersion
        | [] => .error .noMajorVersion
      else match vanityBeginnings.find? fun b =>
          b.length < elements.length && elements.take b.length = b with
        | some b => .ok (b.length + 1)
        | none => .error .unknownHost

/-- The root of the project that owns an import path. -/
def deduceRoot (path : String) : Except SourceError ProjectRoot :=
  let path := Text.trimEndChar '/' (Text.trim path)
  if path = "" then .error .emptyImportPath
  else if ImportPath.isStandard path then .error (.standardLibrary path)
  else
    let elements := ImportPath.elements path
    match rootLength elements with
    | .ok n => .ok (ProjectRoot.ofString (ImportPath.ofElements (elements.take n)))
    | .error fault => .error (.deduction path fault)

end DepLock.Deduction
