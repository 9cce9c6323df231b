import DepLock.Digest.Sha256
import DepLock.Files.Path
import DepLock.ProjectRoot
import DepLock.Source.Url

/-!
# Names of cached clones

A source is cached in a directory of its own. The directory is named after the address that the
source is fetched from, in a readable form and with a part of the digest of the address, so that
different addresses do not share a directory.
-/

namespace DepLock

namespace Url

/-- Whether a character is kept in the name of a directory. -/
def isKeptInName (c : Char) : Bool := isLetter c || isDigit c || c = '-' || c = '.'

/-- A name for a directory that is made of the host and the path of an address. -/
def directoryName (u : Url) : String :=
  let path := Text.trimStartChar '/' (Text.trimEndChar '/' u.path)
  let path := path.toList.map fun c => if c = '/' then '-' else c
  let name := u.host.toList ++ (if path = [] then [] else '-' :: path)
  String.ofList (name.map fun c => if isKeptInName c then c else '_')

end Url

namespace ProjectId

/-- The number of digits of the digest in the name of a clone. -/
def digestDigits : Nat := 8

/-- The name of the directory that holds the clone of a project's source. -/
def cloneName (id : ProjectId) : String :=
  let digest := Sha256.hexOfText id.remoteUrl
  match Url.parse? id.remoteUrl with
  | some u => u.directoryName ++ "-" ++ String.ofList (digest.toList.take digestDigits)
  | none => digest

/-- The directory in a cache that holds the clone of a project's source. -/
def clonePath (id : ProjectId) (cache : String) : String :=
  Path.join (Path.join cache "git") id.cloneName

end ProjectId
end DepLock
