import DepLock.SemVer.Parser

/-!
# Versions of a project

A `Version` is a bare revision, a `Ref` (a branch or a tag), or a ref together with the revision
it points at. Versions are ordered for an upgrade: `Version.upgradeCompare` puts the preferred one
first.
-/

namespace DepLock

/-- An identifier of one state of a repository, for instance a commit hash. -/
structure Revision where
  text : String
  deriving DecidableEq, Inhabited, Repr

namespace Revision

/-- The number of digits of a full hash. -/
def hashLength : Nat := 40

/-- Whether a revision is a full hash in hexadecimal digits. -/
def isFullHash (r : Revision) : Bool :=
  r.text.toList.length = hashLength && r.text.toList.all Text.isHexDigit

/-- The first seven digits of a full hash; other revisions are not shortened. -/
def short (r : Revision) : String :=
  if r.isFullHash then String.ofList (r.text.toList.take 7) else r.text

end Revision

/-- A name that points at a revision: a branch, a tag that names a semantic version, or any other
tag. -/
inductive Ref where
  | branch (name : String) (isDefault : Bool)
  | semver (tag : String) (version : SemVer)
  | plain (tag : String)
  deriving DecidableEq, Repr

namespace Ref

/-- The ref of a tag: a semantic version if the tag names one. -/
def ofTag (tag : String) : Ref :=
  match SemVer.ofTag? tag with
  | some version => semver tag version
  | none => plain tag

/-- The name of a branch or the text of a tag. -/
def name : Ref → String
  | branch name _ => name
  | semver tag _ => tag
  | plain tag => tag

end Ref

/-- What a project is resolved to. -/
inductive Version where
  | bare (revision : Revision)
  | named (ref : Ref)
  | paired (ref : Ref) (revision : Revision)
  deriving DecidableEq, Repr

namespace Version

/-- The revision, if it is known. -/
def revision? : Version → Option Revision
  | bare r => some r
  | named _ => none
  | paired _ r => some r

/-- The ref, if there is one. -/
def ref? : Version → Option Ref
  | bare _ => none
  | named ref => some ref
  | paired ref _ => some ref

/-- The version without the revision of a pair. -/
def unpair : Version → Version
  | paired ref _ => named ref
  | v => v

/-- Whether both a ref and a revision are known. -/
def isPaired : Version → Bool
  | paired _ _ => true
  | _ => false

/-- The semantic version that the tag names. -/
def semver? (v : Version) : Option SemVer :=
  match v.ref? with
  | some (.semver _ version) => some version
  | _ => none

/-- The name of the ref, or else the revision. -/
def render : Version → String
  | bare r => r.text
  | named ref => ref.name
  | paired ref _ => ref.name

/-- The classes of versions from the most to the least preferred: semantic versions, the default
branch, other branches, other tags, bare revisions. -/
def upgradeClass (v : Version) : Nat :=
  match v.ref? with
  | some (.semver _ _) => 0
  | some (.branch _ true) => 1
  | some (.branch _ false) => 2
  | some (.plain _) => 3
  | none => 4

/-- Semantic versions newest first, a tie decided by the text; no order where one is missing. -/
def newestFirst (a b : Version) : Ordering :=
  match a.semver?, b.semver? with
  | some va, some vb => compare vb va
  | _, _ => .eq

/-- The order of preference for an upgrade, the most preferred version first. -/
def upgradeCompare (a b : Version) : Ordering :=
  (compare a.upgradeClass b.upgradeClass).then <|
    (newestFirst a b).then (compare a.render b.render)

/-- The versions by preference for an upgrade; equally preferred ones keep their order. -/
def sortForUpgrade (vs : List Version) : List Version :=
  vs.mergeSort fun a b => (upgradeCompare a b).isLE

end Version
end DepLock
