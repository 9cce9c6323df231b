import DepLock.Version
import DepLock.SemVer.RangeParser

/-!
# Constraints

A `Constraint` says which versions of a project are acceptable. `Constraint.impliedCaret?` reads a
range in which a bare version means the versions compatible with it, and
`Constraint.ofVersion?` is the constraint that a version implies for later upgrades.
-/

namespace DepLock

/-- A condition on the version of a project. -/
inductive Constraint where
  | any
  | semver (range : SemVer.Range)
  | branch (name : String)
  | plain (tag : String)
  | revision (revision : Revision)
  deriving DecidableEq, Repr

namespace Constraint

instance : Inhabited Constraint := ⟨any⟩

/-- Whether every version is acceptable. -/
def isAny : Constraint → Bool
  | any => true
  | _ => false

/-- Whether the constraint pins one revision. -/
def isPin : Constraint → Bool
  | revision _ => true
  | _ => false

/-- The versions compatible with `v`. -/
def caret (v : SemVer) : Constraint := semver (.caret v)

/-- Whether a version is acceptable. -/
def admits : Constraint → Version → Bool
  | any, _ => true
  | semver range, v => v.semver?.any range.contains
  | branch name, v => match v.ref? with
    | some (.branch n _) => n = name
    | _ => false
  | plain tag, v => match v.ref? with
    | some (.plain t) => t = tag
    | _ => false
  | revision r, v => v.revision? = some r

/-- The text of a constraint. -/
def render : Constraint → String
  | any => "*"
  | semver range => range.render
  | branch name => name
  | plain tag => tag
  | revision r => r.text

/-- The characters that may stand before the version in a comparator. -/
def isOperatorChar (c : Char) : Bool :=
  c = '<' || c = '>' || c = '=' || c = '^' || c = '~' || c = ' '

/-- The characters without a `v` in front of a digit. -/
def dropVersionV : List Char → List Char
  | 'v' :: d :: cs => if SemVer.isDigit d then d :: cs else 'v' :: d :: cs
  | cs => cs

/-- A comparator without the `v` in front of its version. -/
def plainComparator (part : List Char) : List Char :=
  let part := Text.trimChars part
  part.takeWhile isOperatorChar ++ dropVersionV (part.dropWhile isOperatorChar)

/-- A list of comparators, each without the `v` in front of its version, separated by a comma and
a space. -/
def plainComparators (cs : List Char) : List Char :=
  [',', ' '].intercalate ((cs.splitOn ',').map plainComparator)

/-- The constraint of a range in which a bare version means the versions compatible with it; a
`v` may stand in front of each version, and a tag of one or two numbers may stand alone. -/
def impliedCaret? (s : String) : Option Constraint :=
  let cs := Text.trimChars s.toList
  if cs = [] then none
  else match SemVer.Range.parseChars? (plainComparators cs) with
    | some range => some (semver range)
    | none => (SemVer.ofTag? (String.ofList cs)).map caret

/-- The constraint that a ref implies: compatible versions for a semantic version, else the branch
or the tag itself. -/
def ofRef : Ref → Constraint
  | .semver _ version => caret version
  | .branch name _ => branch name
  | .plain tag => plain tag

/-- The constraint that a version implies; a bare revision implies none. -/
def ofVersion? (v : Version) : Option Constraint :=
  v.ref?.map ofRef

end Constraint
end DepLock
