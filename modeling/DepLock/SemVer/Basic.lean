import DepLock.Text.Split

/-!
# Semantic versions

A `SemVer` has three numbers, pre-release identifiers and build identifiers. Versions are ordered
by their numbers, then a pre-release comes before its release and pre-releases are ordered
identifier by identifier, and last come the build identifiers. `SemVer.compare` answers `eq` for
equal versions only.
-/

namespace DepLock

/-- A semantic version. The numbers fit 64 bits in every version that is read from a text. -/
structure SemVer where
  major : Nat
  minor : Nat
  patch : Nat
  pre : List String := []
  build : List String := []
  deriving DecidableEq, Inhabited, Repr

namespace SemVer

/-- The numbers of a version are below this bound. -/
def numberBound : Nat := 18446744073709551616

/-- Whether a character is an ASCII digit. -/
def isDigit (c : Char) : Bool := '0' ≤ c && c ≤ '9'

/-- Whether an identifier consists of digits only. -/
def isNumeric (id : String) : Bool := id.toList.all isDigit

/-- Numeric identifiers come before others; they are ordered by length and then as texts, which
is the order of their values when there are no leading zeros. Others are ordered as texts. -/
def comparePreId (a b : String) : Ordering :=
  match isNumeric a, isNumeric b with
  | false, true => .gt
  | true, false => .lt
  | false, false => compare a b
  | true, true => (compare a.length b.length).then (compare a b)

/-- The digits of an identifier without its leading zeros. -/
def significantDigits (id : String) : String := Text.trimStartChar '0' id

/-- Like `comparePreId`, but numeric identifiers are ordered by value, and equal values by the
number of leading zeros. -/
def compareBuildId (a b : String) : Ordering :=
  match isNumeric a, isNumeric b with
  | false, true => .gt
  | true, false => .lt
  | false, false => compare a b
  | true, true =>
    (compare (significantDigits a).length (significantDigits b).length).then <|
      (compare (significantDigits a) (significantDigits b)).then (compare a.length b.length)

/-- No pre-release identifiers are greater than any; two lists are ordered by the first
difference, a list before its continuations. -/
def comparePre (a b : List String) : Ordering :=
  match a, b with
  | [], [] => .eq
  | [], _ :: _ => .gt
  | _ :: _, [] => .lt
  | _ :: _, _ :: _ => List.compareLex comparePreId a b

/-- The precedence of two versions, with build identifiers as the last tie-break. -/
def compare (a b : SemVer) : Ordering :=
  (Ord.compare a.major b.major).then <|
    (Ord.compare a.minor b.minor).then <|
      (Ord.compare a.patch b.patch).then <|
        (comparePre a.pre b.pre).then (List.compareLex compareBuildId a.build b.build)

instance : Ord SemVer := ⟨compare⟩

/-- Identifiers as they are written, separated by points. -/
def renderIds (ids : List String) : String := ".".intercalate ids

/-- The text of a version. -/
def render (v : SemVer) : String :=
  s!"{v.major}.{v.minor}.{v.patch}"
    ++ (if v.pre.isEmpty then "" else "-" ++ renderIds v.pre)
    ++ (if v.build.isEmpty then "" else "+" ++ renderIds v.build)

end SemVer
end DepLock
