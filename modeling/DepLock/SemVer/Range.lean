import DepLock.SemVer.Parser

/-!
# Ranges of semantic versions

A range is a list of comparators that all have to hold. A pre-release is in a range only if some
comparator names a pre-release of the same three numbers.
-/

namespace DepLock.SemVer

/-- The relation that a comparator asks for. -/
inductive Operator where
  | exact
  | greater
  | greaterEq
  | less
  | lessEq
  | tilde
  | caret
  | wildcard
  deriving DecidableEq, Repr

/-- A relation to a version whose minor number and patch may be left out. -/
structure Comparator where
  op : Operator
  major : Nat
  minor : Option Nat
  patch : Option Nat
  pre : List String := []
  deriving DecidableEq, Repr

/-- A conjunction of comparators; without any, every release is in the range. -/
structure Range where
  comparators : List Comparator
  deriving DecidableEq, Repr

namespace Comparator

/-- Whether the parts of `c` that are present agree with `v`. -/
def agrees (c : Comparator) (v : SemVer) : Bool :=
  v.major = c.major
    && c.minor.all (v.minor = ·)
    && c.patch.all (v.patch = ·)
    && v.pre = c.pre

/-- Whether the first difference from `c` is in the direction `dir`; a missing part decides
against it. -/
def beyond (dir : Ordering) (c : Comparator) (v : SemVer) : Bool :=
  if v.major ≠ c.major then Ord.compare v.major c.major = dir
  else match c.minor with
    | none => false
    | some minor =>
      if v.minor ≠ minor then Ord.compare v.minor minor = dir
      else match c.patch with
        | none => false
        | some patch =>
          if v.patch ≠ patch then Ord.compare v.patch patch = dir
          else comparePre v.pre c.pre = dir

/-- Whether `v` is at least the version of `c` and has its major and minor numbers. -/
def tildeHolds (c : Comparator) (v : SemVer) : Bool :=
  if v.major ≠ c.major then false
  else if c.minor.any (v.minor ≠ ·) then false
  else match c.patch with
    | some p => if v.patch ≠ p then p < v.patch else (comparePre v.pre c.pre).isGE
    | none => (comparePre v.pre c.pre).isGE

/-- Whether `v` is at least the version of `c` and agrees with its first number that is not
zero. -/
def caretHolds (c : Comparator) (v : SemVer) : Bool :=
  if v.major ≠ c.major then false
  else match c.minor with
    | none => true
    | some minor =>
      match c.patch with
      | none => if 0 < c.major then minor ≤ v.minor else v.minor = minor
      | some patch =>
        if 0 < c.major then
          if v.minor ≠ minor then minor < v.minor
          else if v.patch ≠ patch then patch < v.patch
          else (comparePre v.pre c.pre).isGE
        else if 0 < minor then
          if v.minor ≠ minor then false
          else if v.patch ≠ patch then patch < v.patch
          else (comparePre v.pre c.pre).isGE
        else if v.minor ≠ minor || v.patch ≠ patch then false
        else (comparePre v.pre c.pre).isGE

/-- Whether the relation holds, pre-releases not treated apart. -/
def holds (c : Comparator) (v : SemVer) : Bool :=
  match c.op with
  | .exact | .wildcard => c.agrees v
  | .greater => c.beyond .gt v
  | .greaterEq => c.agrees v || c.beyond .gt v
  | .less => c.beyond .lt v
  | .lessEq => c.agrees v || c.beyond .lt v
  | .tilde => c.tildeHolds v
  | .caret => c.caretHolds v

/-- Whether `c` names a pre-release of the three numbers of `v`. -/
def admitsPre (c : Comparator) (v : SemVer) : Bool :=
  c.major = v.major && c.minor = some v.minor && c.patch = some v.patch && c.pre ≠ []

end Comparator

namespace Operator

/-- The text of an operator; a wildcard has none in front. -/
def render : Operator → String
  | exact => "="
  | greater => ">"
  | greaterEq => ">="
  | less => "<"
  | lessEq => "<="
  | tilde => "~"
  | caret => "^"
  | wildcard => ""

end Operator

/-- The text of a comparator. -/
def Comparator.render (c : Comparator) : String :=
  let star := if c.op = .wildcard then ".*" else ""
  c.op.render ++ toString c.major ++
    match c.minor with
    | none => star
    | some minor =>
      "." ++ toString minor ++
        match c.patch with
        | none => star
        | some patch =>
          "." ++ toString patch ++ (if c.pre.isEmpty then "" else "-" ++ renderIds c.pre)

namespace Range

/-- Whether a version is in the range. -/
def contains (r : Range) (v : SemVer) : Bool :=
  r.comparators.all (·.holds v) && (v.pre.isEmpty || r.comparators.any (·.admitsPre v))

/-- The text of a range. -/
def render (r : Range) : String :=
  if r.comparators.isEmpty then "*" else ", ".intercalate (r.comparators.map (·.render))

/-- The versions that are compatible with `v`. -/
def caret (v : SemVer) : Range :=
  ⟨[{ op := .caret, major := v.major, minor := some v.minor, patch := some v.patch,
      pre := v.pre }]⟩

end Range
end DepLock.SemVer
