import DepLock.SemVer.Basic

/-!
# Reading semantic versions

Each step takes what it reads off the front of a list of characters and gives back the rest.
`parse?` reads a whole text; `ofTag?` also accepts a leading `v` and tags of one or two numbers.
-/

namespace DepLock.SemVer

/-- The value of a run of digits. -/
def digitsValue (ds : List Char) : Nat := Nat.ofDigitChars 10 ds 0

/-- A number without leading zeros that fits 64 bits, and the rest. -/
def number? (cs : List Char) : Option (Nat × List Char) :=
  let (ds, rest) := cs.span isDigit
  match ds with
  | [] => none
  | '0' :: _ :: _ => none
  | ds =>
    let n := digitsValue ds
    if n < numberBound then some (n, rest) else none

/-- Whether a character may stand in an identifier. -/
def isIdChar (c : Char) : Bool :=
  isDigit c || ('a' ≤ c && c ≤ 'z') || ('A' ≤ c && c ≤ 'Z') || c = '-'

/-- Whether an identifier is not empty and, when `strict`, is no number with a leading zero. -/
def isId (strict : Bool) (id : List Char) : Bool :=
  id ≠ [] && !(strict && id.all isDigit && id.length > 1 && id.head? = some '0')

/-- Identifiers separated by points, at least one, and the rest. -/
def ids? (strict : Bool) (cs : List Char) : Option (List String × List Char) :=
  let (run, rest) := cs.span fun c => isIdChar c || c = '.'
  let ids := run.splitOn '.'
  if ids.all (isId strict) then some (ids.map String.ofList, rest) else none

/-- Identifiers after the character `mark`, or none when the mark is absent, and the rest. -/
def idsAfter? (mark : Char) (strict : Bool) (cs : List Char) : Option (List String × List Char) :=
  match cs with
  | [] => some ([], [])
  | c :: rest => if c = mark then ids? strict rest else some ([], cs)

/-- What follows a point. -/
def point? : List Char → Option (List Char)
  | '.' :: rest => some rest
  | _ => none

/-- The version that a text is, if it is one. -/
def parseChars? (cs : List Char) : Option SemVer := do
  let (major, cs) ← number? cs
  let cs ← point? cs
  let (minor, cs) ← number? cs
  let cs ← point? cs
  let (patch, cs) ← number? cs
  let (pre, cs) ← idsAfter? '-' true cs
  let (build, cs) ← idsAfter? '+' false cs
  if cs = [] then some { major, minor, patch, pre, build } else none

/-- The version that a text is, if it is one. -/
def parse? (s : String) : Option SemVer := parseChars? s.toList

/-- A run of digits as a number that fits 64 bits; leading zeros are allowed here. -/
def paddedNumber? (ds : List Char) : Option Nat :=
  if ds ≠ [] && ds.all isDigit then
    let n := digitsValue ds
    if n < numberBound then some n else none
  else none

/-- One or two numbers separated by a point, the missing ones zero. -/
def shortTag? (cs : List Char) : Option SemVer :=
  match cs.splitOn '.' with
  | [major] => do
    let major ← paddedNumber? major
    some { major, minor := 0, patch := 0 }
  | [major, minor] => do
    let major ← paddedNumber? major
    let minor ← paddedNumber? minor
    some { major, minor, patch := 0 }
  | _ => none

/-- The characters without one leading `v`. -/
def dropV : List Char → List Char
  | 'v' :: rest => rest
  | cs => cs

/-- The version that a tag names: one leading `v` is allowed, and one or two numbers are padded
with zeros. -/
def ofTag? (tag : String) : Option SemVer :=
  let cs := dropV tag.toList
  match parseChars? cs with
  | some v => some v
  | none => shortTag? cs

end DepLock.SemVer
