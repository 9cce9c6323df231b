import DepLock.SemVer.Range

/-!
# Reading ranges

A range is a star alone, or up to 32 comparators separated by commas. A comparator is an operator,
one to three numbers, and after three numbers pre-release and build identifiers, of which the
latter are dropped. A star or an `x` may stand for the minor number and the patch.
-/

namespace DepLock.SemVer

/-- The characters after the leading spaces. -/
def skipSpaces (cs : List Char) : List Char := cs.dropWhile (· = ' ')

/-- Whether a character stands for any number. -/
def isWild (c : Char) : Bool := c = '*' || c = 'x' || c = 'X'

/-- The operator in front, and the rest; without one, the answer is `none` and all characters. -/
def operator : List Char → Option Operator × List Char
  | '=' :: cs => (some .exact, cs)
  | '>' :: '=' :: cs => (some .greaterEq, cs)
  | '>' :: cs => (some .greater, cs)
  | '<' :: '=' :: cs => (some .lessEq, cs)
  | '<' :: cs => (some .less, cs)
  | '~' :: cs => (some .tilde, cs)
  | '^' :: cs => (some .caret, cs)
  | cs => (none, cs)

/-- The number after a point, or its absence. -/
inductive Part where
  | absent
  | wild
  | number (n : Nat)
  deriving DecidableEq, Repr

/-- The part after a point, if there is a point, and the rest. -/
def part? : List Char → Option (Part × List Char)
  | '.' :: c :: cs =>
    if isWild c then some (.wild, cs)
    else (number? (c :: cs)).map fun (n, rest) => (.number n, rest)
  | ['.'] => none
  | cs => some (.absent, cs)

/-- The number that a part names. -/
def Part.number? : Part → Option Nat
  | number n => some n
  | _ => none

/-- A comparator, and the rest after trailing spaces. -/
def comparator? (cs : List Char) : Option (Comparator × List Char) := do
  let (op, cs) := operator cs
  let (major, cs) ← number? (skipSpaces cs)
  let (minor, cs) ← part? cs
  let (patch, cs) ← part? cs
  if minor = .wild && patch.number?.isSome then none
  let (pre, cs) ← if patch.number?.isSome then idsAfter? '-' true cs else some ([], cs)
  let (_, cs) ← if patch.number?.isSome then idsAfter? '+' false cs else some ([], cs)
  let byDefault := if minor = .wild || patch = .wild then Operator.wildcard else .caret
  some ({ op := op.getD byDefault, major, minor := minor.number?, patch := patch.number?, pre },
    skipSpaces cs)

/-- At most this many comparators make a range. -/
def comparatorLimit : Nat := 32

/-- Between one and `n` comparators separated by commas, up to the end. -/
def comparators? : Nat → List Char → Option (List Comparator)
  | 0, _ => none
  | n + 1, cs => do
    let (c, rest) ← comparator? cs
    match rest with
    | [] => some [c]
    | ',' :: rest => (comparators? n (skipSpaces rest)).map (c :: ·)
    | _ => none

/-- The range that a list of characters is, if it is one. -/
def Range.parseChars? (cs : List Char) : Option Range :=
  match skipSpaces cs with
  | [] => none
  | c :: rest =>
    if isWild c then
      if skipSpaces rest = [] then some ⟨[]⟩ else none
    else (comparators? comparatorLimit (c :: rest)).map Range.mk

/-- The range that a text is, if it is one. -/
def Range.parse? (s : String) : Option Range := Range.parseChars? s.toList

end DepLock.SemVer
