import DepLock.Text.Blank

/-!
# Splitting texts

Texts are taken apart at single characters (`split`, `lines`) and at known beginnings and
endings (`stripPrefix?`, `stripSuffix?`). All of it is defined on the list of characters, so
that the list library's lemmas apply.
-/

namespace DepLock.Text

/-- The parts of a text between the occurrences of `sep`; a text without `sep` is one part. -/
def split (sep : Char) (s : String) : List String :=
  (s.toList.splitOn sep).map String.ofList

/-- The part of a text before the first `sep`, and the part after it. -/
def splitFirst? (sep : Char) (s : String) : Option (String × String) :=
  match s.toList.span (· ≠ sep) with
  | (_, []) => none
  | (before, _ :: after) => some (String.ofList before, String.ofList after)

/-- The first element of a text that `sep` takes apart. -/
def firstPart (sep : Char) (s : String) : String :=
  String.ofList (s.toList.takeWhile (· ≠ sep))

/-- The last element of a text that `sep` takes apart. -/
def lastPart (sep : Char) (s : String) : String :=
  String.ofList (s.toList.reverse.takeWhile (· ≠ sep)).reverse

/-- Whether `s` begins with `pre`. -/
def startsWith (pre s : String) : Bool :=
  pre.toList.isPrefixOf s.toList

/-- Whether `s` ends with `suf`. -/
def endsWith (suf s : String) : Bool :=
  suf.toList.isSuffixOf s.toList

/-- What follows the beginning `pre` of a text. -/
def stripPrefix? (pre s : String) : Option String :=
  (pre.toList.isPrefixOf? s.toList).map String.ofList

/-- What precedes the ending `suf` of a text. -/
def stripSuffix? (suf s : String) : Option String :=
  (suf.toList.isSuffixOf? s.toList).map String.ofList

/-- A text without its trailing copies of `c`. -/
def trimEndChar (c : Char) (s : String) : String :=
  String.ofList (dropEndWhile (· = c) s.toList)

/-- A text without its leading copies of `c`. -/
def trimStartChar (c : Char) (s : String) : String :=
  String.ofList (s.toList.dropWhile (· = c))

/-- The part of a list after its first segment equal to `sub`, and the part before it. -/
def cutAt? (sub : List Char) : List Char → Option (List Char × List Char)
  | [] => if sub = [] then some ([], []) else none
  | c :: cs =>
    match sub.isPrefixOf? (c :: cs) with
    | some rest => some ([], rest)
    | none => (cutAt? sub cs).map fun (before, after) => (c :: before, after)

/-- Whether `sub` occurs in `s`. -/
def contains (sub s : String) : Bool :=
  (cutAt? sub.toList s.toList).isSome

/-- The part of a text before the last occurrence of `sub`, and the part after it. -/
def splitLast? (sub s : String) : Option (String × String) :=
  (cutAt? sub.toList.reverse s.toList.reverse).map fun (after, before) =>
    (String.ofList before.reverse, String.ofList after.reverse)

/-- The lines of a text: each ends at a line feed, which is dropped together with one carriage
return before it, and nothing after the last line feed is no line. -/
def lines (s : String) : List String :=
  let parts := s.toList.splitOn '\n'
  let parts := if parts.getLast? = some [] then parts.dropLast else parts
  match parts.reverse with
  | [] => []
  | last :: init =>
    let ended := if s.toList.getLast? = some '\n' then dropReturn last else last
    (init.reverse.map dropReturn ++ [ended]).map String.ofList
where
  /-- A line without the carriage return at its end. -/
  dropReturn (cs : List Char) : List Char :=
    if cs.getLast? = some '\r' then cs.dropLast else cs

/-- The length of a text in bytes. -/
def byteLength (s : String) : Nat :=
  s.utf8ByteSize

/-- The digits of a number in base 16, in lower case. -/
def hexDigit (n : Nat) : Char :=
  if n < 10 then Char.ofNat (48 + n) else Char.ofNat (87 + n)

/-- The value of a hexadecimal digit of either case. -/
def hexValue? (c : Char) : Option Nat :=
  if '0' ≤ c ∧ c ≤ '9' then some (c.toNat - 48)
  else if 'a' ≤ c ∧ c ≤ 'f' then some (c.toNat - 87)
  else if 'A' ≤ c ∧ c ≤ 'F' then some (c.toNat - 55)
  else none

/-- Whether a character is a hexadecimal digit of either case. -/
def isHexDigit (c : Char) : Bool :=
  (hexValue? c).isSome

end DepLock.Text
