import DepLock.Text.Split

/-!
# Writing TOML documents

A document is written as blocks: assignments at the top, and tables with a header of an array of
tables each. The quotes of a string are chosen so that little has to be escaped: a plain string of
one line, a literal one, and the same over several lines, in this order.
-/

namespace DepLock.Toml

/-- What has to be known of a string to choose its quotes. -/
structure StringShape where
  singleQuotes : Nat
  doubleQuotes : Nat
  backslash : Bool
  lineFeed : Bool
  /-- Whether there is a control character other than a tab or a line feed. -/
  control : Bool

/-- The length of the longest run of `q`, with `current` the length of the run that goes on. -/
def longestRun (q : Char) : Nat → List Char → Nat
  | current, [] => current
  | current, c :: cs =>
    if c = q then longestRun q (current + 1) cs else max current (longestRun q 0 cs)

/-- Whether a character can only be written as an escape. -/
def isControl (c : Char) : Bool := (c < ' ' && c ≠ '\t' && c ≠ '\n') || c = '\x7f'

/-- The shape of a string. -/
def StringShape.of (cs : List Char) : StringShape where
  singleQuotes := longestRun '\x27' 0 cs
  doubleQuotes := longestRun '"' 0 cs
  backslash := cs.contains '\\'
  lineFeed := cs.contains '\n'
  control := cs.any isControl

/-- The ways to quote a string. -/
inductive Quoting where
  | basic
  | literal
  | basicLines
  | literalLines
  deriving DecidableEq, Repr

/-- The way to quote a string of a given shape. -/
def Quoting.of (s : StringShape) : Quoting :=
  if !s.control && !s.backslash && s.doubleQuotes = 0 && !s.lineFeed then .basic
  else if !s.control && s.singleQuotes = 0 && !s.lineFeed then .literal
  else if !s.control && !s.backslash && s.doubleQuotes ≤ 2 then .basicLines
  else if !s.control && s.singleQuotes ≤ 2 then .literalLines
  else if s.lineFeed then .basicLines
  else .basic

/-- The four digits of a number in base 16, in upper case. -/
def fourHexDigits (n : Nat) : List Char :=
  [n / 4096 % 16, n / 256 % 16, n / 16 % 16, n % 16].map fun d => (Text.hexDigit d).toUpper

/-- A character between quotes where escapes count; line feeds stay as they are if `lines` holds. -/
def escapeChar (lines : Bool) (c : Char) : List Char :=
  if c = '\x08' then ['\\', 'b']
  else if c = '\t' then ['\\', 't']
  else if c = '\n' then if lines then ['\n'] else ['\\', 'n']
  else if c = '\x0c' then ['\\', 'f']
  else if c = '\r' then ['\\', 'r']
  else if c = '\\' then ['\\', '\\']
  else if c < ' ' || c = '\x7f' then ['\\', 'u'] ++ fourHexDigits c.toNat
  else [c]

/-- Characters between quotes where escapes count. Up to `allowed` double quotes in a row stay as
they are; `run` of them have just been written. -/
def escapeChars (lines : Bool) (allowed : Nat) : Nat → List Char → List Char
  | _, [] => []
  | run, c :: cs =>
    if c = '"' then
      if run < allowed then '"' :: escapeChars lines allowed (run + 1) cs
      else '\\' :: '"' :: escapeChars lines allowed 0 cs
    else
      let e := escapeChar lines c
      e ++ escapeChars lines allowed 0 cs

/-- A string as it is written. Where it has line feeds, it starts on a line of its own. -/
def renderString (s : String) : String :=
  let cs := s.toList
  let shape := StringShape.of cs
  let first := if shape.lineFeed then "\n" else ""
  match Quoting.of shape with
  | .basic => "\"" ++ String.ofList (escapeChars false 0 0 cs) ++ "\""
  | .literal => "'" ++ s ++ "'"
  | .basicLines => "\"\"\"" ++ first ++ String.ofList (escapeChars true 2 0 cs) ++ "\"\"\""
  | .literalLines => "'''" ++ first ++ s ++ "'''"

/-- An array of strings: on one line when it has at most one element, else with a line for each. -/
def renderStrings : List String → String
  | [] => "[]"
  | [s] => "[" ++ renderString s ++ "]"
  | ss => "[" ++ String.join (ss.map fun s => "\n    " ++ renderString s ++ ",") ++ "\n]"

/-- What is assigned to a key. -/
inductive Field where
  | text (s : String)
  | texts (ss : List String)
  deriving DecidableEq, Repr

/-- The text of a field. -/
def Field.render : Field → String
  | text s => renderString s
  | texts ss => renderStrings ss

/-- Assignments at the top of a document or under the header of an array of tables. Keys and headers
are bare. -/
structure Block where
  header : Option String := none
  fields : List (String × Field)
  deriving DecidableEq, Repr

namespace Block

/-- Assignments to keys, a line for each. -/
def renderFields (fields : List (String × Field)) : String :=
  String.join (fields.map fun (key, f) => key ++ " = " ++ f.render ++ "\n")

/-- A block as it is written. -/
def render (b : Block) : String :=
  match b.header with
  | none => renderFields b.fields
  | some h => "[[" ++ h ++ "]]\n" ++ renderFields b.fields

end Block

/-- A document of some blocks, with an empty line between any two that are not empty. -/
def renderBlocks (bs : List Block) : String :=
  "\n".intercalate ((bs.map (·.render)).filter (· ≠ ""))

end DepLock.Toml
