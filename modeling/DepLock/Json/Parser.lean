import DepLock.Json.Value
import DepLock.Text.Split

/-!
# Reading JSON

`parse?` reads a text that is one JSON value between blanks. The grammar is the strict one: no
comments, no trailing commas, no control characters in strings. Half of a surrogate pair is
accepted, and leaves its string without a text.
-/

namespace DepLock.Json

/-- Whether a character may stand between the parts of a value. -/
def isSpace (c : Char) : Bool := c = ' ' || c = '\n' || c = '\t' || c = '\r'

/-- What follows the blanks. -/
def skipSpace (cs : List Char) : List Char := cs.dropWhile isSpace

/-- Whether a character is a decimal digit. -/
def isDigit (c : Char) : Bool := '0' ≤ c && c ≤ '9'

/-- A part of a string: a character, or a code unit by its number. -/
inductive Piece where
  | char (c : Char)
  | unit (n : Nat)

/-- The text of some pieces, if every high surrogate is followed by a low one and there are no
other low ones. -/
def textOf? : List Piece → Option (List Char)
  | [] => some []
  | .char c :: ps => (textOf? ps).map (c :: ·)
  | .unit hi :: ps =>
    if 0xD800 ≤ hi ∧ hi < 0xDC00 then
      match ps with
      | .unit lo :: ps =>
        if 0xDC00 ≤ lo ∧ lo < 0xE000 then
          (textOf? ps).map (Char.ofNat (0x10000 + (hi - 0xD800) * 0x400 + (lo - 0xDC00)) :: ·)
        else none
      | _ => none
    else if 0xDC00 ≤ hi ∧ hi < 0xE000 then none
    else (textOf? ps).map (Char.ofNat hi :: ·)

/-- The character that a letter after a backslash stands for. -/
def escaped? : Char → Option Char
  | '"' => some '"'
  | '\\' => some '\\'
  | '/' => some '/'
  | 'b' => some '\x08'
  | 'f' => some '\x0c'
  | 'n' => some '\n'
  | 'r' => some '\r'
  | 't' => some '\t'
  | _ => none

/-- The pieces of a string up to its closing quote, and what follows it. -/
def pieces? : List Char → Option (List Piece × List Char)
  | [] => none
  | '"' :: cs => some ([], cs)
  | '\\' :: 'u' :: a :: b :: c :: d :: cs => do
    let n := ((← Text.hexValue? a) * 16 + (← Text.hexValue? b)) * 256
      + (← Text.hexValue? c) * 16 + (← Text.hexValue? d)
    let (ps, rest) ← pieces? cs
    some (.unit n :: ps, rest)
  | '\\' :: e :: cs => do
    let c ← escaped? e
    let (ps, rest) ← pieces? cs
    some (.char c :: ps, rest)
  | c :: cs =>
    if c < ' ' then none
    else (pieces? cs).map fun (ps, rest) => (.char c :: ps, rest)

/-- A string after its opening quote, and what follows it. -/
def string? (cs : List Char) : Option (Option String × List Char) :=
  (pieces? cs).map fun (ps, rest) => ((textOf? ps).map String.ofList, rest)

/-- What follows one or more digits. -/
def skipDigits? (cs : List Char) : Option (List Char) :=
  match cs with
  | c :: cs => if isDigit c then some (cs.dropWhile isDigit) else none
  | [] => none

/-- What follows a number. -/
def skipNumber? (cs : List Char) : Option (List Char) := do
  let cs := match cs with
    | '-' :: cs => cs
    | cs => cs
  let cs ← match cs with
    | '0' :: cs => match cs with
      | c :: _ => if isDigit c then none else some cs
      | [] => some cs
    | cs => skipDigits? cs
  let cs ← match cs with
    | '.' :: cs => skipDigits? cs
    | cs => some cs
  match cs with
  | 'e' :: '+' :: cs | 'e' :: '-' :: cs | 'E' :: '+' :: cs | 'E' :: '-' :: cs => skipDigits? cs
  | 'e' :: cs | 'E' :: cs => skipDigits? cs
  | cs => some cs

/-- The rest of an array or an object whose items `item` reads, after an item was read. -/
def moreItems? {α : Type} (close : Char) (item : List Char → Option (α × List Char)) :
    Nat → List Char → Option (List α × List Char)
  | 0, _ => none
  | n + 1, cs =>
    match skipSpace cs with
    | c :: cs =>
      if c = close then some ([], cs)
      else if c = ',' then do
        let (a, cs) ← item (skipSpace cs)
        let (as, cs) ← moreItems? close item n cs
        some (a :: as, cs)
      else none
    | [] => none

/-- The items of an array or an object up to its closing character. -/
def items? {α : Type} (close : Char) (item : List Char → Option (α × List Char)) (n : Nat)
    (cs : List Char) : Option (List α × List Char) :=
  match skipSpace cs with
  | c :: rest =>
    if c = close then some ([], rest)
    else do
      let (a, cs) ← item (c :: rest)
      let (as, cs) ← moreItems? close item n cs
      some (a :: as, cs)
  | [] => none

/-- A member of an object: a name, a colon and a value. -/
def member? (value : List Char → Option (Value × List Char)) :
    List Char → Option ((Option String × Value) × List Char)
  | '"' :: cs => do
    let (key, cs) ← string? cs
    match skipSpace cs with
    | ':' :: cs =>
      let (v, cs) ← value (skipSpace cs)
      some ((key, v), cs)
    | _ => none
  | _ => none

/-- The value at the front of a text, nested at most `n` deep. -/
def value? : Nat → List Char → Option (Value × List Char)
  | 0, _ => none
  | n + 1, cs =>
    match cs with
    | 'n' :: 'u' :: 'l' :: 'l' :: cs => some (.null, cs)
    | 't' :: 'r' :: 'u' :: 'e' :: cs => some (.boolean true, cs)
    | 'f' :: 'a' :: 'l' :: 's' :: 'e' :: cs => some (.boolean false, cs)
    | '"' :: cs => (string? cs).map fun (s, cs) => (.string s, cs)
    | '[' :: cs => (items? ']' (value? n) cs.length cs).map fun (vs, cs) => (.array vs, cs)
    | '\x7b' :: cs =>
      (items? '\x7d' (member? (value? n)) cs.length cs).map fun (ms, cs) => (.object ms, cs)
    | cs => (skipNumber? cs).map fun cs => (.number, cs)

/-- The value that a text is. -/
def parse? (text : String) : Option Value := do
  let cs := text.toList
  let (v, rest) ← value? (cs.length + 1) (skipSpace cs)
  if skipSpace rest = [] then some v else none

end DepLock.Json
