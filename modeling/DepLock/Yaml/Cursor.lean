import DepLock.Text.Split

/-!
# Reading positions in a YAML stream

What a character means in YAML depends on the line and the column where it stands. A `Cursor` is the
text still to be read together with its position.
-/

namespace DepLock.Yaml

/-- Whether a character may occur in a stream. -/
def isAllowed (c : Char) : Bool :=
  let n := c.toNat
  c = '\t' || c = '\n' || c = '\r' || (0x20 ≤ n && n ≤ 0x7E) || n = 0x85
    || (0xA0 ≤ n && n ≤ 0xD7FF) || (0xE000 ≤ n && n ≤ 0xFFFD) || 0x10000 ≤ n

/-- Whether a character separates words on a line. -/
def isBlank (c : Char) : Bool := c = ' ' || c = '\t'

/-- Whether a character ends a line. -/
def isBreak (c : Char) : Bool :=
  c = '\n' || c = '\r' || c = '\u0085' || c = '\u2028' || c = '\u2029'

/-- Whether a character may occur in the name of an anchor or of a tag handle. -/
def isWordChar (c : Char) : Bool :=
  ('0' ≤ c && c ≤ '9') || ('A' ≤ c && c ≤ 'Z') || ('a' ≤ c && c ≤ 'z') || c = '_' || c = '-'

/-- Whether a character has a meaning inside flow collections. -/
def isFlowIndicator (c : Char) : Bool :=
  c = ',' || c = '[' || c = ']' || c = '\x7b' || c = '\x7d'

/-- Text to be read, with its position in the stream. -/
structure Cursor where
  rest : List Char
  line : Nat := 0
  column : Nat := 0
  index : Nat := 0

namespace Cursor

/-- The character `n` places ahead. -/
def peek? (c : Cursor) (n : Nat) : Option Char := c.rest[n]?

/-- Whether the next character is `x`. -/
def isAt (c : Cursor) (x : Char) : Bool := c.rest.head? = some x

/-- Whether a blank, a line break or the end is `n` places ahead. -/
def blankOrEnd (c : Cursor) (n : Nat) : Bool :=
  match c.peek? n with
  | none => true
  | some x => isBlank x || isBreak x

/-- Whether a line break or the end is next. -/
def atLineEnd (c : Cursor) : Bool :=
  match c.peek? 0 with
  | none => true
  | some x => isBreak x

/-- The cursor `n` characters further on the line. -/
def advance (c : Cursor) (n : Nat) : Cursor :=
  { rest := c.rest.drop n, line := c.line, column := c.column + n, index := c.index + n }

/-- The characters up to the first that does not satisfy `p`, and the cursor there. -/
def span (p : Char → Bool) (c : Cursor) : List Char × Cursor :=
  let cs := c.rest.takeWhile p
  (cs, c.advance cs.length)

/-- The cursor at the first character that does not satisfy `p`. -/
def skip (p : Char → Bool) (c : Cursor) : Cursor := (c.span p).2

/-- The line break at the cursor, as one character, and the cursor on the next line. -/
def lineBreak? (c : Cursor) : Option (Char × Cursor) :=
  let next (n : Nat) : Cursor :=
    { rest := c.rest.drop n, line := c.line + 1, column := 0, index := c.index + n }
  match c.rest with
  | '\r' :: '\n' :: _ => some ('\n', next 2)
  | x :: _ =>
    if x = '\u2028' || x = '\u2029' then some (x, next 1)
    else if isBreak x then some ('\n', next 1)
    else none
  | [] => none

/-- The cursor after a line break, if there is one. -/
def skipBreak (c : Cursor) : Cursor :=
  match c.lineBreak? with
  | some (_, next) => next
  | none => c

/-- Whether three copies of `x` and then a blank or the end begin the line. -/
def atMarker (c : Cursor) (x : Char) : Bool :=
  c.column = 0 && c.rest.take 3 = [x, x, x] && c.blankOrEnd 3

/-- Whether a document begins or ends here. -/
def atDocumentMarker (c : Cursor) : Bool := c.atMarker '-' || c.atMarker '.'

end Cursor
end DepLock.Yaml
