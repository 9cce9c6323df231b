import DepLock.Yaml.Scalar

/-!
# Tokens of YAML

A stream is a list of tokens in which indentation is explicit: a collection in block style begins
with a token of its own and ends with `blockEnd`. A key may be written before anything shows that it
is one. The `Scanner` therefore remembers for each open flow collection where a key may have begun,
and puts the missing tokens there once a colon follows.
-/

namespace DepLock.Yaml

/-- The words of a YAML stream. -/
inductive Token where
  | version (major minor : Nat)
  | tagHandle (handle : String)
  | documentStart
  | documentEnd
  | blockSequence
  | blockMapping
  | blockEnd
  | flowSequence
  | flowSequenceEnd
  | flowMapping
  | flowMappingEnd
  | entry
  | separator
  | key
  | value
  | alias (name : String)
  | anchor (name : String)
  | tag (handle : String)
  | scalar (text : String) (isPlain : Bool)
  | streamEnd
  deriving DecidableEq, Repr

/-- A place where a key may have begun. In block context it must have if it stands at the
indentation of the collection. -/
structure KeyStart where
  required : Bool
  position : Nat
  line : Nat
  index : Nat

/-- The state of a scan. `keys` has an element for the block context and one for each open flow
collection, innermost first. `indent` is the column of the innermost block collection. -/
structure Scanner where
  cursor : Cursor
  tokens : Array Token := #[]
  indent : Int := -1
  outerIndents : List Int := []
  keyAllowed : Bool := true
  keys : List (Option KeyStart) := [none]

namespace Scanner

/-- Whether a flow collection is open. -/
def inFlow (s : Scanner) : Bool := 1 < s.keys.length

/-- The column of the cursor. -/
def column (s : Scanner) : Int := s.cursor.column

/-- The scanner with one more token and the cursor `n` characters further. -/
def emit (s : Scanner) (t : Token) (n : Nat) : Scanner :=
  { s with tokens := s.tokens.push t, cursor := s.cursor.advance n }

/-- The longest distance between the beginning of a key and its colon. -/
def longestKey : Nat := 1024

/-- The scanner without the keys that cannot be any more: those on earlier lines and those too far
back. -/
def dropStaleKeys? (s : Scanner) : Option Scanner := do
  let keys ← s.keys.mapM fun k => match k with
    | none => some none
    | some k =>
      if k.line < s.cursor.line || k.index + longestKey < s.cursor.index then
        if k.required then none else some none
      else some (some k)
  some { s with keys }

/-- The scanner without the innermost key, which must not be required. -/
def dropKey? (s : Scanner) : Option Scanner :=
  match s.keys with
  | [] => some s
  | some k :: ks => if k.required then none else some { s with keys := none :: ks }
  | none :: _ => some s

/-- The scanner with the possible beginning of a key at the cursor. -/
def markKey? (s : Scanner) : Option Scanner :=
  if !s.keyAllowed then some s
  else do
    let s ← s.dropKey?
    let k : KeyStart :=
      { required := !s.inFlow && s.indent = s.column, position := s.tokens.size
        line := s.cursor.line, index := s.cursor.index }
    some { s with keys := some k :: s.keys.drop 1 }

/-- The scanner inside a block collection that begins at a column, unless it is inside already. The
token for it goes to a position among the tokens. -/
def openBlock (s : Scanner) (column : Int) (position : Nat) (t : Token) : Scanner :=
  if !s.inFlow && s.indent < column then
    { s with outerIndents := s.indent :: s.outerIndents, indent := column
             tokens := s.tokens.insertIdxIfInBounds position t }
  else s

/-- The scanner after the ends of the block collections that begin right of a column. -/
def closeBlocks (s : Scanner) (column : Int) : Scanner :=
  if s.inFlow then s else go s.outerIndents s
where
  /-- Closes the innermost of some blocks, then those around it. -/
  go : List Int → Scanner → Scanner
    | [], s => s
    | outer :: outers, s =>
      if column < s.indent then
        go outers { s with indent := outer, outerIndents := outers
                           tokens := s.tokens.push .blockEnd }
      else s

/-- The scanner at the next token: blanks, comments, line breaks, and a byte order mark at the front of
a line are skipped. A tab counts as a blank where no key can begin. -/
def skipLayout : Nat → Scanner → Scanner
  | 0, s => s
  | n + 1, s =>
    let start := if s.cursor.column = 0 && s.cursor.isAt '\ufeff' then s.cursor.advance 1 else s.cursor
    let c := start.skip fun x => x = ' ' || ((s.inFlow || !s.keyAllowed) && x = '\t')
    let c := if c.isAt '#' then c.skip fun x => !isBreak x else c
    match c.lineBreak? with
    | some (_, c) => skipLayout n { s with cursor := c, keyAllowed := s.keyAllowed || !s.inFlow }
    | none => { s with cursor := c }

/-! ### Directives, anchors and tags -/

/-- A number of at most nine digits. -/
def number? (c : Cursor) : Option (Nat × Cursor) :=
  let (ds, c) := c.span fun x => '0' ≤ x && x ≤ '9'
  if ds = [] || 9 < ds.length then none
  else some (ds.foldl (fun n d => n * 10 + (d.toNat - 48)) 0, c)

/-- Whether a character may occur in a tag outside angle brackets. -/
def isTagChar (x : Char) : Bool :=
  isWordChar x || ";/?:@&=+$.%!~*'()".toList.contains x

/-- The number of continuation bytes that follow the first byte of an encoded character. -/
def continuations? (byte : Nat) : Option Nat :=
  if byte < 0x80 then some 0
  else if 0xC0 ≤ byte && byte < 0xE0 then some 1
  else if 0xE0 ≤ byte && byte < 0xF0 then some 2
  else if 0xF0 ≤ byte && byte < 0xF8 then some 3
  else none

/-- Whether every percent sign begins an encoded character: `due` more continuation bytes are
expected. -/
def escapesAreValid : Nat → List Char → Bool
  | due, '%' :: a :: b :: cs =>
    match Text.hexValue? a, Text.hexValue? b with
    | some hi, some lo =>
      let byte := hi * 16 + lo
      match due with
      | 0 => match continuations? byte with
        | some n => escapesAreValid n cs
        | none => false
      | n + 1 => 0x80 ≤ byte && byte < 0xC0 && escapesAreValid n cs
    | _, _ => false
  | _, '%' :: _ => false
  | due, _ :: cs => due = 0 && escapesAreValid 0 cs
  | due, [] => due = 0

/-- The characters of a tag that satisfy `p`, in which percent signs are escapes. -/
def tagChars? (p : Char → Bool) (c : Cursor) : Option (List Char × Cursor) :=
  let (cs, c) := c.span p
  if escapesAreValid 0 cs then some (cs, c) else none

/-- A tag handle: an exclamation mark, or a word between two of them. A directive must not leave
the second one out after a word. -/
def tagHandle? (inDirective : Bool) (c : Cursor) : Option (List Char × Cursor) :=
  if !c.isAt '!' then none
  else
    let (word, next) := (c.advance 1).span isWordChar
    if next.isAt '!' then some ('!' :: word ++ ['!'], next.advance 1)
    else if inDirective && word ≠ [] then none
    else some ('!' :: word, next)

/-- The end of a line that may hold a comment. -/
def restOfLine? (c : Cursor) : Option Cursor :=
  let c := c.skip isBlank
  let c := if c.isAt '#' then c.skip fun x => !isBreak x else c
  if c.atLineEnd then some c.skipBreak else none

/-- The directive at the cursor, and what follows its line. -/
def directive? (c : Cursor) : Option (Token × Cursor) := do
  let (name, c) := (c.advance 1).span isWordChar
  if !c.blankOrEnd 0 then none
  else
    let c := c.skip isBlank
    if name = "YAML".toList then
      let (major, c) ← number? c
      if !c.isAt '.' then none
      else
        let (minor, c) ← number? (c.advance 1)
        some (.version major minor, ← restOfLine? c)
    else if name = "TAG".toList then
      let (handle, c) ← tagHandle? true c
      if !(c.peek? 0).any isBlank then none
      else
        let (uri, c) ← tagChars? (fun x => isTagChar x || ",[]".toList.contains x) (c.skip isBlank)
        if uri = [] || !c.blankOrEnd 0 then none
        else some (.tagHandle (String.ofList handle), ← restOfLine? c)
    else none

/-- The name after an ampersand or an asterisk, and what follows it. -/
def anchorName? (c : Cursor) : Option (String × Cursor) :=
  let (name, c) := (c.advance 1).span isWordChar
  let ends := c.blankOrEnd 0 || (c.peek? 0).any fun x => "?:,]%@\x60\x7d".toList.contains x
  if name = [] || !ends then none else some (String.ofList name, c)

/-- The handle of the tag at the cursor, and what follows the tag. A tag that needs no handle has
an empty one. -/
def tag? (inFlow : Bool) (c : Cursor) : Option (String × Cursor) := do
  let (handle, c) ←
    if c.peek? 1 = some '<' then do
      let (uri, c) ← tagChars? (fun x => isTagChar x || ",[]".toList.contains x) (c.advance 2)
      if uri = [] || !c.isAt '>' then none else some ([], c.advance 1)
    else do
      let (handle, c) ← tagHandle? false c
      let (suffix, next) ← tagChars? isTagChar c
      if 1 < handle.length && handle.getLast? = some '!' then
        if suffix = [] then none else some (handle, next)
      else if handle.length = 1 && suffix = [] then some ([], next)
      else some (['!'], next)
  if c.blankOrEnd 0 || (inFlow && c.isAt ',') then some (String.ofList handle, c) else none

/-! ### One token after the other -/

/-- The scanner outside all blocks and keys, before a directive or a document marker. -/
def leaveDocument? (s : Scanner) : Option Scanner := do
  let s ← (s.closeBlocks (-1)).dropKey?
  some { s with keyAllowed := false }

/-- The scanner after the opening of a flow collection. -/
def openFlow? (s : Scanner) (t : Token) : Option Scanner := do
  let s ← s.markKey?
  some ({ s with keys := none :: s.keys, keyAllowed := true }.emit t 1)

/-- The scanner after the end of a flow collection. -/
def closeFlow? (s : Scanner) (t : Token) : Option Scanner := do
  let s ← s.dropKey?
  let keys := if s.inFlow then s.keys.drop 1 else s.keys
  some ({ s with keys, keyAllowed := false }.emit t 1)

/-- The scanner after an indicator at which a block collection begins, unless it goes on. -/
def blockIndicator? (s : Scanner) (start t : Token) (keyNext : Bool) : Option Scanner := do
  if !s.inFlow && !s.keyAllowed then none
  else
    let s ← (s.openBlock s.column s.tokens.size start).dropKey?
    some ({ s with keyAllowed := keyNext }.emit t 1)

/-- The scanner after a colon. If a key can have begun before it, it did. -/
def value? (s : Scanner) : Option Scanner :=
  match s.keys with
  | some k :: ks =>
    let column : Int := s.column - ((s.cursor.index - k.index : Nat) : Int)
    let s := { s with tokens := s.tokens.insertIdxIfInBounds k.position .key, keys := none :: ks }
    let s := s.openBlock column k.position .blockMapping
    some ({ s with keyAllowed := false }.emit .value 1)
  | _ =>
    if s.inFlow then some ({ s with keyAllowed := false }.emit .value 1)
    else if !s.keyAllowed then none
    else
      let s := s.openBlock s.column s.tokens.size .blockMapping
      some (s.emit .value 1)

/-- The scanner after a token that may begin a key. -/
def inline? (s : Scanner) (read : Cursor → Option (Token × Cursor)) : Option Scanner := do
  let s ← s.markKey?
  let (t, c) ← read s.cursor
  some { s with tokens := s.tokens.push t, cursor := c, keyAllowed := false }

/-- The scanner after a block scalar. -/
def blockScalar? (s : Scanner) (literal : Bool) : Option Scanner := do
  let s ← s.dropKey?
  let (text, c) ← block? literal s.indent s.cursor
  some { s with tokens := s.tokens.push (.scalar text false), cursor := c, keyAllowed := true }

/-- The scanner after a plain scalar. If it went over the end of a line, a key may follow. -/
def plainScalar? (s : Scanner) : Option Scanner := do
  let s ← s.markKey?
  let (text, multi, c) ← plain? s.inFlow (s.indent + 1).toNat s.cursor
  some { s with tokens := s.tokens.push (.scalar text true), cursor := c, keyAllowed := multi }

/-- Whether a plain scalar can begin with a character before another. -/
def beginsPlain (inFlow : Bool) (x : Char) (next : Option Char) : Bool :=
  let blankNext := next.all fun y => isBlank y || isBreak y
  if x = '-' then !next.any isBlank
  else if x = '?' || x = ':' then !inFlow && !blankNext
  else !isBlank x && !(",[]#&*!|>'\"%@\x60\x7b\x7d".toList.contains x)

/-- The scanner after the next token, and whether that was the end. -/
def step? (s : Scanner) : Option (Scanner × Bool) := do
  let s ← (s.skipLayout (s.cursor.rest.length + 1)).dropStaleKeys?
  let s := s.closeBlocks s.column
  let c := s.cursor
  let more (s : Option Scanner) : Option (Scanner × Bool) := s.map (·, false)
  match c.rest with
  | [] =>
    let s ← s.leaveDocument?
    some (s.emit .streamEnd 0, true)
  | x :: cs =>
    let blankNext := c.blankOrEnd 1
    if c.column = 0 && x = '%' then more do
      let s ← s.leaveDocument?
      let (t, c) ← directive? c
      some { s with tokens := s.tokens.push t, cursor := c }
    else if c.atMarker '-' then more <| s.leaveDocument?.map (·.emit .documentStart 3)
    else if c.atMarker '.' then more <| s.leaveDocument?.map (·.emit .documentEnd 3)
    else if x = '[' then more <| s.openFlow? .flowSequence
    else if x = '\x7b' then more <| s.openFlow? .flowMapping
    else if x = ']' then more <| s.closeFlow? .flowSequenceEnd
    else if x = '\x7d' then more <| s.closeFlow? .flowMappingEnd
    else if x = ',' then more do
      let s ← s.dropKey?
      some ({ s with keyAllowed := true }.emit .separator 1)
    else if x = '-' && blankNext then more <| s.blockIndicator? .blockSequence .entry true
    else if x = '?' && (s.inFlow || blankNext) then
      more <| s.blockIndicator? .blockMapping .key (!s.inFlow)
    else if x = ':' && (s.inFlow || blankNext) then more s.value?
    else if x = '*' then more <| s.inline? fun c => (anchorName? c).map fun (n, c) => (.alias n, c)
    else if x = '&' then more <| s.inline? fun c => (anchorName? c).map fun (n, c) => (.anchor n, c)
    else if x = '!' then more <| s.inline? fun c => (tag? s.inFlow c).map fun (h, c) => (.tag h, c)
    else if x = '|' && !s.inFlow then more <| s.blockScalar? true
    else if x = '>' && !s.inFlow then more <| s.blockScalar? false
    else if x = '\'' || x = '"' then
      more <| s.inline? fun c => (quoted? x c).map fun (text, c) => (.scalar text false, c)
    else if beginsPlain s.inFlow x cs.head? then more s.plainScalar?
    else none

/-- The tokens up to the end of the stream. -/
def run? : Nat → Scanner → Option (List Token)
  | 0, _ => none
  | n + 1, s => do
    let (s, ended) ← s.step?
    if ended then some s.tokens.toList else run? n s

end Scanner

/-- The tokens of a stream. -/
def Token.ofText? (text : String) : Option (List Token) :=
  let cs := text.toList
  if cs.all isAllowed then Scanner.run? (cs.length + 1) { cursor := { rest := cs } } else none

end DepLock.Yaml
