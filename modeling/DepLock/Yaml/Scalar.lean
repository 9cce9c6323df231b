import DepLock.Yaml.Cursor

/-!
# Scalars of YAML

A scalar is written plainly, between quotes, or as a block of lines. Except in a literal block, the
line breaks within it are folded: a single one is a space, and of several all but the first stay.
-/

namespace DepLock.Yaml

/-- The blanks and line breaks between two words. -/
inductive Gap where
  | blanks (cs : List Char)
  | breaks (first : Option Char) (more : List Char)

namespace Gap

/-- What a gap stands for. -/
def fold : Gap → List Char
  | blanks cs => cs
  | breaks (some '\n') [] => [' ']
  | breaks (some '\n') more => more
  | breaks (some b) more => b :: more
  | breaks none more => more

/-- Whether a gap goes over the end of a line. -/
def isMultiline : Gap → Bool
  | blanks _ => false
  | breaks _ _ => true

/-- The gap at the cursor, after what was read of it before. On later lines blanks do not count,
but no tab may stand before the column `margin`. -/
def read? (margin : Nat) : Nat → Gap → Cursor → Option (Gap × Cursor)
  | 0, _, _ => none
  | n + 1, g, c =>
    match c.peek? 0, c.lineBreak?, g with
    | _, some (b, next), blanks _ => read? margin n (breaks (some b) []) next
    | _, some (b, next), breaks first more => read? margin n (breaks first (more ++ [b])) next
    | some x, none, g =>
      if !isBlank x then some (g, c)
      else match g with
        | blanks cs => read? margin n (blanks (cs ++ [x])) (c.advance 1)
        | breaks _ _ =>
          if x = '\t' && c.column < margin then none else read? margin n g (c.advance 1)
    | none, none, g => some (g, c)

end Gap

/-! ### Plain scalars -/

/-- The characters of a plain scalar up to a blank or an indicator that ends it. -/
def plainWord? (inFlow : Bool) : List Char → Option (List Char)
  | [] => some []
  | x :: cs =>
    if isBlank x || isBreak x then some []
    else
      let next := cs.head?
      if inFlow && x = ':' && next.any fun y => isFlowIndicator y || y = '?' then none
      else if x = ':' && next.all fun y => isBlank y || isBreak y then some []
      else if inFlow && isFlowIndicator x then some []
      else (plainWord? inFlow cs).map (x :: ·)

/-- The rest of a plain scalar after some text and a gap, whether it goes over the end of a line,
and what follows. -/
def plainLoop? (inFlow : Bool) (margin : Nat) :
    Nat → List Char → Gap → Cursor → Option (List Char × Bool × Cursor)
  | 0, _, _, _ => none
  | n + 1, text, gap, c => do
    if c.atDocumentMarker || c.isAt '#' then some (text, gap.isMultiline, c)
    else
      let word ← plainWord? inFlow c.rest
      let text := if word = [] then text else text ++ gap.fold ++ word
      let gap := if word = [] then gap else .blanks []
      let c := c.advance word.length
      match c.peek? 0 with
      | none => some (text, gap.isMultiline, c)
      | some x =>
        if !(isBlank x || isBreak x) then some (text, gap.isMultiline, c)
        else
          let (gap, c) ← gap.read? margin (c.rest.length + 1) c
          if !inFlow && c.column < margin then some (text, gap.isMultiline, c)
          else plainLoop? inFlow margin n text gap c

/-- The plain scalar at the cursor, whether it goes over the end of a line, and what follows. In
block context its lines do not begin before the column `margin`. -/
def plain? (inFlow : Bool) (margin : Nat) (c : Cursor) : Option (String × Bool × Cursor) :=
  (plainLoop? inFlow margin (c.rest.length + 1) [] (.blanks []) c).map fun (text, multi, c) =>
    (String.ofList text, multi, c)

/-! ### Quoted scalars -/

/-- The character that a letter after a backslash stands for. -/
def escaped? : Char → Option Char
  | '0' => some '\x00'
  | 'a' => some '\x07'
  | 'b' => some '\x08'
  | 't' | '\t' => some '\t'
  | 'n' => some '\n'
  | 'v' => some '\x0b'
  | 'f' => some '\x0c'
  | 'r' => some '\r'
  | 'e' => some '\x1b'
  | ' ' => some ' '
  | '"' => some '"'
  | '/' => some '/'
  | '\\' => some '\\'
  | 'N' => some '\u0085'
  | '_' => some '\u00a0'
  | 'L' => some '\u2028'
  | 'P' => some '\u2029'
  | _ => none

/-- The number of hexadecimal digits that follow a letter after a backslash. -/
def codeLength? : Char → Option Nat
  | 'x' => some 2
  | 'u' => some 4
  | 'U' => some 8
  | _ => none

/-- The character with a number. -/
def charOf? (n : Nat) : Option Char := if n.isValidChar then some (Char.ofNat n) else none

/-- The character of an escape after its backslash, and the length of the escape. -/
def escape? : List Char → Option (Char × Nat)
  | [] => none
  | e :: cs =>
    match escaped? e with
    | some c => some (c, 1)
    | none => do
      let len ← codeLength? e
      let digits ← (cs.take len).mapM Text.hexValue?
      if digits.length = len then
        some (← charOf? (digits.foldl (fun n d => n * 16 + d) 0), len + 1)
      else none

/-- The characters of a quoted scalar up to a blank or its quote, and whether an escaped line break
ended them. -/
def quotedWord? (quote : Char) :
    Nat → List Char → Cursor → Option (List Char × Bool × Cursor)
  | 0, _, _ => none
  | n + 1, text, c =>
    match c.rest with
    | [] => some (text, false, c)
    | x :: cs =>
      if isBlank x || isBreak x then some (text, false, c)
      else if x = quote then
        if quote = '\'' && cs.head? = some '\'' then
          quotedWord? quote n (text ++ ['\'']) (c.advance 2)
        else some (text, false, c)
      else if quote = '"' && x = '\\' then
        if cs.head?.any isBreak then some (text, true, (c.advance 1).skipBreak)
        else do
          let (e, len) ← escape? cs
          quotedWord? quote n (text ++ [e]) (c.advance (len + 1))
      else quotedWord? quote n (text ++ [x]) (c.advance 1)

/-- The rest of a quoted scalar after some text, and what follows its closing quote. -/
def quotedLoop? (quote : Char) : Nat → List Char → Cursor → Option (List Char × Cursor)
  | 0, _, _ => none
  | n + 1, text, c => do
    if c.atDocumentMarker || c.rest = [] then none
    else
      let (word, folded, c) ← quotedWord? quote (c.rest.length + 1) [] c
      let text := text ++ word
      if c.isAt quote then some (text, c.advance 1)
      else
        let gap := if folded then Gap.breaks none [] else .blanks []
        let (gap, c) ← gap.read? 0 (c.rest.length + 1) c
        quotedLoop? quote n (text ++ gap.fold) c

/-- The quoted scalar at the cursor, and what follows it. -/
def quoted? (quote : Char) (c : Cursor) : Option (String × Cursor) :=
  (quotedLoop? quote (c.rest.length + 1) [] (c.advance 1)).map fun (text, c) =>
    (String.ofList text, c)

/-! ### Block scalars -/

/-- What happens to the line breaks at the end of a block. -/
inductive Chomping where
  | strip
  | clip
  | keep
  deriving DecidableEq

/-- The chomping that a character asks for. -/
def Chomping.ofChar? : Option Char → Option Chomping
  | some '+' => some .keep
  | some '-' => some .strip
  | _ => none

/-- An indentation that a digit asks for; it must not be zero. -/
def indentDigit? (c : Cursor) : Option (Option Nat × Cursor) :=
  match c.peek? 0 with
  | some x =>
    if x = '0' then none
    else if '1' ≤ x && x ≤ '9' then some (some (x.toNat - 48), c.advance 1)
    else some (none, c)
  | none => some (none, c)

/-- The chomping and the indentation in the header of a block, in either order. -/
def blockHeader? (c : Cursor) : Option (Chomping × Option Nat × Cursor) :=
  match Chomping.ofChar? (c.peek? 0) with
  | some ch => (indentDigit? (c.advance 1)).map fun (indent, c) => (ch, indent, c)
  | none => do
    let (indent, c) ← indentDigit? c
    if indent.isNone then some (.clip, none, c)
    else match Chomping.ofChar? (c.peek? 0) with
      | some ch => some (ch, indent, c.advance 1)
      | none => some (.clip, indent, c)

/-- The empty lines at the cursor: their breaks, the greatest column reached, and what follows.
Spaces are skipped up to the column `indent`, all of them if it is not known yet. -/
def blockBreaks? (indent : Option Nat) :
    Nat → List Char → Nat → Cursor → Option (List Char × Nat × Cursor)
  | 0, _, _, _ => none
  | n + 1, breaks, widest, c =>
    let spaces := (c.rest.takeWhile (· = ' ')).length
    let c := c.advance (match indent with
      | some i => min spaces (i - c.column)
      | none => spaces)
    let widest := max widest c.column
    if c.isAt '\t' && indent.all (c.column < ·) then none
    else match c.lineBreak? with
      | some (b, c) => blockBreaks? indent n (breaks ++ [b]) widest c
      | none => some (breaks, widest, c)

/-- The lines of a block after some text. `last` is the break that ended the line before, `breaks`
are those of the empty lines since, and `indented` says whether that line began with a blank. -/
def blockLines? (literal : Bool) (indent : Nat) :
    Nat → List Char → Option Char → List Char → Bool → Cursor →
      Option (List Char × Option Char × List Char × Cursor)
  | 0, _, _, _, _, _ => none
  | n + 1, text, last, breaks, indented, c => do
    if c.column ≠ indent || c.rest = [] then some (text, last, breaks, c)
    else
      let blank := c.rest.head?.any isBlank
      let folds := !literal && last = some '\n' && !indented && !blank
      let joint := if folds then (if breaks = [] then [' '] else []) else last.toList
      let (line, c) := c.span fun x => !isBreak x
      let (last, c) := match c.lineBreak? with
        | some (b, c) => (some b, c)
        | none => (none, c)
      let text := text ++ joint ++ breaks ++ line
      let (breaks, _, c) ← blockBreaks? (some indent) (c.rest.length + 1) [] 0 c
      blockLines? literal indent n text last breaks blank c

/-- The block scalar at the cursor, inside a collection at the column `outer`, and what follows. -/
def block? (literal : Bool) (outer : Int) (c : Cursor) : Option (String × Cursor) := do
  let (chomping, asked, c) ← blockHeader? (c.advance 1)
  let c := c.skip isBlank
  let c := if c.isAt '#' then c.skip fun x => !isBreak x else c
  if !c.atLineEnd then none
  else
    let c := c.skipBreak
    let known := asked.map fun n => if 0 ≤ outer then outer.toNat + n else n
    let (breaks, widest, c) ← blockBreaks? known (c.rest.length + 1) [] 0 c
    let indent := known.getD (max widest (max (outer + 1).toNat 1))
    let (text, last, breaks, c) ←
      blockLines? literal indent (c.rest.length + 1) [] none breaks false c
    let ending := match chomping with
      | .strip => []
      | .clip => last.toList
      | .keep => last.toList ++ breaks
    some (String.ofList (text ++ ending), c)

end DepLock.Yaml
