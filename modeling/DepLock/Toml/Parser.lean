import DepLock.Toml.Scalar

/-!
# Reading TOML documents

`parse?` reads a whole document into its root table. Values nest at most `depthLimit` deep, and a
dotted key has fewer parts than that. A document has no result if any of it is malformed, if a key
is defined twice, or if a table is extended that may not be.
-/

namespace DepLock.Toml

/-- How deep arrays and tables in braces may nest. -/
def depthLimit : Nat := 80

/-! ### Keys -/

/-- Whether a character may stand in a bare key. -/
def isBareKeyChar (c : Char) : Bool :=
  isDecimal c || ('a' ≤ c && c ≤ 'z') || ('A' ≤ c && c ≤ 'Z') || c = '-' || c = '_'

/-- One part of a key: bare, or a string of one line. -/
def keyPart? (cs : List Char) : Option (String × List Char) :=
  match cs with
  | '"' :: rest => (basicChars (cs.length + 1) rest).map fun (s, rest) => (String.ofList s, rest)
  | '\x27' :: rest => (literalChars rest).map fun (s, rest) => (String.ofList s, rest)
  | cs =>
    let (s, rest) := cs.span isBareKeyChar
    if s = [] then none else some (String.ofList s, rest)

/-- The parts of a key, at most `n`, with spaces around each. -/
def keyParts? : Nat → List Char → Option (List String × List Char)
  | 0, _ => none
  | n + 1, cs => do
    let (part, rest) ← keyPart? (skipSpace cs)
    match skipSpace rest with
    | '.' :: rest =>
      let (parts, rest) ← keyParts? n rest
      some (part :: parts, rest)
    | rest => some ([part], rest)

/-- A key: the parts that lead to a table, and the last one. -/
def key? (cs : List Char) : Option (List String × String × List Char) := do
  let (parts, rest) ← keyParts? (depthLimit - 1) cs
  let last ← parts.getLast?
  some (parts.dropLast, last, rest)

/-! ### Values -/

/-- The characters after spaces, comments and line ends, in at most `n` turns. -/
def skipLayout : Nat → List Char → List Char
  | 0, cs => cs
  | n + 1, cs =>
    let cs := skipSpace cs
    match cs with
    | '#' :: _ => skipLayout n (skipComment cs)
    | _ => match lineEnd? cs with
      | some rest => skipLayout n rest
      | none => cs

/-- The elements of an array up to its bracket, each read by `value`, in at most `n` turns. A comma
may stand after the last. -/
def elements? (value : List Char → Option (Value × List Char)) :
    Nat → List Char → Option (List Value × List Char)
  | 0, _ => none
  | n + 1, cs =>
    match skipLayout cs.length cs with
    | ']' :: rest => some ([], rest)
    | cs => do
      let (v, rest) ← value cs
      match skipLayout rest.length rest with
      | ',' :: rest =>
        let (vs, rest) ← elements? value n rest
        some (v :: vs, rest)
      | ']' :: rest => some ([v], rest)
      | _ => none

/-- A key, an equals sign, and a value read by `value`. -/
def assignment? (value : List Char → Option (Value × List Char)) (cs : List Char) :
    Option (List String × String × Value × List Char) := do
  let (path, key, rest) ← key? cs
  let rest ← expect? '=' rest
  let (v, rest) ← value (skipSpace rest)
  some (path, key, v, rest)

/-- The table of the assignments up to a brace, in at most `n` turns, added to `t`. -/
def assignments? (value : List Char → Option (Value × List Char)) :
    Nat → Table → List Char → Option (Table × List Char)
  | 0, _, _ => none
  | n + 1, t, cs => do
    let (path, key, v, rest) ← assignment? value cs
    let t ← t.define? path key v
    match skipSpace rest with
    | ',' :: rest => assignments? value n t rest
    | '}' :: rest => some (t, rest)
    | _ => none

/-- A value in which arrays and tables nest at most `depth` deep. -/
def value? : Nat → List Char → Option (Value × List Char)
  | depth, cs =>
    match cs with
    | [] => none
    | c :: rest =>
      if c = '"' || c = '\x27' then (string? cs).map fun (s, rest) => (.string s, rest)
      else if c = '[' then
        match depth with
        | 0 => none
        | depth + 1 =>
          (elements? (value? depth) (cs.length + 1) rest).map fun (vs, rest) => (.array vs, rest)
      else if c = '\x7b' then
        match depth with
        | 0 => none
        | depth + 1 =>
          match skipSpace rest with
          | '}' :: rest => some (.table .braces [], rest)
          | rest =>
            (assignments? (value? depth) (cs.length + 1) ⟨.braces, []⟩ rest).map
              fun (t, rest) => (t.toValue, rest)
      else if c = 't' || c = 'f' then boolean? cs
      else if isDecimal c || c = '+' || c = '-' || c = 'i' || c = 'n' then number? cs
      else none

/-! ### Documents -/

/-- A document in progress: its root without the table of the current header, that header, and that
table. -/
structure Draft where
  root : Table := ⟨.header, []⟩
  path : List String := []
  inArray : Bool := false
  current : Table := ⟨.header, []⟩

namespace Draft

/-- The root with the current table put in its place. -/
def close? (d : Draft) : Option Table :=
  match d.path.getLast? with
  | none => some d.current
  | some key =>
    d.root.alter? .implied (fun parent =>
      if d.inArray then
        match parent.get? key with
        | none => some (parent.set key (.tables [d.current.toValue]))
        | some (.tables ts) => some (parent.set key (.tables (ts ++ [d.current.toValue])))
        | some _ => none
      else match parent.get? key with
        | none => some (parent.set key d.current.toValue)
        | some (.table .implied _) => some (parent.set key d.current.toValue)
        | some (.table .dotted _) => some (parent.set key d.current.toValue)
        | some _ => none) d.path.dropLast

/-- The draft at the header of a table. A table that other headers implied is continued. -/
def openTable? (d : Draft) (path : List String) (key : String) : Option Draft := do
  let root ← d.close?
  let found ← lookup? root path key
  match found with
  | none => some { root, path := path ++ [key], current := ⟨.header, []⟩ }
  | some (.table .implied entries) =>
    let root ← root.alter? .implied (fun parent => some (parent.erase key)) path
    some { root, path := path ++ [key], current := ⟨.header, entries⟩ }
  | some _ => none
where
  /-- The value at a key of the table that a path leads to, with missing tables taken as empty. -/
  lookup? (root : Table) (path : List String) (key : String) : Option (Option Value) :=
    match path with
    | [] => some (root.get? key)
    | k :: path =>
      match root.get? k with
      | none => some none
      | some (.table origin entries) => lookup? ⟨origin, entries⟩ path key
      | some (.tables elements) =>
        match elements.getLast? with
        | some (.table origin entries) => lookup? ⟨origin, entries⟩ path key
        | _ => none
      | some _ => none

/-- The draft at the header of an element of an array of tables. -/
def openElement? (d : Draft) (path : List String) (key : String) : Option Draft := do
  let root ← d.close?
  let found ← openTable?.lookup? root path key
  match found with
  | none | some (.tables _) =>
    some { root, path := path ++ [key], inArray := true, current := ⟨.header, []⟩ }
  | some _ => none

end Draft

/-- The characters after the end of a line, with a comment before it, or at the end of all. -/
def endOfLine? (cs : List Char) : Option (List Char) :=
  match skipComment (skipSpace cs) with
  | [] => some []
  | cs => lineEnd? cs

/-- A header, after its first bracket. -/
def header? (d : Draft) (cs : List Char) : Option (Draft × List Char) := do
  let (isArray, cs) := match cs with
    | '[' :: rest => (true, rest)
    | cs => (false, cs)
  let (path, key, rest) ← key? cs
  let rest ← expect? ']' rest
  let rest ← if isArray then expect? ']' rest else some rest
  let rest ← endOfLine? rest
  let d ← if isArray then d.openElement? path key else d.openTable? path key
  some (d, rest)

/-- An assignment with the end of its line. -/
def statement? (d : Draft) (cs : List Char) : Option (Draft × List Char) := do
  let (path, key, v, rest) ← assignment? (value? depthLimit) cs
  let rest ← endOfLine? rest
  let current ← d.current.define? path key v
  some ({ d with current }, rest)

/-- The draft after all lines, in at most `n` turns. -/
def lines? : Nat → Draft → List Char → Option Draft
  | 0, _, _ => none
  | n + 1, d, cs =>
    match skipSpace cs with
    | [] => some d
    | '[' :: rest => do
      let (d, rest) ← header? d rest
      lines? n d rest
    | '#' :: rest => lines? n d (skipComment ('#' :: rest))
    | cs => match lineEnd? cs with
      | some rest => lines? n d rest
      | none => do
        let (d, rest) ← statement? d cs
        lines? n d rest

/-- The root table of a document. A byte order mark in front is skipped. -/
def parse? (text : String) : Option Table := do
  let cs := match text.toList with
    | '\uFEFF' :: cs => cs
    | cs => cs
  let d ← lines? (cs.length + 1) {} cs
  d.close?

end DepLock.Toml
