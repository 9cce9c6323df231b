import DepLock.Fields
import DepLock.Yaml.Token

/-!
# Documents of YAML

A document is a node: a scalar, a sequence or a mapping. An alias stands for a node by the number of
its anchor, so that the document itself stays a tree. `Document.ofText?` reads a stream of at most
one document.
-/

namespace DepLock.Yaml

/-- A part of a document. -/
inductive Node where
  | scalar (text : String) (isPlain : Bool)
  | sequence (elements : List Node)
  | mapping (entries : List (Node × Node))
  | alias (anchor : Nat)
  deriving Inhabited

/-- A document: its root, if there is one, and its anchored nodes. -/
structure Document where
  root : Option Node
  anchors : List (Nat × Node) := []

/-! ### From tokens to nodes -/

/-- The tokens still to be read, the numbers of the anchors by name, the last one first, the anchored
nodes by how many anchors were before them, and the tag handles that may be used. -/
structure Reading where
  tokens : List Token
  names : List (String × Nat) := []
  anchors : List (Nat × Node) := []
  handles : List String := ["!", "!!"]

/-- A reader of some of the tokens, which may fail. -/
abbrev Read (α : Type) : Type := StateT Reading Option α

namespace Read

/-- The next token. -/
def peek : Read Token := do
  match (← get).tokens with
  | t :: _ => return t
  | [] => return .streamEnd

/-- Reads past the next token. -/
def skip : Read Unit := modify fun r => { r with tokens := r.tokens.drop 1 }

/-- What is not written. -/
def nothing : Node := .scalar "" true

/-- The node at the next token, or nothing if that is one of `ends`. -/
def orNothing (ends : List Token) (node : Read Node) : Read Node := do
  if (← peek) ∈ ends then return nothing else node

/-- The elements of a sequence in block style. -/
def blockSequence (node : Read Node) : Nat → Read (List Node)
  | 0 => failure
  | n + 1 => do
    match ← peek with
    | .entry =>
      skip
      let x ← orNothing [.entry, .blockEnd] node
      return x :: (← blockSequence node n)
    | .blockEnd => skip; return []
    | _ => failure

/-- The elements of a sequence in block style that is not indented. -/
def flatSequence (node : Read Node) : Nat → Read (List Node)
  | 0 => failure
  | n + 1 => do
    match ← peek with
    | .entry =>
      skip
      let x ← orNothing [.entry, .key, .value, .blockEnd] node
      return x :: (← flatSequence node n)
    | _ => return []

/-- The value after a key, if the next token begins one. -/
def valueOrNothing (ends : List Token) (node : Read Node) : Read Node := do
  match ← peek with
  | .value => skip; orNothing ends node
  | _ => return nothing

/-- The entries of a mapping in block style. -/
def blockMapping (node : Read Node) : Nat → Read (List (Node × Node))
  | 0 => failure
  | n + 1 => do
    let ends := [.key, .value, .blockEnd]
    match ← peek with
    | .key =>
      skip
      let k ← orNothing ends node
      let v ← valueOrNothing ends node
      return (k, v) :: (← blockMapping node n)
    | .blockEnd => skip; return []
    | _ => failure

/-- Reads the separator between the items of a flow collection. -/
def separator (isFirst : Bool) : Read Unit := do
  if isFirst then return ()
  else match ← peek with
    | .separator => skip
    | _ => failure

/-- A mapping of one entry among the elements of a sequence in flow style, after its key token. If no
key is written, the token in its place is read past. -/
def flowPair (node : Read Node) : Read Node := do
  let ends := [.separator, .flowSequenceEnd]
  let k ← match ← peek with
    | .value | .separator | .flowSequenceEnd => skip; pure nothing
    | _ => node
  return .mapping [(k, ← valueOrNothing ends node)]

/-- The elements of a sequence in flow style. -/
def flowSequence (node : Read Node) : Nat → Bool → Read (List Node)
  | 0, _ => failure
  | n + 1, isFirst => do
    if (← peek) = .flowSequenceEnd then
      skip
      return []
    else
      separator isFirst
      match ← peek with
      | .flowSequenceEnd => skip; return []
      | .key =>
        skip
        let x ← flowPair node
        return x :: (← flowSequence node n false)
      | _ =>
        let x ← node
        return x :: (← flowSequence node n false)

/-- The entries of a mapping in flow style. -/
def flowMapping (node : Read Node) : Nat → Bool → Read (List (Node × Node))
  | 0, _ => failure
  | n + 1, isFirst => do
    if (← peek) = .flowMappingEnd then
      skip
      return []
    else
      separator isFirst
      match ← peek with
      | .flowMappingEnd => skip; return []
      | .key =>
        skip
        let k ← orNothing [.value, .separator, .flowMappingEnd] node
        let v ← valueOrNothing [.separator, .flowMappingEnd] node
        return (k, v) :: (← flowMapping node n false)
      | _ =>
        let k ← node
        return (k, nothing) :: (← flowMapping node n false)

/-- The name of an anchor, if the next token is one. -/
def anchor? : Read (Option String) := do
  match ← peek with
  | .anchor name => skip; return some name
  | _ => return none

/-- Whether the next token is a tag. A tag must have a handle that may be used, or none. -/
def tagged : Read Bool := do
  match ← peek with
  | .tag handle =>
    skip
    if handle = "" || handle ∈ (← get).handles then return true else failure
  | _ => return false

/-- The anchor before a node, and whether it has an anchor or a tag, in either order. -/
def properties : Read (Option String × Bool) := do
  match ← anchor? with
  | some name => let _ ← tagged; return (some name, true)
  | none =>
    if ← tagged then
      return (← anchor?, true)
    else return (none, false)

/-- Numbers an anchor, so that aliases from here on mean it, and gives how many were before it. The
number is how many names are in use. A name that is used again does not count again, so that the next
anchor may take the same number, and then it is meant instead. -/
def declare (anchor : Option String) : Read (Option Nat) := do
  match anchor with
  | none => return none
  | some name =>
    let names := (← get).names
    modify fun r => { r with names := (name, (names.map (·.1)).eraseDups.length) :: names }
    return some names.length

/-- Where a node stands: in a flow collection, as an item of a block collection, or as a key or a
value of a block mapping, where the dashes of a sequence need no indentation. -/
inductive Place where
  | flow
  | item
  | entry
  deriving DecidableEq

/-- The content of a node, nested at most `n` deep. -/
def content (node : Place → Read Node) (place : Place) (hasProperties : Bool) (n : Nat) :
    Read Node := do
  match ← peek with
  | .scalar text isPlain => skip; return .scalar text isPlain
  | .flowSequence => skip; return .sequence (← flowSequence (node .flow) n true)
  | .flowMapping => skip; return .mapping (← flowMapping (node .flow) n true)
  | .entry =>
    if place = .entry then return .sequence (← flatSequence (node .item) n)
    else if hasProperties then return nothing else failure
  | .blockSequence =>
    if place ≠ .flow then
      skip
      return .sequence (← blockSequence (node .item) n)
    else if hasProperties then return nothing else failure
  | .blockMapping =>
    if place ≠ .flow then
      skip
      return .mapping (← blockMapping (node .entry) n)
    else if hasProperties then return nothing else failure
  | _ => if hasProperties then return nothing else failure

/-- The next node, nested at most `n` deep. -/
def node : Nat → Place → Read Node
  | 0, _ => failure
  | n + 1, place => do
    match ← peek with
    | .alias name =>
      skip
      match (← get).names.lookup name with
      | some id => return .alias id
      | none => failure
    | _ =>
      let (anchor, hasProperties) ← properties
      let before ← declare anchor
      let x ← content (node n) place hasProperties (← get).tokens.length.succ
      if let some before := before then
        modify fun r => { r with anchors := (before, x) :: r.anchors }
      return x

/-- Reads the directives before a document. There is at most one version, which is 1.1 or 1.2, and
no tag handle is declared twice. The result tells whether there is a directive. -/
def directives (hasVersion : Bool) (declared : List String) : Nat → Read Bool
  | 0 => failure
  | n + 1 => do
    match ← peek with
    | .version major minor =>
      if hasVersion || major ≠ 1 || (minor ≠ 1 && minor ≠ 2) then failure
      else
        skip
        let _ ← directives true declared n
        return true
    | .tagHandle handle =>
      if handle ∈ declared then failure
      else
        skip
        modify fun r => { r with handles := handle :: r.handles }
        let _ ← directives hasVersion (handle :: declared) n
        return true
    | _ => return false

/-- Reads past the marks at the end of a document. -/
def documentEnds : Nat → Read Unit
  | 0 => return ()
  | n + 1 => do
    match ← peek with
    | .documentEnd => skip; documentEnds n
    | _ => return ()

/-- The root of a stream of at most one document. -/
def stream (n : Nat) : Read (Option Node) := do
  if (← peek) = .streamEnd then return none
  else
    let hasDirectives ← directives false [] n
    let isExplicit ← match ← peek with
      | .documentStart => skip; pure true
      | _ => if hasDirectives then failure else pure false
    let root ← match ← peek with
      | .documentEnd | .streamEnd => if isExplicit then pure nothing else failure
      | .documentStart | .version _ _ | .tagHandle _ =>
        if isExplicit then pure nothing else failure
      | _ => node n .item
    documentEnds n
    if (← peek) = .streamEnd then return some root else failure

end Read

/-- The anchored nodes by number, the last one first. -/
def Reading.numbered (r : Reading) : List (Nat × Node) :=
  r.names.zipIdx.filterMap fun ((_, number), i) =>
    (r.anchors.lookup (r.names.length - 1 - i)).map fun x => (number, x)

namespace Document

/-- The document in a stream that has at most one. -/
def ofText? (text : String) : Option Document := do
  let tokens ← Token.ofText? text
  let (root, r) ← (Read.stream (tokens.length + 1)).run { tokens }
  some { root, anchors := r.numbered }

/-- The node that a node stands for. -/
def resolve? (d : Document) : Node → Option Node
  | .alias id => d.anchors.lookup id
  | x => some x

/-- The text of a scalar, however it is written. -/
def string? (d : Document) (x : Node) : Option String :=
  match d.resolve? x with
  | some (.scalar text _) => some text
  | _ => none

/-- The elements of a sequence. What is not written has none. -/
def elements? (d : Document) (x : Node) : Option (List Node) :=
  match d.resolve? x with
  | some (.sequence xs) => some xs
  | some (.scalar "" true) => some []
  | _ => none

/-- The texts of a sequence of scalars. -/
def strings? (d : Document) (x : Node) : Option (List String) :=
  (d.elements? x).bind fun xs => xs.mapM d.string?

/-- The fields of a record: the entries of a mapping whose keys are scalars. What is not written has
none. -/
def fields? (d : Document) (names : List String) (x : Node) : Option (Fields Node) :=
  match d.resolve? x with
  | some (.mapping entries) => do
    let fields ← entries.mapM fun (k, v) => (d.string? k).map (·, v)
    Fields.unambiguous? names fields
  | some (.scalar "" true) => some []
  | _ => none

/-- The fields of the record that is the whole document. -/
def rootFields? (d : Document) (names : List String) : Option (Fields Node) :=
  match d.root with
  | none => some []
  | some x => d.fields? names x

end Document
end DepLock.Yaml
