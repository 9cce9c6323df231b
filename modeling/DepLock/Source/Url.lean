import DepLock.Text.Punycode
import DepLock.Text.Split

/-!
# Web addresses

`Url.parse?` finds the host and the path of an address the way browsers do. For the schemes of the
web the host is a domain in lower case or the address of a machine, and backslashes separate like
slashes. Paths are freed of dot segments, and characters with a meaning of their own are written by
their bytes.
-/

namespace DepLock

/-- The host and the path of an address; an empty host is none. -/
structure Url where
  host : String
  path : String
  deriving DecidableEq, Repr

namespace Url

/-! ### Schemes -/

/-- How the parts of an address are read, which depends on its scheme. -/
inductive SchemeKind where
  | web
  | file
  | other
  deriving DecidableEq

/-- The kind of a scheme in lower case. -/
def SchemeKind.of (scheme : String) : SchemeKind :=
  if scheme ∈ ["http", "https", "ws", "wss", "ftp"] then .web
  else if scheme = "file" then .file
  else .other

/-- Whether a character is an ASCII letter. -/
def isLetter (c : Char) : Bool := ('a' ≤ c && c ≤ 'z') || ('A' ≤ c && c ≤ 'Z')

/-- Whether a character is an ASCII digit. -/
def isDigit (c : Char) : Bool := '0' ≤ c && c ≤ '9'

/-- An ASCII letter in lower case. -/
def lower (c : Char) : Char := if 'A' ≤ c ∧ c ≤ 'Z' then Char.ofNat (c.toNat + 32) else c

/-- The scheme at the front of an address, and what follows its colon. -/
def scheme? (cs : List Char) : Option (String × List Char) :=
  match cs.span fun c => isLetter c || isDigit c || c = '+' || c = '-' || c = '.' with
  | (c :: name, ':' :: rest) =>
    if isLetter c then some (String.ofList ((c :: name).map lower), rest) else none
  | _ => none

/-! ### Bytes -/

/-- A byte written by its hexadecimal digits after a percent sign. -/
def escapeByte (b : UInt8) : List Char :=
  let digit (n : Nat) : Char := if n < 10 then Char.ofNat (48 + n) else Char.ofNat (55 + n)
  ['%', digit (b.toNat / 16), digit (b.toNat % 16)]

/-- A text with the characters that satisfy `p`, and all outside ASCII, written by their bytes. -/
def escape (p : Char → Bool) (cs : List Char) : List Char :=
  cs.flatMap fun c =>
    if p c || 0x7F ≤ c.toNat then (String.singleton c).toUTF8.toList.flatMap escapeByte else [c]

/-- The bytes of a text in which percent signs introduce bytes. -/
def unescape : List Char → List UInt8
  | '%' :: a :: b :: cs =>
    match Text.hexValue? a, Text.hexValue? b with
    | some hi, some lo => UInt8.ofNat (hi * 16 + lo) :: unescape cs
    | _, _ => '%'.toNat.toUInt8 :: unescape (a :: b :: cs)
  | c :: cs => (String.singleton c).toUTF8.toList ++ unescape cs
  | [] => []

/-! ### Hosts -/

/-- Whether a character cannot be in a host. -/
def isForbidden (c : Char) : Bool :=
  "\x00\t\n\r #/:<>?@[\\]^|".toList.contains c

/-- Whether a character cannot be in a domain. -/
def isForbiddenInDomain (c : Char) : Bool :=
  isForbidden c || c ≤ '\x1f' || c = '%' || c = '\x7f'

/-- A label of a domain in ASCII. -/
def asciiLabel (label : List Char) : List Char :=
  if label.all fun c => c.toNat < Punycode.firstPoint then label
  else "xn--".toList ++ Punycode.encode label

/-- A number of a machine's address: in base 16 after `0x`, in base 8 after `0`, else in base 10. -/
def addressNumber? (part : List Char) : Option Nat :=
  let inBase (base : Nat) (ds : List Char) : Option Nat := do
    let digits ← ds.mapM Text.hexValue?
    if digits.all (· < base) then some (digits.foldl (fun n d => n * base + d) 0) else none
  match part with
  | [] => none
  | '0' :: 'x' :: ds => inBase 16 ds
  | '0' :: 'X' :: ds => inBase 16 ds
  | '0' :: ds => inBase 8 ds
  | ds => inBase 10 ds

/-- The labels of a host, without an empty one at the end. -/
def labels (host : List Char) : List (List Char) :=
  let parts := host.splitOn '.'
  if 1 < parts.length && parts.getLast? = some [] then parts.dropLast else parts

/-- Whether the last label of a host is a number. -/
def endsInNumber (host : List Char) : Bool :=
  match (labels host).getLast? with
  | none | some [] => false
  | some l => l.all isDigit || (l.take 2 = ['0', 'x'] || l.take 2 = ['0', 'X']) && (addressNumber? l).isSome

/-- The `n` last digits of a number in base 256. -/
def bytesOf : Nat → Nat → List Nat
  | 0, _ => []
  | n + 1, value => bytesOf n (value / 256) ++ [value % 256]

/-- The address of a machine that up to four numbers make. -/
def machineAddress? (host : List Char) : Option (List Char) := do
  let numbers ← (labels host).mapM addressNumber?
  let last ← numbers.getLast?
  let first := numbers.dropLast
  let room := 4 - first.length
  if 3 < first.length || first.any (255 < ·) || Nat.pow 256 room ≤ last then none
  else some (".".intercalate ((first ++ bytesOf room last).map toString)).toList

/-- The pieces of sixteen bits in one side of an address in brackets. -/
def pieces? (side : List Char) : Option (List Nat) :=
  if side = [] then some []
  else do
    let parts := side.splitOn ':'
    let number (p : List Char) : Option (List Nat) :=
      if p = [] || 4 < p.length then none
      else (p.mapM Text.hexValue?).map fun ds => [ds.foldl (fun n d => n * 16 + d) 0]
    let dotted (p : List Char) : Option (List Nat) := do
      let ns ← (p.splitOn '.').mapM fun d =>
        if d = [] || !d.all isDigit || (1 < d.length && d.head? = some '0') then none
        else addressNumber? d
      match ns with
      | [a, b, c, d] => if ns.any (255 < ·) then none else some [a * 256 + b, c * 256 + d]
      | _ => none
    let front ← parts.dropLast.mapM number
    let back ← match parts.getLast? with
      | some p => if p.contains '.' then dotted p else number p
      | none => none
    some (front.flatten ++ back)

/-- The first longest run of zeros among some pieces: where it begins and how long it is. -/
def longestZeros (ps : List Nat) : Nat × Nat :=
  (List.range ps.length).foldl (fun (start, len) i =>
    let n := ((ps.drop i).takeWhile (· = 0)).length
    if len < n then (i, n) else (start, len)) (0, 1)

/-- The shortest form of an address of eight pieces. -/
def renderPieces (ps : List Nat) : List Char :=
  let hex (ns : List Nat) : String := ":".intercalate (ns.map fun n => String.ofList (Nat.toDigits 16 n))
  let (start, len) := longestZeros ps
  if len < 2 then (hex ps).toList
  else (hex (ps.take start) ++ "::" ++ hex (ps.drop (start + len))).toList

/-- The address of a machine between brackets. -/
def bracketedAddress? (inside : List Char) : Option (List Char) := do
  let ps ← match Text.cutAt? [':', ':'] inside with
    | some (left, right) => do
      let left ← pieces? left
      let right ← pieces? right
      let gap := 8 - left.length - right.length
      if left.length + right.length < 8 then
        some (left ++ List.replicate gap 0 ++ right)
      else none
    | none => pieces? inside
  if ps.length = 8 then some ('[' :: renderPieces ps ++ [']']) else none

/-- The host of an address whose scheme is of a kind. -/
def host? (kind : SchemeKind) (cs : List Char) : Option (List Char) :=
  match cs with
  | '[' :: inside =>
    if inside.getLast? = some ']' then bracketedAddress? inside.dropLast else none
  | _ =>
    if kind = .other then
      if cs.any isForbidden then none else some (escape (· ≤ '\x1f') cs)
    else do
      let decoded ← String.fromUTF8? ⟨(unescape cs).toArray⟩
      let ascii := (decoded.toList.map lower).splitOn '.' |>.map asciiLabel
      let host := ['.'].intercalate ascii
      if host = [] || host.any isForbiddenInDomain then none
      else if endsInNumber host then machineAddress? host
      else some host

/-! ### Paths -/

/-- Whether a character has a meaning of its own in a path. -/
def isSpecialInPath (c : Char) : Bool :=
  c ≤ ' ' || c = '"' || c = '#' || c = '<' || c = '>' || c = '?' || c = '\x60' || c = '\x7b'
    || c = '\x7d'

/-- A segment in which dots may be written by their bytes. -/
def plainDots (segment : List Char) : List Char :=
  match segment with
  | '%' :: '2' :: 'e' :: cs => '.' :: plainDots cs
  | '%' :: '2' :: 'E' :: cs => '.' :: plainDots cs
  | c :: cs => c :: plainDots cs
  | [] => []

/-- Whether a text names a drive of a machine, as `C:` does. -/
def isDrive (cs : List Char) : Bool :=
  match cs with
  | [c, mark] => isLetter c && (mark = ':' || mark = '|')
  | _ => false

/-- The segments `done`, in reverse, without the last one. A drive in a path to a file stays. -/
def dropSegment (kind : SchemeKind) (done : List (List Char)) : List (List Char) :=
  match done with
  | s :: rest => if kind = .file && isDrive s then done else rest
  | [] => []

/-- The segments of a path without the dot segments, after `done` in reverse. -/
def segments (kind : SchemeKind) : List (List Char) → List (List Char) → List (List Char)
  | [], done => done.reverse
  | s :: rest, done =>
    let ending := if rest = [] then [[]] else []
    if plainDots s = ['.', '.'] then segments kind rest (ending ++ dropSegment kind done)
    else if plainDots s = ['.'] then segments kind rest (ending ++ done)
    else segments kind rest (escape isSpecialInPath s :: done)

/-- Whether a character separates segments. -/
def isSeparator (kind : SchemeKind) (c : Char) : Bool := c = '/' || (kind ≠ .other && c = '\\')

/-- The path of what follows the host. -/
def pathAfterHost (kind : SchemeKind) (cs : List Char) : List Char :=
  let cs := cs.takeWhile fun c => c ≠ '?' && c ≠ '#'
  match cs with
  | [] => if kind = .other then [] else ['/']
  | c :: rest =>
    let cs := if isSeparator kind c then rest else cs
    '/' :: ['/'].intercalate (segments kind (cs.splitOnP (isSeparator kind)) [])

/-! ### Addresses -/

/-- Whether a number of a port is missing or small enough. -/
def isPort (cs : List Char) : Bool :=
  cs.all isDigit && cs.foldl (fun n d => n * 10 + (d.toNat - 48)) 0 ≤ 65535

/-- The host and the port in an authority, after the user. -/
def splitPort (cs : List Char) : List Char × Option (List Char) :=
  match cs with
  | '[' :: _ =>
    let inside := cs.takeWhile (· ≠ ']')
    match cs.drop inside.length with
    | ']' :: ':' :: port => (inside ++ [']'], some port)
    | rest => (inside ++ rest, none)
  | _ =>
    match cs.span (· ≠ ':') with
    | (host, _ :: port) => (host, some port)
    | (host, []) => (host, none)

/-- What follows the last at sign. -/
def afterUser (cs : List Char) : List Char := (cs.splitOn '@').getLastD []

/-- The address that begins with its authority. -/
def ofAuthority? (kind : SchemeKind) (cs : List Char) : Option Url := do
  let (authority, rest) := cs.span fun c => !isSeparator kind c && c ≠ '?' && c ≠ '#'
  let url (host : List Char) : Url := ⟨String.ofList host, String.ofList (pathAfterHost kind rest)⟩
  if kind = .file then
    if authority = [] then some (url [])
    else if isDrive authority then some ⟨"", String.ofList (pathAfterHost kind cs)⟩
    else
      let host ← host? kind authority
      some (url (if host = "localhost".toList then [] else host))
  else
    let (host, port) := splitPort (afterUser authority)
    if !port.all isPort || (host = [] && (port.isSome || authority ≠ [])) then none
    else if host = [] then (if kind = .other then some (url []) else none)
    else some (url (← host? kind host))

/-- An address without the blanks around it and without the line breaks and tabs in it. -/
def stripped (cs : List Char) : List Char :=
  (Text.dropEndWhile (· ≤ ' ') (cs.dropWhile (· ≤ ' '))).filter fun c =>
    c ≠ '\t' && c ≠ '\n' && c ≠ '\r'

/-- The host and the path of an address. -/
def parse? (text : String) : Option Url := do
  let (scheme, cs) ← scheme? (stripped text.toList)
  let kind := SchemeKind.of scheme
  match kind with
  | .web => ofAuthority? kind (cs.dropWhile (isSeparator kind))
  | .file =>
    if (cs.take 2).length = 2 && (cs.take 2).all (isSeparator kind) then ofAuthority? kind (cs.drop 2)
    else some ⟨"", String.ofList (pathAfterHost kind cs)⟩
  | .other =>
    match cs with
    | '/' :: '/' :: cs => ofAuthority? kind cs
    | '/' :: _ => some ⟨"", String.ofList (pathAfterHost kind cs)⟩
    | cs =>
      let cs := cs.takeWhile fun c => c ≠ '?' && c ≠ '#'
      some ⟨"", String.ofList (escape (· ≤ '\x1f') cs)⟩

end Url
end DepLock
