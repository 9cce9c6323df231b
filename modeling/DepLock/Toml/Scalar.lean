import DepLock.Text.Split
import DepLock.Toml.Value

/-!
# Scalars of a TOML document

Each reader takes a scalar off the front of a list of characters and gives back the rest, or has no
result when the characters do not start with one.
-/

namespace DepLock.Toml

/-- Whether a character is a space or a tab. -/
def isSpace (c : Char) : Bool := c = ' ' || c = '\t'

/-- The characters after leading spaces and tabs. -/
def skipSpace (cs : List Char) : List Char := cs.dropWhile isSpace

/-- Whether a character is printed or a tab: no other control character. -/
def isPrinted (c : Char) : Bool := c = '\t' || (' ' ≤ c && c ≠ '\x7f')

/-- The characters after a line end. -/
def lineEnd? : List Char → Option (List Char)
  | '\n' :: cs => some cs
  | '\r' :: '\n' :: cs => some cs
  | _ => none

/-- The characters after a comment, which reaches to the end of its line. -/
def skipComment : List Char → List Char
  | '#' :: cs => cs.dropWhile isPrinted
  | cs => cs

/-! ### Strings -/

/-- The value of hexadecimal digits. -/
def hexNumber? (ds : List Char) : Option Nat :=
  ds.foldlM (fun n d => (Text.hexValue? d).map (16 * n + ·)) 0

/-- The character with a number given by exactly `n` hexadecimal digits. -/
def codePoint? (n : Nat) (cs : List Char) : Option (Char × List Char) :=
  let ds := cs.take n
  if ds.length ≠ n then none
  else match hexNumber? ds with
    | some v => if v.isValidChar then some (Char.ofNat v, cs.drop n) else none
    | none => none

/-- The character that an escape stands for, after its backslash. -/
def escape? : List Char → Option (Char × List Char)
  | 'b' :: cs => some ('\x08', cs)
  | 't' :: cs => some ('\t', cs)
  | 'n' :: cs => some ('\n', cs)
  | 'f' :: cs => some ('\x0c', cs)
  | 'r' :: cs => some ('\r', cs)
  | '"' :: cs => some ('"', cs)
  | '\\' :: cs => some ('\\', cs)
  | 'u' :: cs => codePoint? 4 cs
  | 'U' :: cs => codePoint? 8 cs
  | _ => none

/-- The characters of a basic string up to its closing quote. Each turn of `n` reads at least one
character. -/
def basicChars : Nat → List Char → Option (List Char × List Char)
  | 0, _ => none
  | n + 1, cs =>
    match cs with
    | '"' :: rest => some ([], rest)
    | '\\' :: rest => do
      let (c, rest) ← escape? rest
      let (s, rest) ← basicChars n rest
      some (c :: s, rest)
    | c :: rest =>
      if isPrinted c then (basicChars n rest).map fun (s, rest) => (c :: s, rest) else none
    | [] => none

/-- The characters of a literal string up to its closing quote. -/
def literalChars (cs : List Char) : Option (List Char × List Char) :=
  let (s, rest) := cs.span fun c => isPrinted c && c ≠ '\x27'
  match rest with
  | '\x27' :: rest => some (s, rest)
  | _ => none

/-- The number of copies of `q` in front, and the rest. -/
def countQuotes (q : Char) (cs : List Char) : Nat × List Char :=
  ((cs.takeWhile (· = q)).length, cs.dropWhile (· = q))

/-- After a backslash at the end of a line: the characters after all blanks and line ends. -/
def joinLines? (cs : List Char) : Option (List Char) :=
  (lineEnd? (skipSpace cs)).map (skip cs.length)
where
  /-- The characters after spaces and line ends, in at most `n` turns. -/
  skip : Nat → List Char → List Char
    | 0, cs => cs
    | n + 1, cs =>
      match lineEnd? (skipSpace cs) with
      | some rest => skip n rest
      | none => skipSpace cs

/-- The characters of a string of several lines up to its closing quotes `qqq`, of which up to two
more may belong to the string. Escapes count if `escapes` holds. -/
def multilineChars (q : Char) (escapes : Bool) :
    Nat → List Char → Option (List Char × List Char)
  | 0, _ => none
  | n + 1, cs =>
    match cs with
    | [] => none
    | c :: rest =>
      if c = q then
        let (count, rest) := countQuotes q cs
        if count < 3 then
          (multilineChars q escapes n rest).map fun (s, rest) =>
            (List.replicate count q ++ s, rest)
        else if count ≤ 5 then some (List.replicate (count - 3) q, rest)
        else none
      else if c = '\\' && escapes then
        match joinLines? rest with
        | some rest => multilineChars q escapes n rest
        | none => do
          let (c, rest) ← escape? rest
          let (s, rest) ← multilineChars q escapes n rest
          some (c :: s, rest)
      else match lineEnd? cs with
        | some rest => (multilineChars q escapes n rest).map fun (s, rest) => ('\n' :: s, rest)
        | none =>
          if isPrinted c then
            (multilineChars q escapes n rest).map fun (s, rest) => (c :: s, rest)
          else none

/-- The characters after a line end in front, if there is one. -/
def dropLineEnd (cs : List Char) : List Char := (lineEnd? cs).getD cs

/-- A string of any of the four kinds. -/
def string? (cs : List Char) : Option (String × List Char) :=
  let text (r : Option (List Char × List Char)) : Option (String × List Char) :=
    r.map fun (s, rest) => (String.ofList s, rest)
  let fuel := cs.length + 1
  match cs with
  | '"' :: '"' :: '"' :: rest => text (multilineChars '"' true fuel (dropLineEnd rest))
  | '"' :: rest => text (basicChars fuel rest)
  | '\x27' :: '\x27' :: '\x27' :: rest =>
    text (multilineChars '\x27' false fuel (dropLineEnd rest))
  | '\x27' :: rest => text (literalChars rest)
  | _ => none

/-! ### Numbers and dates -/

/-- Digits of which underscores separate some: at least one, and one on each side of an
underscore. -/
def digits? (isDigit : Char → Bool) (cs : List Char) : Option (List Char × List Char) :=
  let (run, rest) := cs.span fun c => isDigit c || c = '_'
  if (run.splitOn '_').all (· ≠ []) then some (run.filter (· ≠ '_'), rest) else none

/-- Whether a character is a decimal digit. -/
def isDecimal (c : Char) : Bool := '0' ≤ c && c ≤ '9'

/-- A sign in front, if there is one. -/
def sign : List Char → Option Char × List Char
  | '+' :: cs => (some '+', cs)
  | '-' :: cs => (some '-', cs)
  | cs => (none, cs)

/-- The digits of a decimal number, without a zero in front of others. -/
def decimalDigits? : List Char → Option (List Char × List Char)
  | '0' :: cs => some (['0'], cs)
  | cs => digits? isDecimal cs

/-- The value of digits in a base. -/
def inBase (base : Nat) (ds : List Char) : Nat :=
  ds.foldl (fun n d => base * n + (Text.hexValue? d).getD 0) 0

/-- Integers are less than this, and no less than its negative. -/
def integerBound : Nat := 9223372036854775808

/-- An integer that fits 64 bits. -/
def integer? (cs : List Char) : Option (Value × List Char) :=
  let signed (negative : Bool) (n : Nat) (rest : List Char) : Option (Value × List Char) :=
    if negative then if n ≤ integerBound then some (.integer (-n), rest) else none
    else if n < integerBound then some (.integer n, rest) else none
  let radix (base : Nat) (isDigit : Char → Bool) (rest : List Char) :
      Option (Value × List Char) := do
    let (ds, rest) ← digits? isDigit rest
    signed false (inBase base ds) rest
  match cs with
  | '0' :: 'x' :: rest => radix 16 Text.isHexDigit rest
  | '0' :: 'o' :: rest => radix 8 (fun c => '0' ≤ c && c ≤ '7') rest
  | '0' :: 'b' :: rest => radix 2 (fun c => c = '0' || c = '1') rest
  | cs => do
    let (s, rest) := sign cs
    let (ds, rest) ← decimalDigits? rest
    signed (s = some '-') (inBase 10 ds) rest

/-- Digits after a point, if there is one. -/
def fraction? : List Char → Option (Option (List Char) × List Char)
  | '.' :: cs => (digits? isDecimal cs).map fun (ds, rest) => (some ds, rest)
  | cs => some (none, cs)

/-- A power of ten, if one follows: its sign and its digits. -/
def exponent? : List Char → Option (Option (Option Char × List Char) × List Char)
  | c :: cs =>
    if c = 'e' || c = 'E' then do
      let (s, rest) := sign cs
      let (ds, rest) ← digits? isDecimal rest
      some (some (s, ds), rest)
    else some (none, c :: cs)
  | [] => some (none, [])

/-- The least number that is rounded to infinity in double precision. -/
def doubleBound : Nat := Nat.pow 2 1024 - Nat.pow 2 970

/-- Whether `m · 10 ^ e` is too large for a number of double precision. -/
def overflows (m : Nat) (e : Int) : Bool :=
  let size := (Nat.toDigits 10 m).length + e
  if m = 0 || size < 309 then false
  else if 309 < size then true
  else if 0 ≤ e then doubleBound ≤ m * Nat.pow 10 e.toNat
  else doubleBound * Nat.pow 10 (-e).toNat ≤ m

/-- A number with a fraction or a power of ten. A positive one may not be too large. -/
def decimalFloat? (cs : List Char) : Option (Value × List Char) := do
  let (s, rest) := sign cs
  let (whole, rest) ← decimalDigits? rest
  let (frac, rest) ← fraction? rest
  let (power, rest) ← exponent? rest
  if frac.isNone && power.isNone then none
  let frac := frac.getD []
  let (ps, pds) := power.getD (none, [])
  let p : Int := if ps = some '-' then -(inBase 10 pds : Int) else inBase 10 pds
  if s ≠ some '-' && overflows (inBase 10 (whole ++ frac)) (p - frac.length) then none
  let text := String.ofList (cs.take (cs.length - rest.length))
  some (.float text, rest)

/-- Infinity, or no number. -/
def specialFloat? (cs : List Char) : Option (Value × List Char) :=
  let (s, rest) := sign cs
  let signText := String.ofList s.toList
  match rest with
  | 'i' :: 'n' :: 'f' :: rest => some (.float (signText ++ "inf"), rest)
  | 'n' :: 'a' :: 'n' :: rest => some (.float (signText ++ "nan"), rest)
  | _ => none

/-- A number of exactly `n` digits between two bounds. -/
def fixedDigits? (n low high : Nat) (cs : List Char) : Option (Nat × List Char) :=
  let ds := cs.take n
  if ds.length = n && ds.all isDecimal then
    let v := inBase 10 ds
    if low ≤ v && v ≤ high then some (v, cs.drop n) else none
  else none

/-- What follows a given character. -/
def expect? (c : Char) : List Char → Option (List Char)
  | d :: cs => if c = d then some cs else none
  | [] => none

/-- The number of days of a month. -/
def daysInMonth (year month : Nat) : Nat :=
  let leap := year % 4 = 0 && (year % 100 ≠ 0 || year % 400 = 0)
  if month = 2 then if leap then 29 else 28
  else if month = 4 || month = 6 || month = 9 || month = 11 then 30
  else 31

/-- A day of the calendar. -/
def date? (cs : List Char) : Option (List Char) := do
  let (year, cs) ← fixedDigits? 4 0 9999 cs
  let cs ← expect? '-' cs
  let (month, cs) ← fixedDigits? 2 1 12 cs
  let cs ← expect? '-' cs
  let (_, cs) ← fixedDigits? 2 1 (daysInMonth year month) cs
  some cs

/-- A time of the day, possibly with a fraction of a second. -/
def time? (cs : List Char) : Option (List Char) := do
  let (_, cs) ← fixedDigits? 2 0 23 cs
  let cs ← expect? ':' cs
  let (_, cs) ← fixedDigits? 2 0 59 cs
  let cs ← expect? ':' cs
  let (_, cs) ← fixedDigits? 2 0 60 cs
  match cs with
  | '.' :: d :: rest => if isDecimal d then some (rest.dropWhile isDecimal) else some cs
  | cs => some cs

/-- The characters after the offset of a time, if there is one. -/
def skipOffset (cs : List Char) : List Char :=
  match cs with
  | [] => []
  | c :: rest =>
    if c = 'Z' || c = 'z' then rest
    else if c = '+' || c = '-' then
      let r := do
        let (_, rest) ← fixedDigits? 2 0 23 rest
        let rest ← expect? ':' rest
        let (_, rest) ← fixedDigits? 2 0 59 rest
        some rest
      r.getD cs
    else cs

/-- A date, a time, or both. -/
def dateTime? (cs : List Char) : Option (Value × List Char) :=
  let rest? := match date? cs with
    | none => time? cs
    | some rest => match rest with
      | c :: more =>
        if c = 'T' || c = 't' || c = ' ' then
          match time? more with
          | some rest => some (skipOffset rest)
          | none => some (c :: more)
        else some rest
      | [] => some []
  rest?.map fun rest => (.dateTime (String.ofList (cs.take (cs.length - rest.length))), rest)

/-- A number or a date. -/
def number? (cs : List Char) : Option (Value × List Char) :=
  (dateTime? cs).or ((decimalFloat? cs).or ((specialFloat? cs).or (integer? cs)))

/-- A truth value. -/
def boolean? : List Char → Option (Value × List Char)
  | 't' :: 'r' :: 'u' :: 'e' :: rest => some (.boolean true, rest)
  | 'f' :: 'a' :: 'l' :: 's' :: 'e' :: rest => some (.boolean false, rest)
  | _ => none

end DepLock.Toml
