import DepLock.Text.Split
import DepLock.Text.WordChar

/-!
# Headers of Go source files

What a source file belongs to and what it imports stands at its beginning, before the first
declaration. `SourceHeader.ofText` takes comments away, keeps the lines before the first
declaration, and finds in them the package clause and the import declarations: first those of one
path each, then those in parentheses.
-/

namespace DepLock

/-- The package that a source file belongs to, and the paths that it imports. -/
structure SourceHeader where
  package : String := ""
  imports : List String := []
  deriving DecidableEq, Repr

namespace SourceHeader

/-- A text without its block comments, after `skip` more characters of one. A comment that is not
closed stays. -/
def dropBlockComments : Nat → List Char → List Char
  | _, [] => []
  | skip + 1, _ :: cs => dropBlockComments skip cs
  | 0, c :: cs =>
    match commentLength? (c :: cs) with
    | some n => dropBlockComments (n - 1) cs
    | none => c :: dropBlockComments 0 cs
where
  /-- The length of the block comment at the front. -/
  commentLength? : List Char → Option Nat
    | '/' :: '*' :: cs => (Text.cutAt? ['*', '/'] cs).map fun (inside, _) => inside.length + 4
    | _ => none

/-- The part of a line before a line comment. -/
def withoutLineComment (line : String) : String :=
  match Text.cutAt? ['/', '/'] line.toList with
  | some (before, _) => String.ofList before
  | none => line

/-- The words that begin a declaration. -/
def declarationWords : List String := ["func ", "type ", "var ", "const "]

/-- Whether a line begins a declaration. -/
def beginsDeclaration (line : String) : Bool :=
  declarationWords.any fun word => Text.startsWith word (Text.trimStart line)

/-- The text before the first declaration, without comments. -/
def headerText (source : String) : List Char :=
  let lines := Text.lines (String.ofList (dropBlockComments 0 source.toList))
  let lines := (lines.takeWhile fun line => !beginsDeclaration line).map withoutLineComment
  ("\n".intercalate lines).toList

/-- The rest of a text from each beginning of a line on. -/
def lineStarts (cs : List Char) : List (List Char) :=
  cs :: afterFeeds cs
where
  /-- What follows each line feed. -/
  afterFeeds : List Char → List (List Char)
    | [] => []
    | c :: cs => if c = '\n' then cs :: afterFeeds cs else afterFeeds cs

/-- What follows blanks. -/
def skipBlanks (cs : List Char) : List Char := cs.dropWhile Text.isBlank

/-- What follows a word and at least one blank. -/
def afterWord? (word : String) (cs : List Char) : Option (List Char) :=
  match word.toList.isPrefixOf? cs with
  | some (c :: cs) => if Text.isBlank c then some (skipBlanks cs) else none
  | _ => none

/-- Whether a character can begin a name. -/
def beginsName (c : Char) : Bool := ('A' ≤ c && c ≤ 'Z') || ('a' ≤ c && c ≤ 'z') || c = '_'

/-- Whether a character can go on with a name. -/
def continuesName (c : Char) : Bool := beginsName c || ('0' ≤ c && c ≤ '9')

/-- The name that a text begins with, and what follows it. -/
def name? : List Char → Option (List Char × List Char)
  | [] => none
  | c :: cs => if beginsName c then some ((c :: cs).span continuesName) else none

/-- The nonempty text between quotes at the front, and what follows it. -/
def quotedPath? : List Char → Option (List Char × List Char)
  | '"' :: cs =>
    match cs.span (· ≠ '"') with
    | (p, _ :: rest) => if p = [] then none else some (p, rest)
    | _ => none
  | _ => none

/-! ### The package clause -/

/-- The name in a package clause, after blanks. -/
def packageName? (cs : List Char) : Option String := do
  let (name, _) ← name? (← afterWord? "package" (skipBlanks cs))
  some (String.ofList name)

/-- The name in the first package clause at the beginning of a line. -/
def findPackage? (cs : List Char) : Option String := (lineStarts cs).findSome? packageName?

/-! ### Import declarations of one path -/

/-- What follows an alias and blanks, if there is an alias. -/
def skipAlias (cs : List Char) : List Char :=
  match cs with
  | [] => []
  | c :: rest =>
    if beginsName c || c = '.' then
      match rest.dropWhile continuesName with
      | b :: rest => if Text.isBlank b then skipBlanks rest else cs
      | [] => cs
    else cs

/-- The path in an import declaration, after blanks, and what follows it. -/
def importPath? (cs : List Char) : Option (List Char × List Char) := do
  quotedPath? (skipAlias (← afterWord? "import" (skipBlanks cs)))

/-- The paths of the declarations that begin a line, after `skip` more characters of one.
`starts` tells whether the text begins a line. -/
def singleImportsFrom (skip : Nat) (starts : Bool) : List Char → List String
  | [] => []
  | c :: cs =>
    match skip with
    | n + 1 => singleImportsFrom n (c = '\n') cs
    | 0 =>
      match if starts then importPath? (c :: cs) else none with
      | some (p, rest) =>
        String.ofList p :: singleImportsFrom (cs.length - rest.length) (c = '\n') cs
      | none => singleImportsFrom 0 (c = '\n') cs

/-- The paths of the declarations that begin a line. -/
def singleImports (cs : List Char) : List String := singleImportsFrom 0 true cs

/-! ### Import declarations in parentheses -/

/-- The nonempty texts between quotes, after `skip` more characters of one. -/
def quotedPathsFrom : Nat → List Char → List String
  | _, [] => []
  | skip + 1, _ :: cs => quotedPathsFrom skip cs
  | 0, c :: cs =>
    match quotedPath? (c :: cs) with
    | some (p, rest) => String.ofList p :: quotedPathsFrom (cs.length - rest.length) cs
    | none => quotedPathsFrom 0 cs

/-- What stands between the parentheses of an import declaration, and what follows them. -/
def importBlock? (cs : List Char) : Option (List Char × List Char) := do
  match skipBlanks (← "import".toList.isPrefixOf? cs) with
  | '(' :: cs => Text.cutAt? [')'] cs
  | _ => none

/-- The paths of the import declarations in parentheses, after `skip` more characters of one. The
word `import` must not go on a word that ends in the character before. -/
def groupedImportsFrom (skip : Nat) (before : Option Char) : List Char → List String
  | [] => []
  | c :: cs =>
    match skip with
    | n + 1 => groupedImportsFrom n (some c) cs
    | 0 =>
      match if before.any Text.isWordChar then none else importBlock? (c :: cs) with
      | some (inside, rest) =>
        quotedPathsFrom 0 inside ++ groupedImportsFrom (cs.length - rest.length) (some c) cs
      | none => groupedImportsFrom 0 (some c) cs

/-- The paths of the import declarations in parentheses. -/
def groupedImports (cs : List Char) : List String := groupedImportsFrom 0 none cs

/-- The header of a source file. -/
def ofText (source : String) : SourceHeader :=
  let cs := headerText source
  { package := (findPackage? cs).getD ""
    imports := singleImports cs ++ groupedImports cs }

end SourceHeader
end DepLock
