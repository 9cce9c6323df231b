import DepLock.Proofs.Package.ImportSpec

/-!
# Source texts and their headers

A source text begins with a package clause and import declarations, with blanks and comments between
them, and goes on with a declaration and whatever follows (`SourceText`). Its header is the package
and the paths that it imports, those that are declared by themselves before those in parentheses.
`SourceHeader.ofText` finds just these, whatever the comments say and whatever follows, in texts that
are plain: line comments leave block comments alone, the breaks between declarations are not all
inside of block comments, and the package has a name in ASCII (`SourceText.ofText_text`). In others
it does not (`SourceText.ofText_text_wild`).
-/

namespace DepLock

open SourceHeader

namespace SourceText

/-! ### Source texts -/

theorem not_mem_of_isWordChar {w : List Char} (h : w.all Text.isWordChar) {c : Char}
    (hc : Text.isWordChar c = false) :
  c ∉ w
  := by
  intro hmem
  rw [List.all_eq_true.1 h c hmem] at hc
  cases hc

theorem isWord_package {blanks : Run} {name : List Char} (h : name.all Text.isWordChar) :
  IsWord ("package".toList ++ (blanks.chars ++ name))
  := by
  have hpackage : IsWord "package".toList :=
    isWord_of_not_mem (by decide) (by decide) (by decide)
  apply hpackage.append (blanks.isWord.append _)
  apply isWord_of_not_mem
  case hfeed => exact not_mem_of_isWordChar h (by decide +kernel)
  case hreturn => exact not_mem_of_isWordChar h (by decide +kernel)
  case hslash => exact not_mem_of_isWordChar h (by decide +kernel)

theorem isWord_import {w : List Char} (blanks : Run) (hw : IsWord w) :
  IsWord ("import".toList ++ (blanks.chars ++ w))
  := by
  have himport : IsWord "import".toList := isWord_of_not_mem (by decide) (by decide) (by decide)
  exact himport.append (blanks.isWord.append hw)

/-- A parenthesis is a word. -/
theorem isWord_open :
  IsWord ['(']
  := isWord_of_not_mem (by decide) (by decide) (by decide)

theorem isWord_close :
  IsWord [')']
  := isWord_of_not_mem (by decide) (by decide) (by decide)

/-- An import declaration: one import, or several in parentheses. -/
inductive ImportDecl where
  | single (blanks : Run) (spec : Spec) (h : blanks.chars ≠ [] := by decide)
  | group (blanks : Run) (specs : List (List Filler × Spec)) (last : List Filler)

/-- The pieces of imports up to the closing parenthesis, which follows `last`. -/
def specPieces (last : List Filler) : List (List Filler × Spec) → List Piece
  | [] => last.map .filler ++ [.word [')'] isWord_close]
  | (gap, spec) :: specs =>
    gap.map .filler ++ .word spec.text spec.isWord :: specPieces last specs

namespace ImportDecl

/-- The pieces of an import declaration. -/
def pieces : ImportDecl → List Piece
  | single blanks spec _ =>
    [.word ("import".toList ++ (blanks.chars ++ spec.text)) (isWord_import blanks spec.isWord)]
  | group blanks specs last =>
    .word ("import".toList ++ (blanks.chars ++ ['(']))
        (isWord_import blanks isWord_open)
      :: specPieces last specs

/-- The path of a declaration of one import. -/
def singlePaths : ImportDecl → List String
  | single _ spec _ => [String.ofList spec.path]
  | group _ _ _ => []

/-- The paths of a declaration in parentheses. -/
def groupedPaths : ImportDecl → List String
  | single _ _ _ => []
  | group _ specs _ => specs.map fun spec => String.ofList spec.2.path

end ImportDecl

/-- Whether a filler ends the declaration before it: a line feed does, also in a comment. -/
def Filler.BreaksLine : Filler → Prop
  | blank c _ => c = '\n'
  | lineComment _ _ => True
  | blockComment text _ => '\n' ∈ text

instance : DecidablePred Filler.BreaksLine
  | .blank c _ => inferInstanceAs (Decidable (c = '\n'))
  | .lineComment _ _ => inferInstanceAs (Decidable True)
  | .blockComment text _ => inferInstanceAs (Decidable ('\n' ∈ text))

/-- The pieces of import declarations. -/
def importPieces (imports : List (List Filler × ImportDecl)) : List Piece :=
  imports.flatMap fun i => i.1.map .filler ++ i.2.pieces

end SourceText

open SourceText in
/-- A source text. -/
structure SourceText where
  before : List Filler
  blanks : Run
  package : List Char
  imports : List (List Filler × ImportDecl)
  after : List Filler
  declaration : List Char
  separate : blanks.chars ≠ [] := by decide
  packageName : package.head?.any (fun c => Text.isWordChar c && !c.isDigit) ∧
    package.all Text.isWordChar := by decide
  breaks : ∀ i ∈ imports, ∃ f ∈ i.1, f.BreaksLine := by decide
  breaksAfter : ∃ f ∈ after, f.BreaksLine := by decide
  declares : ∃ word ∈ declarationWords, word.toList <+: declaration := by decide

namespace SourceText

/-- The pieces of a source text up to its last import. -/
def pieces (s : SourceText) : List Piece :=
  s.before.map .filler
    ++ .word ("package".toList ++ (s.blanks.chars ++ s.package)) (isWord_package s.packageName.2)
    :: importPieces s.imports

/-- A source text as a text. -/
def text (s : SourceText) : String :=
  String.ofList (render (s.pieces ++ s.after.map .filler) ++ s.declaration)

/-- What a source text declares at its beginning. -/
def header (s : SourceText) : SourceHeader where
  package := String.ofList s.package
  imports := s.imports.flatMap (fun i => i.2.singlePaths)
    ++ s.imports.flatMap (fun i => i.2.groupedPaths)

/-- What a source text has to do for its header to be found: its line comments leave block comments
alone, its lines do not end in block comments only, and its package has a name in ASCII. -/
structure IsPlain (s : SourceText) : Prop where
  comments : Unharmed s.declaration (s.pieces ++ s.after.map .filler)
  package : IsName s.package
  ends : ∀ i ∈ s.imports, ∃ f ∈ i.1, f.EndsLine
  endsAfter : ∃ f ∈ s.after, f.EndsLine

/-! ### Words that begin no declarations -/

/-- The first letters of the words that begin declarations. -/
theorem head?_declarationWord {word : String} (h : word ∈ declarationWords) :
  word.toList.head? ∈ [some 'f', some 't', some 'v', some 'c']
  := by
  revert word
  decide

theorem exists_keyword {word : String} (h : word ∈ declarationWords) :
  ∃ keyword ∈ keywords, word.toList = keyword.toList ++ [' ']
  := by
  revert word
  decide

theorem not_declares {w : List Char} {c : Char} (hc : Text.isBlank c = false)
    (hletter : some c ∉ [some 'f', some 't', some 'v', some 'c']) (hw : w.head? = some c)
    (rest : List Char) :
  ¬ Declares (w ++ rest)
  := by
  rintro ⟨word, hmem, after, hafter⟩
  have hhead := head?_declarationWord hmem
  have hfirst : (w ++ rest).head? = some c := by simp [List.head?_append, hw]
  rw [skipBlanks_eq_self (by simp [hfirst, hc])] at hafter
  rw [← hafter, List.head?_append] at hfirst
  cases hword : word.toList.head? with
  | none => simp [hword] at hhead
  | some d =>
    rw [hword, Option.some_or] at hfirst
    rw [hword, hfirst] at hhead
    exact hletter hhead

theorem Spec.not_declares (s : Spec) (rest : List Char) :
  ¬ Declares (s.text ++ rest)
  := by
  rintro ⟨word, hmem, after, hafter⟩
  obtain ⟨keyword, hkeyword, hword⟩ := exists_keyword hmem
  have hnone := s.afterWord?_eq_none hkeyword rest
  rw [s.skipBlanks_text] at hafter
  rw [← hafter, hword, List.append_assoc,
    afterWord?_append keyword (List.cons_ne_nil ' ' [])
      (List.forall_mem_singleton.2 (by decide))] at hnone
  cases hnone

theorem noDeclarations_append {pieces pieces' : List Piece} (h : NoDeclarations pieces)
    (h' : NoDeclarations pieces') :
  NoDeclarations (pieces ++ pieces')
  := by
  intro w hw hmem
  rcases List.mem_append.1 hmem with hmem | hmem
  · exact h w hw hmem
  · exact h' w hw hmem

theorem noDeclarations_gap (gap : List Filler) :
  NoDeclarations (gap.map .filler)
  := by
  intro w hw hmem
  simp at hmem

theorem noDeclarations_word {w : List Char} {hw : IsWord w} {pieces : List Piece}
    (h : ∀ rest, ¬ Declares (w ++ rest)) (hpieces : NoDeclarations pieces) :
  NoDeclarations (.word w hw :: pieces)
  := by
  intro w' hw' hmem
  rcases List.mem_cons.1 hmem with heq | hmem
  · obtain rfl : w' = w := (Piece.word.inj heq)
    exact h
  · exact hpieces w' hw' hmem

theorem noDeclarations_flatMap {α : Type} {l : List α} {f : α → List Piece}
    (h : ∀ a ∈ l, NoDeclarations (f a)) :
  NoDeclarations (l.flatMap f)
  := by
  intro w hw hmem
  obtain ⟨a, ha, hmem⟩ := List.mem_flatMap.1 hmem
  exact h a ha w hw hmem

theorem noDeclarations_nil :
  NoDeclarations []
  := fun _ _ hmem => nomatch hmem

theorem noDeclarations_specPieces (last : List Filler) (specs : List (List Filler × Spec)) :
  NoDeclarations (specPieces last specs)
  := by
  induction specs with
  | nil =>
    apply noDeclarations_append (noDeclarations_gap last)
    exact noDeclarations_word (not_declares (c := ')') (by decide) (by decide) rfl)
      noDeclarations_nil
  | cons spec specs ih =>
    apply noDeclarations_append (noDeclarations_gap spec.1)
    exact noDeclarations_word spec.2.not_declares ih

/-- Before the declaration of a source text no word begins one. -/
theorem noDeclarations_pieces (s : SourceText) :
  NoDeclarations s.pieces
  := by
  apply noDeclarations_append (noDeclarations_gap s.before)
  apply noDeclarations_word (not_declares (c := 'p') (by decide) (by decide) rfl)
  apply noDeclarations_flatMap
  rintro ⟨gap, decl⟩ -
  apply noDeclarations_append (noDeclarations_gap gap)
  cases decl with
  | single blanks spec h =>
    exact noDeclarations_word (not_declares (c := 'i') (by decide) (by decide) rfl)
      noDeclarations_nil
  | group blanks specs last =>
    exact noDeclarations_word (not_declares (c := 'i') (by decide) (by decide) rfl)
      (noDeclarations_specPieces last specs)

/-! ### Scanning what is left of a source text -/

theorem not_mem_blanks {blanks : List Char} {c : Char} (h : ∀ d ∈ blanks, d ∈ spaces)
    (hc : c ∉ spaces) :
  c ∉ blanks
  := fun hmem => hc (h c hmem)

/-- Imports in parentheses are found between them, and none of them by itself. -/
theorem exists_inside {last : List Filler} {specs : List (List Filler × Spec)}
    {pieces : List Piece} {cs : List Char} (h : Bared (specPieces last specs ++ pieces) cs) :
  ∃ inside rest, cs = inside ++ ')' :: rest ∧ ')' ∉ inside ∧
    quotedPathsFrom 0 inside = specs.map (fun spec => String.ofList spec.2.path) ∧
    (∀ starts, singleImportsFrom 0 starts cs = singleImportsFrom 0 false rest) ∧
    Bared pieces rest
  := by
  induction specs generalizing cs with
  | nil =>
    rw [specPieces, List.append_assoc, List.singleton_append] at h
    obtain ⟨blanks, cs, rfl, hblanks, -, hword⟩ := h.exists_of_gap
    obtain ⟨rest, rfl, hrest⟩ := hword.exists_of_word
    have hparen := not_mem_blanks (c := ')') hblanks (by decide)
    have hquote := not_mem_blanks (c := '"') hblanks (by decide)
    refine ⟨blanks, rest, rfl, hparen, ?_, fun starts => ?_, hrest⟩
    · have hpaths := quotedPathsFrom_append hquote []
      rwa [List.append_nil] at hpaths
    · apply singleImportsFrom_word (fun c hc => isBlank_of_mem_spaces (hblanks c hc)) (by decide)
      apply importPath?_eq_none
      rw [skipBlanks_eq_self (by rintro c ⟨⟩; decide)]
      exact SourceHeader.afterWord?_eq_none (by simp) (by decide)
  | cons spec specs ih =>
    rw [specPieces, List.append_assoc, List.cons_append] at h
    obtain ⟨blanks, cs, rfl, hblanks, -, hword⟩ := h.exists_of_gap
    obtain ⟨cs, rfl, hspecs⟩ := hword.exists_of_word
    obtain ⟨inside, rest, rfl, hinside, hpaths, hsingle, hrest⟩ := ih hspecs
    have hparen := not_mem_blanks (c := ')') hblanks (by decide)
    have hquote := not_mem_blanks (c := '"') hblanks (by decide)
    refine ⟨blanks ++ (spec.2.text ++ inside), rest, by simp, ?_, ?_, fun starts => ?_, hrest⟩
    · simp [hparen, hinside, spec.2.paren_not_mem_text.2]
    · rw [quotedPathsFrom_append hquote, spec.2.quotedPathsFrom_text, hpaths, List.map_cons]
    · rw [← hsingle false]
      exact singleImportsFrom_word (fun c hc => isBlank_of_mem_spaces (hblanks c hc))
        spec.2.isWord.feed (spec.2.importPath?_text _) starts

section Imports

variable {imports : List (List Filler × ImportDecl)} {gap : List Filler} {cs : List Char}

theorem importPieces_cons (i : List Filler × ImportDecl) :
  importPieces (i :: imports) ++ gap.map .filler
    = i.1.map .filler ++ (i.2.pieces ++ (importPieces imports ++ gap.map .filler))
  := by
  simp [importPieces]

/-- The imports that are declared by themselves are found. -/
theorem singleImportsFrom_bared (hends : ∀ i ∈ imports, ∃ f ∈ i.1, f.EndsLine)
    (h : Bared (importPieces imports ++ gap.map .filler) cs) :
  singleImportsFrom 0 false cs = imports.flatMap fun i => i.2.singlePaths
  := by
  induction imports generalizing cs with
  | nil =>
    have hblank : ∀ c ∈ cs, Text.isBlank c := fun c hc => isBlank_of_mem_spaces (h.mem_spaces c hc)
    have hpass : singleImportsFrom 0 false (cs ++ []) = _ :=
      singleImportsFrom_blanks hblank rfl false
    rwa [List.append_nil] at hpass
  | cons i imports ih =>
    obtain ⟨gap, decl⟩ := i
    rw [importPieces_cons] at h
    obtain ⟨blanks, cs, rfl, hblanks, hfeed, hdecl⟩ := h.exists_of_gap
    have hblank : ∀ c ∈ blanks, Text.isBlank c := fun c hc => isBlank_of_mem_spaces (hblanks c hc)
    have hrest := fun j hj => hends j (List.mem_cons_of_mem (gap, decl) hj)
    cases decl with
    | single between spec hne =>
      obtain ⟨cs, rfl, himports⟩ := hdecl.exists_of_word
      have hpath := spec.importPath?_import hne cs
      rw [← List.append_assoc between.chars, ← List.append_assoc "import".toList] at hpath
      have hlast : ("import".toList ++ (between.chars ++ spec.text)).getLast? = some '"' := by
        simp [Spec.text, List.getLast?_append, List.getLast?_cons]
      rw [singleImportsFrom_import hblank (hfeed (hends _ List.mem_cons_self)) (by simp)
        (by rw [hlast]; decide) hpath, ih hrest himports]
      rfl
    | group between specs last =>
      obtain ⟨cs, rfl, hspecs⟩ := hdecl.exists_of_word
      obtain ⟨inside, rest, rfl, -, -, hsingle, himports⟩ := exists_inside hspecs
      rw [singleImportsFrom_word hblank, hsingle, ih hrest himports]
      · rfl
      · exact (isWord_import between isWord_open).feed
      · simpa using importPath?_paren between (inside ++ ')' :: rest)

/-- After a gap that ends a line no word goes on. -/
theorem any_isWordChar_last (w : List Char) {blanks : List Char} (h : ∀ c ∈ blanks, c ∈ spaces)
    (hfeed : '\n' ∈ blanks) (before : Option Char) :
  (((w ++ blanks).getLast?.or before).any Text.isWordChar) = false
  := by
  have hspaces : spaces.any Text.isWordChar = false := by decide +kernel
  simp only [List.any_eq_false, Bool.not_eq_true] at hspaces
  have hne : blanks ≠ [] := List.ne_nil_of_mem hfeed
  rw [List.getLast?_append_of_ne_nil w hne, List.getLast?_eq_some_getLast hne, Option.some_or,
    Option.any_some]
  exact hspaces _ (h _ (List.getLast_mem hne))

/-- The imports that are declared in parentheses are found. -/
theorem groupedImportsFrom_bared (hends : ∀ i ∈ imports, ∃ f ∈ i.1, f.EndsLine)
    (h : Bared (importPieces imports ++ gap.map .filler) cs) {w : List Char} (hw : '(' ∉ w)
    (before : Option Char) :
  groupedImportsFrom 0 before (w ++ cs) = imports.flatMap fun i => i.2.groupedPaths
  := by
  induction imports generalizing cs w before with
  | nil =>
    have hparen := not_mem_blanks (c := '(') h.mem_spaces (by decide)
    have hpass := groupedImportsFrom_append (w := w ++ cs) (by simp [hw, hparen]) (.inl rfl) before
    rwa [List.append_nil] at hpass
  | cons i imports ih =>
    obtain ⟨gap, decl⟩ := i
    rw [importPieces_cons] at h
    obtain ⟨blanks, cs, rfl, hblanks, hfeed, hdecl⟩ := h.exists_of_gap
    have hparen := not_mem_blanks (c := '(') hblanks (by decide)
    have hrest := fun j hj => hends j (List.mem_cons_of_mem (gap, decl) hj)
    cases decl with
    | single between spec hne =>
      obtain ⟨cs, rfl, himports⟩ := hdecl.exists_of_word
      have hbetween : '(' ∉ between.chars :=
        not_mem_blanks (fun c hc => between.mem_spaces hc) (by decide)
      have hpass := ih hrest himports
        (w := w ++ (blanks ++ ("import".toList ++ (between.chars ++ spec.text))))
        (by simp [hw, hparen, hbetween, spec.paren_not_mem_text.1]) before
      rw [List.flatMap_cons]
      simpa [ImportDecl.groupedPaths] using hpass
    | group between specs last =>
      obtain ⟨cs, rfl, hspecs⟩ := hdecl.exists_of_word
      obtain ⟨inside, rest, rfl, hinside, hpaths, -, himports⟩ := exists_inside hspecs
      have hbefore := any_isWordChar_last w hblanks (hfeed (hends _ List.mem_cons_self)) before
      have hassoc :
          w ++ (blanks ++ ("import".toList ++ (between.chars ++ ['(']) ++ (inside ++ ')' :: rest)))
            = (w ++ blanks) ++
              ("import".toList ++ (between.chars ++ '(' :: (inside ++ ')' :: rest))) := by
        simp
      rw [hassoc, groupedImportsFrom_append (by simp [hw, hparen]) (.inr (List.prefix_append _ _)),
        groupedImportsFrom_block hbefore (fun c hc => between.isBlank hc) hinside, hpaths,
        ← List.nil_append rest, ih hrest himports List.not_mem_nil]
      rfl

/-- What follows a word does not go on with it. -/
theorem continuesName_head_bared (hends : ∀ i ∈ imports, ∃ f ∈ i.1, f.EndsLine)
    (h : Bared (importPieces imports ++ gap.map .filler) cs) :
  ∀ c ∈ cs.head?, continuesName c = false
  := by
  intro c hc
  apply continuesName_of_isBlank
  apply isBlank_of_mem_spaces
  cases imports with
  | nil => exact h.mem_spaces c (List.mem_of_mem_head? hc)
  | cons i imports =>
    rw [importPieces_cons] at h
    obtain ⟨blanks, rest, rfl, hblanks, hfeed, -⟩ := h.exists_of_gap
    have hne : blanks ≠ [] := List.ne_nil_of_mem (hfeed (hends i List.mem_cons_self))
    rw [List.head?_append_of_ne_nil blanks hne] at hc
    exact hblanks c (List.mem_of_mem_head? hc)

end Imports

/-! ### Reading what a source text declares -/

section Header

variable {s : SourceText} {front : List Filler} {cs : List Char}

/-- What is left of a source text begins with its package clause, after blanks. -/
theorem exists_clause (h : Bared (s.pieces ++ front.map .filler) cs) :
  ∃ blanks rest, cs = blanks ++ ("package".toList ++ (s.blanks.chars ++ s.package) ++ rest) ∧
    (∀ c ∈ blanks, c ∈ spaces) ∧ Bared (importPieces s.imports ++ front.map .filler) rest
  := by
  rw [pieces, List.append_assoc, List.cons_append] at h
  obtain ⟨blanks, cs, rfl, hblanks, -, hclause⟩ := h.exists_of_gap
  obtain ⟨rest, rfl, himports⟩ := hclause.exists_of_word
  exact ⟨blanks, rest, rfl, hblanks, himports⟩

/-- The package is found. -/
theorem findPackage?_bared (hs : s.IsPlain) (h : Bared (s.pieces ++ front.map .filler) cs) :
  findPackage? cs = some (String.ofList s.package)
  := by
  obtain ⟨blanks, rest, rfl, hblanks, himports⟩ := exists_clause h
  have hblank : ∀ c ∈ blanks, Text.isBlank c := fun c hc => isBlank_of_mem_spaces (hblanks c hc)
  rw [List.append_assoc, List.append_assoc]
  exact findPackage?_append hblank s.separate (fun c hc => s.blanks.isBlank hc) hs.package.1
    (List.all_eq_true.1 hs.package.2) (continuesName_head_bared hs.ends himports)

theorem singleImports_bared (hs : s.IsPlain) (h : Bared (s.pieces ++ front.map .filler) cs) :
  singleImports cs = s.imports.flatMap fun i => i.2.singlePaths
  := by
  obtain ⟨blanks, rest, rfl, hblanks, himports⟩ := exists_clause h
  have hblank : ∀ c ∈ blanks, Text.isBlank c := fun c hc => isBlank_of_mem_spaces (hblanks c hc)
  rw [singleImports, singleImportsFrom_word hblank (isWord_package s.packageName.2).feed,
    singleImportsFrom_bared hs.ends himports]
  apply importPath?_eq_none
  rw [skipBlanks_eq_self (by rintro c ⟨⟩; decide)]
  exact afterWord?_eq_none (by simp) (by decide)

theorem groupedImports_bared (hs : s.IsPlain) (h : Bared (s.pieces ++ front.map .filler) cs) :
  groupedImports cs = s.imports.flatMap fun i => i.2.groupedPaths
  := by
  obtain ⟨blanks, rest, rfl, hblanks, himports⟩ := exists_clause h
  have hparen : '(' ∉ blanks ++ ("package".toList ++ (s.blanks.chars ++ s.package)) := by
    have hbefore := not_mem_blanks (c := '(') hblanks (by decide)
    have hbetween := not_mem_blanks (c := '(') (fun c hc => s.blanks.mem_spaces hc) (by decide)
    have hname : '(' ∉ s.package := not_mem_of_isWordChar s.packageName.2 (by decide +kernel)
    simp [hbefore, hbetween, hname]
  rw [groupedImports, ← List.append_assoc]
  exact groupedImportsFrom_bared hs.ends himports hparen none

end Header

/-- The header of a plain source text is what it declares: the package, and the imports in the order
of their declarations, those in parentheses after the others. -/
theorem ofText_text (s : SourceText) (h : s.IsPlain) :
  SourceHeader.ofText s.text = s.header
  := by
  obtain ⟨front, hbared⟩ :=
    exists_bared_headerText s.noDeclarations_pieces h.comments h.endsAfter s.declares
  rw [ofText, header, SourceHeader.mk.injEq, text, findPackage?_bared h hbared,
    singleImports_bared h hbared, groupedImports_bared h hbared]
  exact ⟨rfl, rfl⟩

namespace Sample

/-- One space. -/
def space : Run := ⟨[' '], by decide⟩

/-- An import without a name. -/
def bare (path : String) (nonempty : path.toList ≠ [] := by decide)
    (proper : '"' ∉ path.toList ∧ '(' ∉ path.toList ∧ ')' ∉ path.toList ∧ '\n' ∉ path.toList :=
      by decide)
    (lineComment : ¬ ['/', '/'] <:+: path.toList := by decide)
    (blockComment : ¬ ['/', '*'] <:+: path.toList := by decide) : Spec :=
  { path := path.toList, nonempty, proper, lineComment, blockComment }

/-- A source text with comments before, between and after its declarations. The first of its imports
ends with a carriage return and a line feed. -/
def commented : SourceText where
  before := [.lineComment " All /* or some */ of it.".toList, .blank '\n']
  blanks := space
  package := "main".toList
  imports := [
    ([.blank ' ', .lineComment " import \"x.io/no\"".toList],
      .single space { bare "x.io/a" with name := some ⟨['_'], space, by decide, by decide⟩ }),
    ([.blank '\r', .blank '\n', .blockComment "\nfunc (\n".toList, .blank ' '],
      .group space
        [([.blank '\n', .blank '\t'], bare "x.io/b"),
          ([.blank ' ', .lineComment " )".toList, .blank '\t'],
            { bare "x.io/c" with name := some ⟨"log".toList, space, by decide, by decide⟩ })]
        [.blank '\n']),
    ([.blank '\n', .blank '\n'], .single space (bare "x.io/d"))]
  after := [.blockComment "*".toList, .blank '\n', .lineComment "* The rest.".toList]
  declaration := "func main() \x7b import (\"x.io/no\")".toList

theorem isPlain_commented :
  commented.IsPlain
  := by
  constructor
  case comments =>
    have hclosed : Closed (" All ".toList ++ '/' :: '*' :: (" or some ".toList ++ '*' :: '/' ::
        " of it.".toList)) :=
      .comment (by decide) (by decide) (.plain (by decide))
    have hall : Harmless " All /* or some */ of it.".toList := ⟨by decide, hclosed⟩
    have hno : Harmless " import \"x.io/no\"".toList := ⟨by decide, .plain (by decide)⟩
    have hparen : Harmless " )".toList := ⟨by decide, .plain (by decide)⟩
    have hlast : ¬ ['*', '/'] <:+: "* The rest.\nfunc main() \x7b import (\"x.io/no\")".toList := by
      decide
    exact And.intro (.inl hall) (And.intro (.inl hno) (And.intro (.inl hparen)
      (And.intro (.inr hlast) trivial)))
  case package => decide
  case ends => decide
  case endsAfter => decide

/-- A line comment that opens a block comment, which a later comment closes. -/
def swallowed : SourceText where
  before := []
  blanks := space
  package := "p".toList
  imports := [([.blank '\n', .lineComment "a/*".toList], .single space (bare "x.io/a"))]
  after := [.blank '\n', .blockComment [], .blank '\n']
  declaration := "var ".toList

/-- A line comment that begins with a star. -/
def added : SourceText where
  before := []
  blanks := space
  package := "p".toList
  imports := []
  after := [.blank '\n', .lineComment "**/import (\"x.io/a\")".toList]
  declaration := "var ".toList

/-- Two declarations that only a block comment puts on two lines. -/
def joined : SourceText where
  before := []
  blanks := space
  package := "p".toList
  imports := [([.blank ' ', .blockComment ['\n'], .blank ' '], .single space (bare "x.io/a"))]
  after := [.blank '\n']
  declaration := "var ".toList

/-- A package whose name is not in ASCII. -/
def accented : SourceText where
  before := []
  blanks := space
  package := "pé".toList
  imports := []
  after := [.blank '\n']
  declaration := "var ".toList

end Sample

theorem ofText_text_sample :
  Sample.commented.IsPlain ∧
    ofText Sample.commented.text = ⟨"main", ["x.io/a", "x.io/d", "x.io/b", "x.io/c"]⟩
  := ⟨Sample.isPlain_commented, ofText_text Sample.commented Sample.isPlain_commented⟩

/-- The header of a source text need not be what it declares: comments hide imports and add them,
block comments join lines, and names are cut. -/
theorem ofText_text_wild :
  (ofText Sample.swallowed.text = ⟨"p", []⟩ ∧ Sample.swallowed.header = ⟨"p", ["x.io/a"]⟩) ∧
  (ofText Sample.added.text = ⟨"p", ["x.io/a"]⟩ ∧ Sample.added.header = ⟨"p", []⟩) ∧
  (ofText Sample.joined.text = ⟨"p", []⟩ ∧ Sample.joined.header = ⟨"p", ["x.io/a"]⟩) ∧
  (ofText Sample.accented.text = ⟨"p", []⟩ ∧ Sample.accented.header = ⟨"pé", []⟩)
  := by decide +kernel

end SourceText
end DepLock
