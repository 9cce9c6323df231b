import DepLock.Proofs.Package.Imports

/-!
# Imports in source texts

An import is a path in quotes, after an optional name (`SourceText.Spec`). Its text is a word of a
source text and does not begin a declaration. The scanners of `SourceHeader` find its path after the
word that declares it, and between parentheses.
-/

namespace DepLock.SourceText

open SourceHeader

/-! ### Words -/

theorem IsWord.append {v w : List Char} (hv : IsWord v) (hw : IsWord w) :
  IsWord (v ++ w)
  := by
  have hslash : v.getLast? ≠ some '/' := fun hlast => (hv.last _ hlast).1 rfl
  constructor
  case feed => simp [hv.feed, hw.feed]
  case lineComment => simp [Text.pair_infix_append, hv.lineComment, hw.lineComment, hslash]
  case blockComment => simp [Text.pair_infix_append, hv.blockComment, hw.blockComment, hslash]
  case last =>
    intro c hc
    rw [List.getLast?_append, Option.mem_def, Option.or_eq_some_iff] at hc
    rcases hc with hc | ⟨-, hc⟩
    · exact hw.last c hc
    · exact hv.last c hc

/-- Text without slashes and line ends is a word. -/
theorem isWord_of_not_mem {w : List Char} (hfeed : '\n' ∉ w) (hreturn : '\r' ∉ w)
    (hslash : '/' ∉ w) :
  IsWord w
  := by
  have hcomment (c : Char) : ¬ ['/', c] <:+: w :=
    fun hopen => hslash (hopen.subset List.mem_cons_self)
  constructor
  case feed => exact hfeed
  case lineComment => exact hcomment '/'
  case blockComment => exact hcomment '*'
  case last =>
    intro c hc
    have hmem := List.mem_of_mem_getLast? hc
    exact ⟨ne_of_mem_of_not_mem hmem hslash, ne_of_mem_of_not_mem hmem hreturn⟩

/-- Blanks on one line. -/
structure Run where
  chars : List Char
  blank : chars ⊆ [' ', '\t'] := by decide

namespace Run

theorem mem_spaces (r : Run) {c : Char} (hc : c ∈ r.chars) :
  c ∈ spaces
  := (show [' ', '\t'] ⊆ spaces by decide) (r.blank hc)

theorem not_mem (r : Run) {c : Char} (hc : c ∉ [' ', '\t']) :
  c ∉ r.chars
  := fun hmem => hc (r.blank hmem)

theorem isBlank (r : Run) {c : Char} (hc : c ∈ r.chars) :
  Text.isBlank c
  := isBlank_of_mem_spaces (r.mem_spaces hc)

theorem isWord (r : Run) :
  IsWord r.chars
  := isWord_of_not_mem (r.not_mem (by decide)) (r.not_mem (by decide)) (r.not_mem (by decide))

end Run

/-- A declaration in parentheses is none of one path. -/
theorem importPath?_paren (blanks : Run) (rest : List Char) :
  importPath? ("import".toList ++ (blanks.chars ++ '(' :: rest)) = none
  := by
  rw [importPath?, skipBlanks_eq_self (by simp; decide)]
  by_cases hne : blanks.chars = []
  · rw [hne, List.nil_append, afterWord?, isPrefixOf?_eq_some_iff.2 rfl]
    rfl
  · rw [afterWord?_append "import" hne (fun c hc => blanks.isBlank hc),
      skipBlanks_eq_self (by rintro c ⟨⟩; decide)]
    rfl

/-- The words that begin declarations. They are no names. -/
def keywords : List String := ["import", "func", "type", "var", "const"]

/-- What is known of the words that begin declarations. -/
theorem of_mem_keywords {word : String} (h : word ∈ keywords) :
  word.toList.any Text.isBlank = false ∧ word.toList ≠ [] ∧ word.toList ≠ ['.'] ∧
    word.toList.head? ≠ some '"'
  := by
  revert word
  decide

/-- Names in ASCII. -/
def IsName (w : List Char) : Prop :=
  w.head?.any beginsName = true ∧ w.all continuesName = true

instance : DecidablePred IsName :=
  fun w => inferInstanceAs (Decidable (w.head?.any beginsName = true ∧ w.all continuesName = true))

/-- The name of an import, and the blanks after it. -/
structure Alias where
  name : List Char
  blanks : Run
  valid : name = ['.'] ∨ (IsName name ∧ String.ofList name ∉ keywords) := by decide
  separate : blanks.chars ≠ [] := by decide

/-- An import. -/
structure Spec where
  name : Option Alias := none
  path : List Char
  nonempty : path ≠ [] := by decide
  proper : '"' ∉ path ∧ '(' ∉ path ∧ ')' ∉ path ∧ '\n' ∉ path := by decide
  lineComment : ¬ ['/', '/'] <:+: path := by decide
  blockComment : ¬ ['/', '*'] <:+: path := by decide

namespace Alias

variable {c : Char}

theorem exists_cons (a : Alias) :
  ∃ c name, a.name = c :: name ∧ (beginsName c ∨ c = '.') ∧ ∀ d ∈ name, continuesName d
  := by
  rcases a.valid with hdot | ⟨⟨hhead, hname⟩, -⟩
  · exact ⟨'.', [], hdot, .inr rfl, nofun⟩
  · cases hchars : a.name with
    | nil => simp [hchars] at hhead
    | cons c name =>
      rw [hchars] at hhead hname
      exact ⟨c, name, rfl, .inl (by simpa using hhead),
        fun d hd => List.all_eq_true.1 hname d (List.mem_cons_of_mem c hd)⟩

theorem continuesName_of_mem (a : Alias) (hc : c ∈ a.name) :
  c = '.' ∨ continuesName c
  := by
  rcases a.valid with hdot | ⟨hname, -⟩
  · rw [hdot] at hc
    exact .inl (List.mem_singleton.1 hc)
  · exact .inr (List.all_eq_true.1 hname.2 c hc)

theorem isBlank_of_mem (a : Alias) (hc : c ∈ a.name) :
  Text.isBlank c = false
  := by
  rcases a.continuesName_of_mem hc with rfl | hname
  · decide
  · exact isBlank_of_continuesName hname

theorem not_mem_name (a : Alias) (hdot : c ≠ '.') (hname : continuesName c = false) :
  c ∉ a.name
  := by
  intro hc
  rcases a.continuesName_of_mem hc with hc | hc
  · exact hdot hc
  · rw [hname] at hc
    cases hc

/-- The text of a name. -/
def text (a : Alias) : List Char := a.name ++ a.blanks.chars

/-- Characters that belong to no name and are no blanks. -/
theorem not_mem_text (a : Alias) (hdot : c ≠ '.') (hname : continuesName c = false)
    (hspace : c ∉ spaces) :
  c ∉ a.text
  := by
  rw [text, List.mem_append, not_or]
  exact ⟨a.not_mem_name hdot hname, fun hc => hspace (a.blanks.mem_spaces hc)⟩

theorem isWord (a : Alias) :
  IsWord a.text
  := by
  apply IsWord.append _ a.blanks.isWord
  apply isWord_of_not_mem
  case hfeed => exact a.not_mem_name (by decide) (by decide)
  case hreturn => exact a.not_mem_name (by decide) (by decide)
  case hslash => exact a.not_mem_name (by decide) (by decide)

/-- A name is not a word that begins declarations. -/
theorem afterWord?_eq_none (a : Alias) {word : String} (hword : word ∈ keywords) (rest : List Char) :
  afterWord? word (a.text ++ rest) = none
  := by
  obtain ⟨hblank, -, hword', -⟩ := of_mem_keywords hword
  simp only [List.any_eq_false, Bool.not_eq_true] at hblank
  cases hblanks : a.blanks.chars with
  | nil => exact absurd hblanks a.separate
  | cons b blanks =>
    have hb : Text.isBlank b := a.blanks.isBlank (by simp [hblanks])
    rw [text, hblanks, List.append_assoc, List.cons_append, Option.eq_none_iff_forall_ne_some]
    intro after hafter
    have hname := eq_of_afterWord? hblank (fun c hc => a.isBlank_of_mem hc) hb hafter
    rcases a.valid with hdot | ⟨-, hkeyword⟩
    · exact hword' (hname.symm.trans hdot)
    · rw [hname, String.ofList_toList] at hkeyword
      exact hkeyword hword

end Alias

namespace Spec

variable {c : Char} {word : String}

/-- The text before the path of an import. -/
def label (s : Spec) : List Char := (s.name.map Alias.text).getD []

/-- The text of an import. -/
def text (s : Spec) : List Char := s.label ++ '"' :: (s.path ++ ['"'])

theorem not_mem_label (s : Spec) (hdot : c ≠ '.') (hname : continuesName c = false)
    (hspace : c ∉ spaces) :
  c ∉ s.label
  := by
  rw [label]
  cases s.name with
  | none => exact List.not_mem_nil
  | some a => exact a.not_mem_text hdot hname hspace

theorem paren_not_mem_text (s : Spec) :
  '(' ∉ s.text ∧ ')' ∉ s.text
  := by
  have hopen := s.not_mem_label (c := '(') (by decide) (by decide) (by decide)
  have hclose := s.not_mem_label (c := ')') (by decide) (by decide) (by decide)
  have hpath := s.proper
  constructor
  · simp [text, hopen, hpath]
  · simp [text, hclose, hpath]

theorem isWord_path (s : Spec) :
  IsWord ('"' :: (s.path ++ ['"']))
  := by
  constructor
  case feed => simp [s.proper]
  case lineComment => simp [Text.pair_infix_cons, Text.pair_infix_append, s.lineComment]
  case blockComment => simp [Text.pair_infix_cons, Text.pair_infix_append, s.blockComment]
  case last => simp [List.getLast?_cons]

theorem isWord (s : Spec) :
  IsWord s.text
  := by
  apply IsWord.append _ s.isWord_path
  rw [label]
  cases s.name with
  | none => exact isWord_of_not_mem List.not_mem_nil List.not_mem_nil List.not_mem_nil
  | some a => exact a.isWord

/-- An import begins no declaration. -/
theorem afterWord?_eq_none (s : Spec) (hword : word ∈ keywords) (rest : List Char) :
  afterWord? word (s.text ++ rest) = none
  := by
  rw [text, List.append_assoc, label]
  cases s.name with
  | none =>
    obtain ⟨-, hne, -, hquote⟩ := of_mem_keywords hword
    exact SourceHeader.afterWord?_eq_none hquote hne
  | some a => exact a.afterWord?_eq_none hword _

theorem skipBlanks_text (s : Spec) (rest : List Char) :
  skipBlanks (s.text ++ rest) = s.text ++ rest
  := by
  apply skipBlanks_eq_self
  rw [text, label]
  cases s.name with
  | none =>
    rintro c ⟨⟩
    decide
  | some a =>
    obtain ⟨c, name, hname, -⟩ := a.exists_cons
    have hc := a.isBlank_of_mem (hname ▸ List.mem_cons_self)
    simpa [Alias.text, hname] using hc

/-- An import by itself is no declaration. -/
theorem importPath?_text (s : Spec) (rest : List Char) :
  importPath? (s.text ++ rest) = none
  := by
  apply importPath?_eq_none
  rw [s.skipBlanks_text]
  exact s.afterWord?_eq_none (by decide) rest

theorem skipAlias_text (s : Spec) (rest : List Char) :
  skipAlias (s.text ++ rest) = '"' :: (s.path ++ '"' :: rest)
  := by
  have hquote : beginsName '"' = false := by decide
  rw [text, label]
  cases s.name with
  | none => simp [skipAlias, hquote]
  | some a =>
    obtain ⟨c, name, hname, hc, hcs⟩ := a.exists_cons
    have hskip := skipAlias_append hc hcs a.separate (fun d hd => a.blanks.isBlank hd)
      ('"' :: (s.path ++ '"' :: rest))
    rw [skipBlanks_eq_self (by simp; decide)] at hskip
    simpa [Alias.text, hname] using hskip

/-- A declaration of an import gives its path. -/
theorem importPath?_import (s : Spec) {blanks : Run} (hne : blanks.chars ≠ [])
    (rest : List Char) :
  importPath? ("import".toList ++ (blanks.chars ++ (s.text ++ rest))) = some (s.path, rest)
  := by
  rw [importPath?, skipBlanks_eq_self (by simp; decide),
    afterWord?_append "import" hne (fun c hc => blanks.isBlank hc), Option.bind_eq_bind,
    Option.bind_some, s.skipBlanks_text, s.skipAlias_text]
  exact quotedPath?_append s.nonempty s.proper.1 rest

/-- An import in parentheses gives its path. -/
theorem quotedPathsFrom_text (s : Spec) (rest : List Char) :
  quotedPathsFrom 0 (s.text ++ rest) = String.ofList s.path :: quotedPathsFrom 0 rest
  := by
  have hquote := s.not_mem_label (c := '"') (by decide) (by decide) (by decide)
  have hpath := quotedPathsFrom_path s.nonempty s.proper.1 rest
  rw [text, List.append_assoc, quotedPathsFrom_append hquote]
  simpa using hpath

end Spec
end DepLock.SourceText
