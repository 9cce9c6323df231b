import DepLock.Proofs.Package.HeaderText

/-!
# Scanning headers for imports

What the scanners of `SourceHeader` do on a header that is put together from words and blanks. Each
lemma says what happens at the front, whatever follows: words and blanks are passed, and an import
declaration gives its paths.
-/

namespace DepLock.SourceHeader

variable {blanks cs : List Char}

/-! ### Blanks -/

/-- No blank goes on with a name. -/
theorem isBlank_of_continuesName {c : Char} (h : continuesName c) :
  Text.isBlank c = false
  := by
  have hrange : 48 ≤ c.toNat ∧ c.toNat ≤ 122 := by
    simp only [continuesName, beginsName, Bool.or_eq_true, Bool.and_eq_true, decide_eq_true_eq,
      Char.le_def, UInt32.le_iff_toNat_le] at h
    rcases h with ((h | h) | rfl) | h
    · exact ⟨le_trans (by decide) h.1, le_trans h.2 (by decide)⟩
    · exact ⟨le_trans (by decide) h.1, le_trans h.2 (by decide)⟩
    · decide
    · exact ⟨h.1, le_trans h.2 (by decide)⟩
  simp only [Text.isBlank, Bool.or_eq_false_iff, Bool.and_eq_false_iff, decide_eq_false_iff_not]
  omega

theorem continuesName_of_isBlank {c : Char} (h : Text.isBlank c) :
  continuesName c = false
  := by
  rw [Bool.eq_false_iff]
  intro hname
  rw [isBlank_of_continuesName hname] at h
  cases h

theorem skipBlanks_append (h : ∀ c ∈ blanks, Text.isBlank c) (cs : List Char) :
  skipBlanks (blanks ++ cs) = skipBlanks cs
  := List.dropWhile_append_of_pos h

theorem skipBlanks_eq_self (h : ∀ c ∈ cs.head?, Text.isBlank c = false) :
  skipBlanks cs = cs
  := by
  cases cs with
  | nil => rfl
  | cons c cs => rw [skipBlanks, List.dropWhile_cons_of_neg (by simp [h c rfl])]

/-- What follows a word and blanks. -/
theorem afterWord?_append (word : String) (hne : blanks ≠ []) (h : ∀ c ∈ blanks, Text.isBlank c)
    (cs : List Char) :
  afterWord? word (word.toList ++ (blanks ++ cs)) = some (skipBlanks cs)
  := by
  cases blanks with
  | nil => exact absurd rfl hne
  | cons c blanks =>
    rw [afterWord?, isPrefixOf?_eq_some_iff.2 rfl, List.cons_append]
    dsimp only
    rw [if_pos (h c List.mem_cons_self),
      skipBlanks_append fun d hd => h d (List.mem_cons_of_mem c hd)]

/-- Only the word itself is a word before a blank. -/
theorem eq_of_afterWord? {word : String} {w rest : List Char} {c : Char}
    (hword : ∀ d ∈ word.toList, Text.isBlank d = false) (hw : ∀ d ∈ w, Text.isBlank d = false)
    (hc : Text.isBlank c) (h : afterWord? word (w ++ c :: cs) = some rest) :
  w = word.toList
  := by
  have hspan {w : List Char} {c : Char} (cs : List Char) (hw : ∀ d ∈ w, Text.isBlank d = false)
      (hc : Text.isBlank c) : (w ++ c :: cs).span (!Text.isBlank ·) = (w, c :: cs) := by
    apply Text.span_append
    · simpa using hw
    · simpa using hc
  unfold afterWord? at h
  split at h
  next b bs hprefix =>
    split at h
    next hb =>
      have hspans := hspan cs hw hc
      rw [isPrefixOf?_eq_some_iff.1 hprefix, hspan bs hword hb] at hspans
      exact (Prod.mk.inj hspans).1.symm
    next => cases h
  next => cases h

theorem afterWord?_eq_none {word : String} (h : word.toList.head? ≠ cs.head?)
    (hne : word.toList ≠ []) :
  afterWord? word cs = none
  := by
  unfold afterWord?
  split
  next b bs hprefix =>
    rw [isPrefixOf?_eq_some_iff.1 hprefix, List.head?_append_of_ne_nil _ hne] at h
    exact absurd rfl h
  next => rfl

/-! ### The package clause -/

theorem name?_append {name : List Char} (hhead : name.head?.any beginsName)
    (hname : ∀ c ∈ name, continuesName c) (hcs : ∀ c ∈ cs.head?, continuesName c = false) :
  name? (name ++ cs) = some (name, cs)
  := by
  cases name with
  | nil => simp at hhead
  | cons c name =>
    have hspan := Text.span_append hname hcs
    rw [List.cons_append] at hspan ⊢
    rw [name?, if_pos (by simpa using hhead), hspan]

/-- A package clause at the beginning gives its name. -/
theorem findPackage?_append {before name : List Char} (hbefore : ∀ c ∈ before, Text.isBlank c)
    (hne : blanks ≠ []) (h : ∀ c ∈ blanks, Text.isBlank c)
    (hhead : name.head?.any beginsName) (hname : ∀ c ∈ name, continuesName c)
    (hcs : ∀ c ∈ cs.head?, continuesName c = false) :
  findPackage? (before ++ ("package".toList ++ (blanks ++ (name ++ cs))))
    = some (String.ofList name)
  := by
  have hclause : packageName? (before ++ ("package".toList ++ (blanks ++ (name ++ cs))))
      = some (String.ofList name) := by
    have hblank : ∀ c ∈ (name ++ cs).head?, Text.isBlank c = false := by
      cases name with
      | nil => simp at hhead
      | cons c name =>
        rintro d ⟨⟩
        exact isBlank_of_continuesName (hname c List.mem_cons_self)
    rw [packageName?, skipBlanks_append hbefore, skipBlanks_eq_self (by simp; decide),
      afterWord?_append "package" hne h, Option.bind_eq_bind, Option.bind_some,
      skipBlanks_eq_self hblank, name?_append hhead hname hcs]
    rfl
  rw [findPackage?, lineStarts, List.findSome?_cons, hclause]

/-! ### Paths in quotes -/

/-- Where no path begins, a character is passed. -/
theorem quotedPathsFrom_of_none {c : Char} (h : quotedPath? (c :: cs) = none) :
  quotedPathsFrom 0 (c :: cs) = quotedPathsFrom 0 cs
  := by
  rw [quotedPathsFrom, h]

/-- A path that begins is found, and the rest of it is skipped. -/
theorem quotedPathsFrom_of_some {c : Char} {path rest : List Char}
    (h : quotedPath? (c :: cs) = some (path, rest)) :
  quotedPathsFrom 0 (c :: cs)
    = String.ofList path :: quotedPathsFrom (cs.length - rest.length) cs
  := by
  rw [quotedPathsFrom, h]

theorem quotedPathsFrom_skip (w cs : List Char) :
  quotedPathsFrom w.length (w ++ cs) = quotedPathsFrom 0 cs
  := by
  induction w with
  | nil => rfl
  | cons c w ih => exact ih

/-- Text without quotes is passed. -/
theorem quotedPathsFrom_append {w : List Char} (h : '"' ∉ w) (cs : List Char) :
  quotedPathsFrom 0 (w ++ cs) = quotedPathsFrom 0 cs
  := by
  induction w with
  | nil => rfl
  | cons c w ih =>
    rw [List.mem_cons, not_or] at h
    have hnone : quotedPath? (c :: (w ++ cs)) = none := by
      unfold quotedPath?
      split
      next heq => exact absurd (List.cons.inj heq).1.symm h.1
      next => rfl
    rw [List.cons_append, quotedPathsFrom_of_none hnone, ih h.2]

theorem quotedPath?_append {path : List Char} (hne : path ≠ []) (h : '"' ∉ path) (cs : List Char) :
  quotedPath? ('"' :: (path ++ '"' :: cs)) = some (path, cs)
  := by
  have hspan : (path ++ '"' :: cs).span (· ≠ '"') = (path, '"' :: cs) := by
    apply Text.span_append
    · simpa using fun c hc => ne_of_mem_of_not_mem hc h
    · simp
  rw [quotedPath?, hspan]
  simp [hne]

/-- A path between quotes is found. -/
theorem quotedPathsFrom_path {path : List Char} (hne : path ≠ []) (h : '"' ∉ path)
    (cs : List Char) :
  quotedPathsFrom 0 ('"' :: (path ++ '"' :: cs)) = String.ofList path :: quotedPathsFrom 0 cs
  := by
  have hlength : (path ++ '"' :: cs).length - cs.length = (path ++ ['"']).length := by
    simp only [List.length_append, List.length_cons, List.length_nil]
    omega
  have hskip := quotedPathsFrom_skip (path ++ ['"']) cs
  rw [List.append_assoc, List.singleton_append] at hskip
  rw [quotedPathsFrom_of_some (quotedPath?_append hne h cs), hlength, hskip]

/-! ### Import declarations of one path -/

/-- A name before a path, and the blanks between them, are passed. -/
theorem skipAlias_append {c : Char} {name : List Char} (hc : beginsName c ∨ c = '.')
    (hname : ∀ d ∈ name, continuesName d) (hne : blanks ≠ [])
    (h : ∀ d ∈ blanks, Text.isBlank d) (cs : List Char) :
  skipAlias (c :: (name ++ (blanks ++ cs))) = skipBlanks cs
  := by
  cases blanks with
  | nil => exact absurd rfl hne
  | cons b blanks =>
    have hb := h b List.mem_cons_self
    rw [skipAlias, if_pos (by simpa using hc), List.dropWhile_append_of_pos hname, List.cons_append,
      List.dropWhile_cons_of_neg (by simp [continuesName_of_isBlank hb])]
    dsimp only
    rw [if_pos hb, skipBlanks_append fun d hd => h d (List.mem_cons_of_mem b hd)]

theorem importPath?_append (h : ∀ c ∈ blanks, Text.isBlank c) (cs : List Char) :
  importPath? (blanks ++ cs) = importPath? cs
  := by
  rw [importPath?, importPath?, skipBlanks_append h]

theorem importPath?_eq_none (h : afterWord? "import" (skipBlanks cs) = none) :
  importPath? cs = none
  := by
  rw [importPath?, h]
  rfl

/-- Where no declaration begins, a character is passed. -/
theorem singleImportsFrom_of_none {c : Char} {starts : Bool}
    (h : (if starts then importPath? (c :: cs) else none) = none) :
  singleImportsFrom 0 starts (c :: cs) = singleImportsFrom 0 (c = '\n') cs
  := by
  rw [singleImportsFrom, h]

/-- A declaration that begins gives its path, and the rest of it is skipped. -/
theorem singleImportsFrom_of_some {c : Char} {path rest : List Char}
    (h : importPath? (c :: cs) = some (path, rest)) :
  singleImportsFrom 0 true (c :: cs)
    = String.ofList path :: singleImportsFrom (cs.length - rest.length) (c = '\n') cs
  := by
  rw [singleImportsFrom, if_pos rfl, h]

/-- Where no declaration begins, it does not matter whether a line does. -/
theorem singleImportsFrom_eq (h : importPath? cs = none) (starts : Bool) :
  singleImportsFrom 0 starts cs = singleImportsFrom 0 false cs
  := by
  cases cs with
  | nil => rfl
  | cons c cs =>
    rw [singleImportsFrom_of_none (by rw [h, ite_self]), singleImportsFrom_of_none rfl]

/-- The rest of a line is passed. -/
theorem singleImportsFrom_line {w : List Char} (h : '\n' ∉ w) (cs : List Char) :
  singleImportsFrom 0 false (w ++ cs) = singleImportsFrom 0 false cs
  := by
  induction w with
  | nil => rfl
  | cons c w ih =>
    rw [List.mem_cons, not_or] at h
    rw [List.cons_append, singleImportsFrom_of_none rfl, decide_eq_false (Ne.symm h.1)]
    exact ih h.2

/-- Blanks before what is no declaration are passed. -/
theorem singleImportsFrom_blanks (h : ∀ c ∈ blanks, Text.isBlank c) (hcs : importPath? cs = none)
    (starts : Bool) :
  singleImportsFrom 0 starts (blanks ++ cs) = singleImportsFrom 0 false cs
  := by
  induction blanks generalizing starts with
  | nil => exact singleImportsFrom_eq hcs starts
  | cons c blanks ih =>
    have hnone : importPath? (c :: (blanks ++ cs)) = none := by
      rw [← hcs]
      exact importPath?_append h cs
    rw [List.cons_append, singleImportsFrom_of_none (by rw [hnone, ite_self])]
    exact ih (fun d hd => h d (List.mem_cons_of_mem c hd)) _

/-- Blanks and a word that does not begin a declaration are passed. -/
theorem singleImportsFrom_word {w : List Char} (h : ∀ c ∈ blanks, Text.isBlank c) (hw : '\n' ∉ w)
    (hnone : importPath? (w ++ cs) = none) (starts : Bool) :
  singleImportsFrom 0 starts (blanks ++ (w ++ cs)) = singleImportsFrom 0 false cs
  := by
  rw [singleImportsFrom_blanks h hnone, singleImportsFrom_line hw]

theorem singleImportsFrom_skip {w : List Char} (hne : w ≠ []) (h : w.getLast? ≠ some '\n')
    (starts : Bool) (cs : List Char) :
  singleImportsFrom w.length starts (w ++ cs) = singleImportsFrom 0 false cs
  := by
  induction w generalizing starts with
  | nil => exact absurd rfl hne
  | cons c w ih =>
    change singleImportsFrom w.length (c = '\n') (w ++ cs) = _
    cases w with
    | nil =>
      have hc : c ≠ '\n' := by simpa using h
      simp [hc]
    | cons d w => exact ih (List.cons_ne_nil d w) (by rwa [List.getLast?_cons_cons] at h) _

theorem singleImportsFrom_match {w path : List Char} (hne : w ≠ []) (hlast : w.getLast? ≠ some '\n')
    (hpath : importPath? (w ++ cs) = some (path, cs)) :
  singleImportsFrom 0 true (w ++ cs) = String.ofList path :: singleImportsFrom 0 false cs
  := by
  rw [← singleImportsFrom_skip hne hlast true]
  cases w with
  | nil => exact absurd rfl hne
  | cons c w =>
    rw [List.cons_append] at hpath ⊢
    have hlength : (w ++ cs).length - cs.length = w.length := by
      rw [List.length_append, Nat.add_sub_cancel]
    rw [singleImportsFrom_of_some hpath, hlength]
    rfl

/-- A declaration that begins a line, after blanks, gives its path. -/
theorem singleImportsFrom_import {w path : List Char} (h : ∀ c ∈ blanks, Text.isBlank c)
    (hfeed : '\n' ∈ blanks) (hne : w ≠ []) (hlast : w.getLast? ≠ some '\n')
    (hpath : importPath? (w ++ cs) = some (path, cs)) :
  singleImportsFrom 0 false (blanks ++ (w ++ cs))
    = String.ofList path :: singleImportsFrom 0 false cs
  := by
  -- the declaration is found from the first line feed on, with the blanks after it
  obtain ⟨front, back, rfl, hfront⟩ := List.eq_append_cons_of_mem hfeed
  have hback : ∀ c ∈ back, Text.isBlank c := fun c hc => h c (by simp [hc])
  have hmatch : importPath? (back ++ w ++ cs) = some (path, cs) := by
    rw [List.append_assoc, importPath?_append hback, hpath]
  have hlast' : (back ++ w).getLast? ≠ some '\n' := by
    rwa [List.getLast?_append_of_ne_nil back hne]
  have hne' : back ++ w ≠ [] := List.append_ne_nil_of_right_ne_nil back hne
  rw [List.append_assoc, singleImportsFrom_line hfront, List.cons_append, ← List.append_assoc]
  exact singleImportsFrom_match hne' hlast' hmatch

/-! ### Import declarations in parentheses -/

/-- After text without an opening parenthesis, blanks do not lead to one. -/
theorem skipBlanks_ne_paren {w : List Char} (hparen : '(' ∉ w)
    (hcs : cs = [] ∨ "import".toList <+: cs) (after : List Char) :
  skipBlanks (w ++ cs) ≠ '(' :: after
  := by
  induction w with
  | nil =>
    rw [List.nil_append]
    rcases hcs with rfl | ⟨rest, rfl⟩
    · simp [skipBlanks]
    · rw [skipBlanks_eq_self (by simp; decide)]
      simp
  | cons c w ih =>
    rw [List.mem_cons, not_or] at hparen
    rw [List.cons_append, skipBlanks, List.dropWhile_cons]
    split
    · exact ih hparen.2
    · intro heq
      exact hparen.1 (List.cons.inj heq).1.symm

/-- No block of imports begins in text without an opening parenthesis. -/
theorem importBlock?_eq_none {w : List Char} (hne : w ≠ []) (hparen : '(' ∉ w)
    (hcs : cs = [] ∨ "import".toList <+: cs) :
  importBlock? (w ++ cs) = none
  := by
  unfold importBlock?
  cases hprefix : "import".toList.isPrefixOf? (w ++ cs) with
  | none => rfl
  | some rest =>
    have hrest : ∀ after, skipBlanks rest ≠ '(' :: after := by
      rcases List.append_eq_append_iff.1 (isPrefixOf?_eq_some_iff.1 hprefix)
        with ⟨back, hword, rfl⟩ | ⟨back, rfl, rfl⟩
      · cases back with
        | nil => exact skipBlanks_ne_paren List.not_mem_nil hcs
        | cons c back =>
          -- the word would begin again inside of itself
          rcases hcs with hnil | ⟨more, hmore⟩
          · cases hnil
          · obtain rfl : 'i' = c := (List.cons.inj hmore).1
            cases w with
            | nil => exact absurd rfl hne
            | cons d w =>
              have hmem : 'i' ∈ "mport".toList := by
                have htail : "mport".toList = w ++ 'i' :: back := (List.cons.inj hword).2
                simp [htail]
              exact absurd hmem (by decide)
      · exact skipBlanks_ne_paren (fun h => hparen (List.mem_append_right _ h)) hcs
    dsimp only [Option.bind_eq_bind, Option.bind_some]
    split
    next after heq => exact absurd heq (hrest after)
    next => rfl

theorem groupedImportsFrom_skip (w cs : List Char) (before : Option Char) :
  groupedImportsFrom w.length before (w ++ cs)
    = groupedImportsFrom 0 (w.getLast?.or before) cs
  := by
  induction w generalizing before with
  | nil => rfl
  | cons c w ih =>
    rw [List.length_cons, List.cons_append, groupedImportsFrom, ih, List.getLast?_cons]
    cases w.getLast? <;> rfl

/-- Text without an opening parenthesis is passed. -/
theorem groupedImportsFrom_append {w : List Char} (hparen : '(' ∉ w)
    (hcs : cs = [] ∨ "import".toList <+: cs) (before : Option Char) :
  groupedImportsFrom 0 before (w ++ cs) = groupedImportsFrom 0 (w.getLast?.or before) cs
  := by
  induction w generalizing before with
  | nil => rfl
  | cons c w ih =>
    have hnone : importBlock? (c :: (w ++ cs)) = none :=
      importBlock?_eq_none (List.cons_ne_nil c w) hparen hcs
    rw [List.cons_append, groupedImportsFrom, hnone, ite_self]
    dsimp only
    rw [ih fun h => hparen (List.mem_cons_of_mem c h), List.getLast?_cons]
    cases w.getLast? <;> rfl

theorem cutAt?_paren {inside : List Char} (h : ')' ∉ inside) (cs : List Char) :
  Text.cutAt? [')'] (inside ++ ')' :: cs) = some (inside, cs)
  := by
  induction inside with
  | nil => rfl
  | cons c inside ih =>
    rw [List.mem_cons, not_or] at h
    have hnone : [')'].isPrefixOf? (c :: (inside ++ ')' :: cs)) = none := by
      simp [List.isPrefixOf?, h.1]
    rw [List.cons_append, Text.cutAt?, hnone]
    dsimp only
    rw [ih h.2]
    rfl

theorem groupedImportsFrom_match {w inside : List Char} {before : Option Char} (hne : w ≠ [])
    (hbefore : before.any Text.isWordChar = false)
    (hblock : importBlock? (w ++ cs) = some (inside, cs)) :
  groupedImportsFrom 0 before (w ++ cs)
    = quotedPathsFrom 0 inside ++ groupedImportsFrom 0 w.getLast? cs
  := by
  cases w with
  | nil => exact absurd rfl hne
  | cons c w =>
    have hskip := groupedImportsFrom_skip w cs (some c)
    rw [List.cons_append] at hblock ⊢
    rw [groupedImportsFrom, if_neg (by simp [hbefore]), hblock, List.getLast?_cons]
    dsimp only
    rw [List.length_append, Nat.add_sub_cancel, hskip]
    cases w.getLast? <;> rfl

/-- A block of imports gives its paths, unless its first word goes on another. -/
theorem groupedImportsFrom_block {inside : List Char} {before : Option Char}
    (hbefore : before.any Text.isWordChar = false) (h : ∀ c ∈ blanks, Text.isBlank c)
    (hinside : ')' ∉ inside) (cs : List Char) :
  groupedImportsFrom 0 before ("import".toList ++ (blanks ++ '(' :: (inside ++ ')' :: cs)))
    = quotedPathsFrom 0 inside ++ groupedImportsFrom 0 (some ')') cs
  := by
  have hassoc : "import".toList ++ (blanks ++ '(' :: (inside ++ ')' :: cs))
      = ("import".toList ++ (blanks ++ '(' :: (inside ++ [')']))) ++ cs := by
    simp
  have hblock :
      importBlock? ("import".toList ++ (blanks ++ '(' :: (inside ++ ')' :: cs)))
        = some (inside, cs) := by
    rw [importBlock?, isPrefixOf?_eq_some_iff.2 rfl]
    dsimp only [Option.bind_eq_bind, Option.bind_some]
    rw [skipBlanks_append h, skipBlanks_eq_self (by simp; decide)]
    exact cutAt?_paren hinside cs
  have hlast : ("import".toList ++ (blanks ++ '(' :: (inside ++ [')']))).getLast? = some ')' := by
    simp [List.getLast?_append, List.getLast?_cons]
  rw [hassoc] at hblock ⊢
  rw [groupedImportsFrom_match (by simp) hbefore hblock, hlast]

end DepLock.SourceHeader
