import DepLock.Proofs.Package.Comments

/-!
# Texts of headers

The header of a source text is what stands before the line that begins the first declaration, with
each line cut at its line comment. For a text made of pieces that is the words with the blanks
between them: block comments are gone, and line comments are gone up to the ends of their lines
(`SourceText.exists_bared_headerText`).
-/

namespace DepLock

/-! ### Lines -/

namespace Text

theorem dropReturn_append {cs ds : List Char} (h : cs.getLast? ≠ some '\r' ∨ ds ≠ []) :
  lines.dropReturn (cs ++ ds) = cs ++ lines.dropReturn ds
  := by
  unfold lines.dropReturn
  by_cases hds : ds = []
  · subst hds
    simp [h.resolve_right (· rfl)]
  · rw [List.getLast?_append_of_ne_nil cs hds, List.dropLast_append_of_ne_nil hds]
    split <;> rfl

theorem dropReturn_isPrefix (cs : List Char) :
  lines.dropReturn cs <+: cs
  := by
  unfold lines.dropReturn
  split
  · exact List.dropLast_prefix cs
  · exact List.prefix_refl cs

/-- The parts of a text between line feeds, without an empty one after the last. -/
def lineParts (cs : List Char) : List (List Char) :=
  if (cs.splitOn '\n').getLast? = some [] then (cs.splitOn '\n').dropLast else cs.splitOn '\n'

theorem lineParts_ne_nil {cs : List Char} (h : cs ≠ []) :
  lineParts cs ≠ []
  := by
  unfold lineParts
  split
  next hlast =>
    intro hinit
    have hparts := List.dropLast_append_getLast? [] hlast
    have hjoin : ['\n'].intercalate (cs.splitOn '\n') = cs := List.intercalate_splitOn '\n'
    rw [hinit, List.nil_append] at hparts
    rw [← hparts, List.intercalate_singleton] at hjoin
    exact h hjoin.symm
  next => exact List.splitOn_ne_nil '\n' cs

/-- The parts of a text up to a line feed, and after it. -/
theorem lineParts_append_feed (cs ds : List Char) :
  lineParts (cs ++ '\n' :: ds) = cs.splitOn '\n' ++ lineParts ds
  := by
  have hparts : (cs ++ '\n' :: ds).splitOn '\n' = cs.splitOn '\n' ++ ds.splitOn '\n' :=
    List.splitOn_append_cons_self cs ds
  have hne : ds.splitOn '\n' ≠ [] := List.splitOn_ne_nil '\n' ds
  rw [lineParts, lineParts, hparts, List.getLast?_append_of_ne_nil _ hne,
    List.dropLast_append_of_ne_nil hne]
  split
  · rfl
  · rfl

/-- The lines of a text are its parts without the carriage returns before line feeds. -/
theorem lines_eq_of_lineParts {cs last : List Char} {init : List (List Char)}
    (h : lineParts cs = init ++ [last]) :
  lines (String.ofList cs) =
    (init.map lines.dropReturn
      ++ [if cs.getLast? = some '\n' then lines.dropReturn last else last]).map String.ofList
  := by
  unfold lines
  simp only [String.toList_ofList]
  rw [← lineParts, h, List.reverse_concat]
  dsimp only
  rw [List.reverse_reverse]

/-- The lines of a text up to a line feed, and after it. -/
theorem lines_append_feed (cs ds : List Char) :
  lines (String.ofList (cs ++ '\n' :: ds)) =
    (cs.splitOn '\n').map (fun line => String.ofList (lines.dropReturn line))
      ++ lines (String.ofList ds)
  := by
  have hparts := lineParts_append_feed cs ds
  by_cases hds : ds = []
  · subst hds
    obtain ⟨init, last, hlast⟩ : ∃ init last, cs.splitOn '\n' = init ++ [last] :=
      ⟨_, _, (List.dropLast_append_getLast (List.splitOn_ne_nil '\n' cs)).symm⟩
    have hempty : lineParts [] = [] := rfl
    rw [hempty, List.append_nil, hlast] at hparts
    rw [lines_eq_of_lineParts hparts, hlast]
    simp [lines]
  · obtain ⟨init, last, hlast⟩ : ∃ init last, lineParts ds = init ++ [last] :=
      ⟨_, _, (List.dropLast_append_getLast (lineParts_ne_nil hds)).symm⟩
    have hend : (cs ++ '\n' :: ds).getLast? = ds.getLast? := by
      rw [List.getLast?_append_of_ne_nil _ (List.cons_ne_nil _ _), List.getLast?_cons_of_ne_nil hds]
    rw [hlast, ← List.append_assoc] at hparts
    rw [lines_eq_of_lineParts hparts, lines_eq_of_lineParts hlast, hend]
    simp

theorem takeWhile_append_feed {cs : List Char} (h : '\n' ∉ cs) (ds : List Char) :
  (cs ++ '\n' :: ds).takeWhile (· ≠ '\n') = cs
  := by
  rw [List.takeWhile_append_of_pos (by simpa using fun c hc => ne_of_mem_of_not_mem hc h)]
  simp

theorem takeWhile_of_not_mem {cs : List Char} (h : '\n' ∉ cs) :
  cs.takeWhile (· ≠ '\n') = cs
  := List.takeWhile_eq_self_iff.2 (by simpa using fun c hc => ne_of_mem_of_not_mem hc h)

/-- The first line of a nonempty text. A carriage return at its end may be gone. -/
theorem exists_head?_lines {cs : List Char} (h : cs ≠ []) :
  ∃ line, (lines (String.ofList cs)).head? = some (String.ofList line) ∧
    (line = cs.takeWhile (· ≠ '\n') ∨ line = lines.dropReturn (cs.takeWhile (· ≠ '\n')))
  := by
  by_cases hfeed : '\n' ∈ cs
  · obtain ⟨first, rest, rfl, hfirst⟩ := List.eq_append_cons_of_mem hfeed
    refine ⟨lines.dropReturn first, ?_, .inr (by rw [takeWhile_append_feed hfirst])⟩
    rw [lines_append_feed, List.splitOn_eq_singleton hfirst]
    rfl
  · refine ⟨cs, ?_, .inl (takeWhile_of_not_mem hfeed).symm⟩
    have hlast : cs.getLast? ≠ some '\n' := fun hlast => hfeed (List.mem_of_getLast? hlast)
    unfold lines
    simp [List.splitOn_eq_singleton hfeed, h, hlast]

end Text

namespace SourceHeader

/-! ### Beginnings of declarations -/

/-- Whether a text begins with a declaration, after blanks. -/
def Declares (cs : List Char) : Prop := ∃ word ∈ declarationWords, word.toList <+: skipBlanks cs

theorem beginsDeclaration_iff {cs : List Char} :
  beginsDeclaration (String.ofList cs) = true ↔ Declares cs
  := by
  simp [beginsDeclaration, Declares, Text.startsWith, Text.trimStart, skipBlanks]

/-- What is known of the words that begin declarations. -/
theorem of_mem_declarationWords {word : String} (h : word ∈ declarationWords) :
  ¬ ['/', '*'] <:+: word.toList ∧ '\n' ∉ word.toList ∧ word.toList.getLast? = some ' ' ∧
    word.toList.head?.any Text.isBlank = false
  := by
  revert word
  decide

/-- A word that begins declarations may follow blanks. -/
theorem declares_append {word : String} (hword : word ∈ declarationWords) {blanks : List Char}
    (hblanks : ∀ c ∈ blanks, Text.isBlank c) (rest : List Char) :
  Declares (blanks ++ (word.toList ++ rest))
  := by
  obtain ⟨-, -, hlast, hhead⟩ := of_mem_declarationWords hword
  refine ⟨word, hword, ?_⟩
  rw [skipBlanks, List.dropWhile_append_of_pos hblanks]
  cases hchars : word.toList with
  | nil => simp [hchars] at hlast
  | cons c chars =>
    rw [hchars] at hhead
    rw [List.cons_append, List.dropWhile_cons_of_neg (by simpa using hhead), ← List.cons_append]
    exact List.prefix_append _ rest

/-- The line on which a declaration follows blanks begins the declaration. -/
theorem declares_first {word : String} (hword : word ∈ declarationWords) {blanks : List Char}
    (hblanks : ∀ c ∈ blanks, Text.isBlank c ∧ c ≠ '\n') (rest : List Char) :
  ∀ line ∈ (Text.lines (String.ofList (blanks ++ (word.toList ++ rest)))).head?,
    beginsDeclaration line = true
  := by
  obtain ⟨-, hfeed, hlast, -⟩ := of_mem_declarationWords hword
  have hne : blanks ++ (word.toList ++ rest) ≠ [] := by
    intro hnil
    simp only [List.append_eq_nil_iff] at hnil
    simp [hnil.2.1] at hlast
  have htake : (blanks ++ (word.toList ++ rest)).takeWhile (· ≠ '\n')
      = blanks ++ (word.toList ++ rest.takeWhile (· ≠ '\n')) := by
    rw [List.takeWhile_append_of_pos (by simpa using fun c hc => (hblanks c hc).2),
      List.takeWhile_append_of_pos (by simpa using fun c hc => ne_of_mem_of_not_mem hc hfeed)]
  have hreturn (line : List Char) :
      Text.lines.dropReturn (blanks ++ (word.toList ++ line))
        = blanks ++ (word.toList ++ Text.lines.dropReturn line) := by
    rw [← List.append_assoc, Text.dropReturn_append, List.append_assoc]
    left
    rw [List.getLast?_append, hlast]
    simp
  intro line hline
  obtain ⟨chars, hchars, hfirst⟩ := Text.exists_head?_lines hne
  obtain rfl := Option.some.inj (hchars.symm.trans hline)
  rw [beginsDeclaration_iff]
  rw [htake] at hfirst
  rcases hfirst with rfl | rfl
  · exact declares_append hword (fun c hc => (hblanks c hc).1) _
  · rw [hreturn]
    exact declares_append hword (fun c hc => (hblanks c hc).1) _

theorem not_declares_nil :
  ¬ Declares []
  := by
  rintro ⟨word, hword, hprefix⟩
  revert word
  decide

theorem not_declares_comment (cs : List Char) :
  ¬ Declares ('/' :: cs)
  := by
  rintro ⟨word, hword, hprefix⟩
  have hslash : skipBlanks ('/' :: cs) = '/' :: cs := by
    rw [skipBlanks, List.dropWhile_cons_of_neg (by decide)]
  rw [hslash] at hprefix
  simp only [declarationWords, List.mem_cons, List.not_mem_nil, or_false] at hword
  rcases hword with rfl | rfl | rfl | rfl <;> simp at hprefix

theorem declares_cons_of_blank {c : Char} {cs : List Char} (hc : Text.isBlank c) :
  Declares (c :: cs) ↔ Declares cs
  := by
  rw [Declares, Declares, skipBlanks, List.dropWhile_cons_of_pos hc, ← skipBlanks]

/-- What a part of a line declares, the text from there on declares. -/
theorem Declares.of_isPrefix {cs ds : List Char} (hbegins : cs <+: ds) (h : Declares cs) :
  Declares ds
  := by
  obtain ⟨word, hword, hcs⟩ := h
  obtain ⟨rest, rfl⟩ := hbegins
  refine ⟨word, hword, ?_⟩
  have hne : skipBlanks cs ≠ [] := by
    intro hnil
    rw [hnil, List.prefix_nil] at hcs
    revert word
    decide
  have hdrop : skipBlanks (cs ++ rest) = skipBlanks cs ++ rest := by
    rw [skipBlanks, List.dropWhile_append, if_neg (by rwa [List.isEmpty_iff]), ← skipBlanks]
  rw [hdrop]
  exact hcs.trans (List.prefix_append _ rest)

/-- Whether no line of a text begins a declaration. -/
def Undeclared (cs : List Char) : Prop := ∀ start ∈ lineStarts cs, ¬ Declares start

theorem afterFeeds_append {cs : List Char} (h : '\n' ∉ cs) (ds : List Char) :
  lineStarts.afterFeeds (cs ++ ds) = lineStarts.afterFeeds ds
  := by
  induction cs with
  | nil => rfl
  | cons c cs ih =>
    rw [List.mem_cons, not_or] at h
    rw [List.cons_append, lineStarts.afterFeeds, if_neg (Ne.symm h.1), ih h.2]

theorem undeclared_nil :
  Undeclared []
  := by
  intro start hstart
  rw [List.mem_singleton.1 hstart]
  exact not_declares_nil

/-- A part of a line begins no declaration if the line does not begin one there. -/
theorem Undeclared.append {cs ds : List Char} (hds : Undeclared ds) (hcs : '\n' ∉ cs)
    (hdeclares : ¬ Declares (cs ++ ds)) :
  Undeclared (cs ++ ds)
  := by
  intro start hstart
  rw [lineStarts, afterFeeds_append hcs, List.mem_cons] at hstart
  rcases hstart with rfl | hstart
  · exact hdeclares
  · exact hds start (List.mem_cons_of_mem ds hstart)

theorem Undeclared.blank {c : Char} {cs : List Char} (h : Undeclared cs) (hc : Text.isBlank c) :
  Undeclared (c :: cs)
  := by
  have hdeclares : ¬ Declares (c :: cs) := by
    rw [declares_cons_of_blank hc]
    exact h cs List.mem_cons_self
  intro start hstart
  rw [lineStarts, lineStarts.afterFeeds, List.mem_cons] at hstart
  rcases hstart with rfl | hstart
  · exact hdeclares
  · apply h start
    split at hstart
    · exact hstart
    · exact List.mem_cons_of_mem cs hstart

/-- Each line stands at the beginning of one. -/
theorem exists_lineStart {cs line : List Char} (h : line ∈ cs.splitOn '\n') :
  ∃ start ∈ lineStarts cs, line <+: start
  := by
  have htail : ∀ line ∈ (cs.splitOn '\n').tail,
      ∃ start ∈ lineStarts.afterFeeds cs, line <+: start := by
    clear h line
    induction cs with
    | nil => simp
    | cons c cs ih =>
      intro line hline
      rw [List.splitOn_cons_eq_if_modifyHead] at hline
      rw [lineStarts.afterFeeds]
      by_cases hc : c = '\n'
      · rw [if_pos (by simpa using hc), List.tail_cons] at hline
        rw [if_pos hc]
        rcases Text.eq_takeWhile_or_mem_tail_splitOn hline with rfl | hline
        · exact ⟨cs, List.mem_cons_self, List.takeWhile_prefix _⟩
        · obtain ⟨start, hstart, hprefix⟩ := ih line hline
          exact ⟨start, List.mem_cons_of_mem cs hstart, hprefix⟩
      · rw [if_neg (by simpa using hc), List.tail_modifyHead] at hline
        rw [if_neg hc]
        exact ih line hline
  rcases Text.eq_takeWhile_or_mem_tail_splitOn h with rfl | h
  · exact ⟨cs, List.mem_cons_self, List.takeWhile_prefix _⟩
  · obtain ⟨start, hstart, hprefix⟩ := htail line h
    exact ⟨start, List.mem_cons_of_mem cs hstart, hprefix⟩

theorem Undeclared.beginsDeclaration_eq_false {cs line : List Char} (h : Undeclared cs)
    (hline : line ∈ cs.splitOn '\n') :
  beginsDeclaration (String.ofList (Text.lines.dropReturn line)) = false
  := by
  obtain ⟨start, hstart, hprefix⟩ := exists_lineStart hline
  rw [Bool.eq_false_iff, Ne, beginsDeclaration_iff]
  intro hdeclares
  exact h start hstart (hdeclares.of_isPrefix ((Text.dropReturn_isPrefix line).trans hprefix))

/-! ### Lines without comments -/

/-- A line without the carriage return at its end, and without its line comment. -/
def cleanLine (line : List Char) : List Char :=
  (withoutLineComment (String.ofList (Text.lines.dropReturn line))).toList

/-- The text of clean lines. -/
def cleanLines (cs : List Char) : List Char :=
  ['\n'].intercalate ((cs.splitOn '\n').map cleanLine)

/-- The text of a header is that of the clean lines before the line that begins a declaration. -/
theorem headerText_eq {source : String} {front last : List Char}
    (hsource : dropBlockComments 0 source.toList = front ++ '\n' :: last)
    (hfront : Undeclared front)
    (hlast : ∀ line ∈ (Text.lines (String.ofList last)).head?, beginsDeclaration line = true) :
  headerText source = cleanLines front
  := by
  have htake : (Text.lines (String.ofList last)).takeWhile (fun line => !beginsDeclaration line)
      = [] := by
    cases hlines : Text.lines (String.ofList last) with
    | nil => rfl
    | cons line lines =>
      rw [hlines] at hlast
      rw [List.takeWhile_cons_of_neg]
      simpa using hlast line rfl
  rw [headerText, hsource, Text.lines_append_feed, List.takeWhile_append_of_pos, htake,
    List.append_nil, String.toList_intercalate, List.map_map, List.map_map]
  · rfl
  · intro line hline
    obtain ⟨chars, hchars, rfl⟩ := List.mem_map.1 hline
    simpa using hfront.beginsDeclaration_eq_false hchars

theorem cleanLine_eq (line : List Char) :
  cleanLine line =
    ((Text.cutAt? ['/', '/'] (Text.lines.dropReturn line)).map Prod.fst).getD
      (Text.lines.dropReturn line)
  := by
  rw [cleanLine, withoutLineComment, String.toList_ofList]
  cases Text.cutAt? ['/', '/'] (Text.lines.dropReturn line) <;> simp

/-- What is in no comment stays in a clean line. -/
theorem cleanLine_append {cs ds : List Char} (hcomment : ¬ ['/', '/'] <:+: cs)
    (hslash : cs.getLast? ≠ some '/') (hreturn : cs.getLast? ≠ some '\r' ∨ ds ≠ []) :
  cleanLine (cs ++ ds) = cs ++ cleanLine ds
  := by
  rw [cleanLine_eq, cleanLine_eq, Text.dropReturn_append hreturn,
    Text.cutAt?_append hcomment fun h => absurd h hslash, Option.map_map]
  cases Text.cutAt? ['/', '/'] (Text.lines.dropReturn ds) <;> rfl

theorem cleanLine_comment (text : List Char) :
  cleanLine ('/' :: '/' :: text) = []
  := by
  have hdrop : Text.lines.dropReturn ('/' :: '/' :: text)
      = '/' :: '/' :: Text.lines.dropReturn text :=
    @Text.dropReturn_append ['/', '/'] text (.inl (by decide))
  rw [cleanLine_eq, hdrop, Text.cutAt?_cons, if_pos ⟨rfl, rfl⟩]
  rfl

theorem cleanLines_line {cs : List Char} (h : '\n' ∉ cs) :
  cleanLines cs = cleanLine cs
  := by
  rw [cleanLines, List.splitOn_eq_singleton h, List.map_singleton, List.intercalate_singleton]

theorem cleanLines_append_feed {cs : List Char} (h : '\n' ∉ cs) (ds : List Char) :
  cleanLines (cs ++ '\n' :: ds) = cleanLine cs ++ '\n' :: cleanLines ds
  := by
  have hne : (ds.splitOn '\n').map cleanLine ≠ [] := by simp [List.splitOn_ne_nil]
  rw [cleanLines, List.splitOn_append_cons_self, List.splitOn_eq_singleton h, List.map_append,
    List.map_singleton, List.singleton_append, List.intercalate_cons_of_ne_nil hne]
  simp [cleanLines]

/-- What becomes of the beginning of a line becomes of the beginning of a text. -/
theorem cleanLines_append {cs cs' ds : List Char} (hcs : '\n' ∉ cs)
    (h : cleanLine (cs ++ ds.takeWhile (· ≠ '\n')) = cs' ++ cleanLine (ds.takeWhile (· ≠ '\n'))) :
  cleanLines (cs ++ ds) = cs' ++ cleanLines ds
  := by
  by_cases hfeed : '\n' ∈ ds
  · obtain ⟨first, rest, rfl, hfirst⟩ := List.eq_append_cons_of_mem hfeed
    rw [Text.takeWhile_append_feed hfirst] at h
    rw [← List.append_assoc, cleanLines_append_feed (by simp [hcs, hfirst]),
      cleanLines_append_feed hfirst, h, List.append_assoc]
  · rw [Text.takeWhile_of_not_mem hfeed] at h
    rw [cleanLines_line (by simp [hcs, hfeed]), cleanLines_line hfeed, h]

end SourceHeader

namespace SourceText

open SourceHeader

variable {pieces : List Piece}

/-- What is left of pieces without comments: a line comment leaves the end of its line, and carriage
returns may be gone. -/
inductive Bared : List Piece → List Char → Prop where
  | nil : Bared [] []
  | word {w : List Char} {hw : IsWord w} {pieces : List Piece} {cs : List Char}
      (h : Bared pieces cs) :
    Bared (.word w hw :: pieces) (w ++ cs)
  | blank {c : Char} {hc : c ∈ spaces} {pieces : List Piece} {cs : List Char}
      (h : Bared pieces cs) :
    Bared (.filler (.blank c hc) :: pieces) (c :: cs)
  | ret {hreturn : '\r' ∈ spaces} {pieces : List Piece} {cs : List Char} (h : Bared pieces cs) :
    Bared (.filler (.blank '\r' hreturn) :: pieces) cs
  | lineComment {text : List Char} {htext : '\n' ∉ text} {pieces : List Piece} {cs : List Char}
      (h : Bared pieces cs) :
    Bared (.filler (.lineComment text htext) :: pieces) ('\n' :: cs)
  | blockComment {text : List Char} {htext : ¬ ['*', '/'] <:+: text} {pieces : List Piece}
      {cs : List Char} (h : Bared pieces cs) :
    Bared (.filler (.blockComment text htext) :: pieces) cs

/-- A blank stays, apart from a carriage return at the end of a line. -/
theorem cleanLines_blank {c : Char} (hc : c ∈ spaces) (cs : List Char) :
  cleanLines (c :: cs) = c :: cleanLines cs ∨ (c = '\r' ∧ cleanLines (c :: cs) = cleanLines cs)
  := by
  by_cases hfeed : c = '\n'
  · subst hfeed
    exact .inl (cleanLines_append_feed List.not_mem_nil cs)
  · have hfeed' : '\n' ∉ [c] := by simpa using Ne.symm hfeed
    by_cases hreturn : c = '\r' ∧ cs.takeWhile (· ≠ '\n') = []
    · obtain ⟨rfl, hnil⟩ := hreturn
      refine .inr ⟨rfl, ?_⟩
      change cleanLines (['\r'] ++ cs) = [] ++ cleanLines cs
      apply cleanLines_append hfeed'
      rw [hnil]
      rfl
    · left
      change cleanLines ([c] ++ cs) = [c] ++ cleanLines cs
      apply cleanLines_append hfeed'
      apply cleanLine_append
      · simp [Text.pair_infix_cons]
      · simpa using ne_of_mem_of_not_mem hc (show '/' ∉ spaces by decide)
      · exact (not_and_or.1 hreturn).imp_left fun hc => by simpa using hc

/-- A line comment goes up to the end of its line. -/
theorem feed_not_mem_comment {text : List Char} (h : '\n' ∉ text) :
  '\n' ∉ '/' :: '/' :: dropBlockComments 0 text
  := by
  simpa using fun hmem => h (mem_of_mem_dropBlockComments hmem)

/-- The clean lines of stripped pieces. -/
theorem exists_bared (pieces : List Piece) (tail : List Char) :
  ∃ cs, Bared pieces cs ∧ cleanLines (stripped pieces ++ tail) = cs ++ cleanLines tail
  := by
  induction pieces with
  | nil => exact ⟨[], .nil, rfl⟩
  | cons piece pieces ih =>
    obtain ⟨cs, hbared, hclean⟩ := ih
    rw [stripped_cons, List.append_assoc]
    obtain ⟨⟨c, hc⟩ | ⟨text, htext⟩ | ⟨text, htext⟩⟩ | ⟨w, hw⟩ := piece
    case filler.blank =>
      rcases cleanLines_blank hc (stripped pieces ++ tail) with hblank | ⟨rfl, hreturn⟩
      · exact ⟨c :: cs, .blank hbared, by rw [List.cons_append, ← hclean, ← hblank]; rfl⟩
      · exact ⟨cs, .ret hbared, by rw [← hclean, ← hreturn]; rfl⟩
    case filler.lineComment =>
      refine ⟨'\n' :: cs, .lineComment hbared, ?_⟩
      have hline := cleanLines_append_feed (feed_not_mem_comment htext) (stripped pieces ++ tail)
      rw [cleanLine_comment, hclean] at hline
      simpa [Piece.stripped, Filler.stripped] using hline
    case filler.blockComment => exact ⟨cs, .blockComment hbared, hclean⟩
    case word =>
      refine ⟨w ++ cs, .word hbared, ?_⟩
      rw [List.append_assoc, ← hclean]
      apply cleanLines_append hw.feed
      apply cleanLine_append hw.lineComment
      · exact fun hlast => (hw.last _ hlast).1 rfl
      · exact .inl fun hlast => (hw.last _ hlast).2 rfl

/-- Whether a filler ends a line once block comments are gone. -/
def Filler.EndsLine : Filler → Prop
  | blank c _ => c = '\n'
  | lineComment _ _ => True
  | blockComment _ _ => False

instance : DecidablePred Filler.EndsLine
  | .blank c _ => inferInstanceAs (Decidable (c = '\n'))
  | .lineComment _ _ => inferInstanceAs (Decidable True)
  | .blockComment _ _ => inferInstanceAs (Decidable False)

theorem Bared.exists_of_word {w : List Char} {hw : IsWord w} {cs : List Char}
    (h : Bared (.word w hw :: pieces) cs) :
  ∃ rest, cs = w ++ rest ∧ Bared pieces rest
  := by
  cases h with
  | word h => exact ⟨_, rfl, h⟩

/-- What is left of fillers is blanks. -/
theorem Bared.exists_of_gap {gap : List Filler} {cs : List Char}
    (h : Bared (gap.map .filler ++ pieces) cs) :
  ∃ blanks rest, cs = blanks ++ rest ∧ (∀ c ∈ blanks, c ∈ spaces) ∧
    ((∃ f ∈ gap, f.EndsLine) → '\n' ∈ blanks) ∧ Bared pieces rest
  := by
  induction gap generalizing cs with
  | nil => exact ⟨[], cs, rfl, nofun, nofun, h⟩
  | cons f gap ih =>
    rw [List.map_cons, List.cons_append] at h
    cases h with
    | @blank c hc _ _ h =>
      obtain ⟨blanks, rest, rfl, hblanks, hfeed, hrest⟩ := ih h
      refine ⟨c :: blanks, rest, rfl, by simpa [hc] using hblanks, ?_, hrest⟩
      rw [List.exists_mem_cons_iff]
      rintro (hends | hends)
      · obtain rfl : c = '\n' := hends
        exact List.mem_cons_self
      · exact List.mem_cons_of_mem c (hfeed hends)
    | ret h =>
      obtain ⟨blanks, rest, rfl, hblanks, hfeed, hrest⟩ := ih h
      refine ⟨blanks, rest, rfl, hblanks, ?_, hrest⟩
      rw [List.exists_mem_cons_iff]
      rintro (hends | hends)
      · cases hends
      · exact hfeed hends
    | lineComment h =>
      obtain ⟨blanks, rest, rfl, hblanks, -, hrest⟩ := ih h
      exact ⟨'\n' :: blanks, rest, rfl, by simpa [spaces] using hblanks,
        fun _ => List.mem_cons_self, hrest⟩
    | blockComment h =>
      obtain ⟨blanks, rest, rfl, hblanks, hfeed, hrest⟩ := ih h
      refine ⟨blanks, rest, rfl, hblanks, ?_, hrest⟩
      rw [List.exists_mem_cons_iff]
      rintro (hends | hends)
      · exact hends.elim
      · exact hfeed hends

theorem Bared.mem_spaces {gap : List Filler} {cs : List Char} (h : Bared (gap.map .filler) cs) :
  ∀ c ∈ cs, c ∈ spaces
  := by
  rw [← List.append_nil (gap.map Piece.filler)] at h
  obtain ⟨blanks, cs, rfl, hblanks, -, hnil⟩ := h.exists_of_gap
  cases hnil
  rwa [List.append_nil]

/-- A gap that ends a line is cut at the last end of one. -/
theorem exists_last_endsLine {gap : List Filler} (h : ∃ f ∈ gap, f.EndsLine) :
  ∃ front f back, gap = front ++ f :: back ∧ f.EndsLine ∧ ∀ g ∈ back, ¬ g.EndsLine
  := by
  induction gap with
  | nil => simp at h
  | cons g gap ih =>
    by_cases hgap : ∃ f ∈ gap, f.EndsLine
    · obtain ⟨front, f, back, rfl, hf, hback⟩ := ih hgap
      exact ⟨g :: front, f, back, rfl, hf, hback⟩
    · have hg : g.EndsLine := ((List.exists_mem_cons_iff _ g gap).1 h).resolve_right hgap
      exact ⟨[], g, gap, rfl, hg, fun f hf hends => hgap ⟨f, hf, hends⟩⟩

theorem isBlank_of_mem_spaces {c : Char} (hc : c ∈ spaces) :
  Text.isBlank c
  := by
  have hspaces : spaces.all Text.isBlank := by decide
  exact List.all_eq_true.1 hspaces c hc

/-- Whether the words of pieces begin no declarations, whatever follows them. -/
def NoDeclarations (pieces : List Piece) : Prop :=
  ∀ w hw, .word w hw ∈ pieces → ∀ rest, ¬ Declares (w ++ rest)

/-- Pieces whose words begin no declarations have no line that begins one. -/
theorem undeclared_stripped {tail : List Char} (h : NoDeclarations pieces)
    (htail : Undeclared tail) :
  Undeclared (stripped pieces ++ tail)
  := by
  induction pieces with
  | nil => exact htail
  | cons piece pieces ih =>
    have hpieces := ih fun w hw hmem => h w hw (List.mem_cons_of_mem piece hmem)
    rw [stripped_cons, List.append_assoc]
    obtain ⟨⟨c, hc⟩ | ⟨text, htext⟩ | ⟨text, htext⟩⟩ | ⟨w, hw⟩ := piece
    case filler.blank => exact hpieces.blank (isBlank_of_mem_spaces hc)
    case filler.lineComment =>
      have hline := (hpieces.blank (c := '\n') (by decide)).append (feed_not_mem_comment htext)
        (not_declares_comment _)
      simpa [Piece.stripped, Filler.stripped] using hline
    case filler.blockComment => exact hpieces
    case word => exact hpieces.append hw.feed (h w hw List.mem_cons_self _)

/-- What a filler that ends a line leaves before the end. -/
theorem exists_ending {f : Filler} (h : f.EndsLine) :
  ∃ ending, f.stripped = ending ++ ['\n'] ∧ cleanLines ending = [] ∧ Undeclared ending
  := by
  cases f with
  | blank c hc =>
    obtain rfl : c = '\n' := h
    exact ⟨[], rfl, rfl, undeclared_nil⟩
  | lineComment text htext =>
    have hfeed := feed_not_mem_comment htext
    refine ⟨'/' :: '/' :: dropBlockComments 0 text, rfl, ?_, ?_⟩
    · rw [cleanLines_line hfeed, cleanLine_comment]
    · have hline := undeclared_nil.append hfeed (not_declares_comment _)
      rwa [List.append_nil] at hline
  | blockComment text htext => exact h.elim

/-- Fillers that end no line leave blanks on one. -/
theorem isBlank_of_mem_stripped {gap : List Filler} (h : ∀ f ∈ gap, ¬ f.EndsLine) {c : Char}
    (hc : c ∈ stripped (gap.map .filler)) :
  Text.isBlank c ∧ c ≠ '\n'
  := by
  rw [stripped, List.flatMap_map, List.mem_flatMap] at hc
  obtain ⟨f, hf, hc⟩ := hc
  cases f with
  | blank d hd =>
    obtain rfl := List.mem_singleton.1 hc
    exact ⟨isBlank_of_mem_spaces hd, h _ hf⟩
  | lineComment text htext => exact absurd trivial (h _ hf)
  | blockComment text htext => cases hc

/-- The header of pieces before a declaration is what they are without comments, up to the last end
of a line before the declaration. -/
theorem exists_bared_headerText {gap : List Filler} {declaration : List Char}
    (hpieces : NoDeclarations pieces)
    (hunharmed : Unharmed declaration (pieces ++ gap.map .filler))
    (hends : ∃ f ∈ gap, f.EndsLine)
    (hdeclaration : ∃ word ∈ declarationWords, word.toList <+: declaration) :
  ∃ front : List Filler, Bared (pieces ++ front.map .filler)
    (headerText (String.ofList (render (pieces ++ gap.map .filler) ++ declaration)))
  := by
  obtain ⟨front, f, back, rfl, hf, hback⟩ := exists_last_endsLine hends
  obtain ⟨word, hword, rest, rfl⟩ := hdeclaration
  obtain ⟨ending, hstripped, hclean, hundeclared⟩ := exists_ending hf
  obtain ⟨cs, hbared, hcs⟩ := exists_bared (pieces ++ front.map .filler) ending
  rw [hclean, List.append_nil] at hcs
  refine ⟨front, ?_⟩
  obtain ⟨hcomment, -, hlast, -⟩ := of_mem_declarationWords hword
  have hdrop :
      dropBlockComments 0
          (render (pieces ++ (front ++ f :: back).map .filler) ++ (word.toList ++ rest))
        = (stripped (pieces ++ front.map .filler) ++ ending) ++ '\n' ::
          (stripped (back.map .filler) ++ (word.toList ++ dropBlockComments 0 rest)) := by
    rw [dropBlockComments_render hunharmed, dropBlockComments_append hcomment (by simp [hlast])]
    simp [stripped, Piece.stripped, hstripped]
  have hfront : NoDeclarations (pieces ++ front.map .filler) :=
    fun w hw hmem => hpieces w hw (by simpa using hmem)
  have hfirst := declares_first hword (fun c hc => isBlank_of_mem_stripped hback hc)
    (dropBlockComments 0 rest)
  rw [headerText_eq (by rwa [String.toList_ofList]) (undeclared_stripped hfront hundeclared) hfirst,
    hcs]
  exact hbared

end SourceText
end DepLock
