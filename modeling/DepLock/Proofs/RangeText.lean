import DepLock.Proofs.Tag
import DepLock.Proofs.Text.Trim

/-!
# How a range may be written

The same comparators may be written with a `v` in front of some of their versions, and with blanks
around them. What `Constraint.impliedCaret?` reads does not depend on it
(`Constraint.impliedCaret?_written`). A range is read from a text that is prepared, and the
preparation takes all of this away. A tag is only read from a text without operator and without
comma, and the `v` that is dropped there is the one that the preparation would drop.
-/

namespace DepLock.Constraint

open SemVer

/-- A comparator: an operator, which may be empty, and a version that begins with a digit. -/
structure ComparatorText where
  operator : List Char
  first : Char
  others : List Char
  operator_chars : ∀ c ∈ operator, isOperatorChar c = true
  first_digit : isDigit first = true
  comma_notMem : ',' ∉ others

/-- A way to write a comparator: the blanks before and after it, and whether there is a `v` in front
of its version. -/
structure Style where
  before : List Char := []
  after : List Char := []
  marked : Bool := false
  before_blank : ∀ c ∈ before, Text.isBlank c = true := by simp
  after_blank : ∀ c ∈ after, Text.isBlank c = true := by simp

namespace Style

/-- What stands in front of the version. -/
def mark (s : Style) : List Char := if s.marked then ['v'] else []

theorem mark_cases (s : Style) :
  s.mark = [] ∨ s.mark = ['v']
  := by
  unfold mark
  split
  · exact .inr rfl
  · exact .inl rfl

end Style

namespace ComparatorText

variable (c : ComparatorText) (s : Style)

/-- The text of a comparator. -/
def written : List Char :=
  s.before ++ (c.operator ++ s.mark ++ c.first :: (c.others ++ s.after))

/-- The text of a comparator without anything that does not count. -/
def plain : List Char :=
  c.operator.dropWhile Text.isBlank ++ c.first :: Text.dropEndWhile Text.isBlank c.others

theorem first_inner :
  IsInner c.first
  := isInner_of_isDigit c.first_digit

/-- What is left of a comparator when it is trimmed. -/
theorem trimChars_written :
  Text.trimChars (c.written s) = c.operator.dropWhile Text.isBlank ++
    (s.mark ++ c.first :: Text.dropEndWhile Text.isBlank c.others)
  := by
  have hfirst : Text.isBlank c.first = false := c.first_inner.1
  have hmark : (c.operator ++ s.mark).dropWhile Text.isBlank
      = c.operator.dropWhile Text.isBlank ++ s.mark := by
    rcases s.mark_cases with hmark | hmark
    · rw [hmark, List.append_nil, List.append_nil]
    · rw [hmark]
      apply Text.dropWhile_append_cons (by decide)
  rw [Text.trimChars, written, List.dropWhile_append_of_pos s.before_blank,
    Text.dropWhile_append_cons hfirst, hmark, Text.dropEndWhile_append_cons hfirst,
    Text.dropEndWhile_append, if_pos (Text.dropEndWhile_eq_nil_iff.2 s.after_blank),
    List.append_assoc]

/-- The `v` in front of the version is dropped with the blanks. -/
theorem plainComparator_written :
  plainComparator (c.written s) = c.plain
  := by
  have hrun : ∀ o ∈ c.operator.dropWhile Text.isBlank, isOperatorChar o = true :=
    fun o ho => c.operator_chars o ((List.dropWhile_suffix _).mem ho)
  have hstop := isOperatorChar_eq_false_of_isDigit c.first_digit
  set version := c.first :: Text.dropEndWhile Text.isBlank c.others with hversion
  have hhead : ∀ o ∈ (s.mark ++ version).head?, isOperatorChar o = false := by
    rcases s.mark_cases with hmark | hmark
    · simpa [hmark, hversion] using hstop
    · rw [hmark]
      simp [isOperatorChar]
  have hdrop : dropVersionV (s.mark ++ version) = version := by
    rcases s.mark_cases with hmark | hmark
    · rw [hmark]
      exact dropVersionV_cons c.first_digit _
    · rw [hmark, hversion]
      simp [dropVersionV, c.first_digit]
  have hspan := Text.span_append hrun hhead
  rw [List.span_eq_takeWhile_dropWhile, Prod.mk.injEq] at hspan
  rw [plainComparator, trimChars_written, ← hversion, hspan.1, hspan.2, hdrop, plain]

theorem comma_notMem_written :
  ',' ∉ c.written s
  := by
  have hmark : ',' ∉ s.mark := by
    rcases s.mark_cases with hmark | hmark <;> simp [hmark]
  simp only [written, List.mem_append, List.mem_cons, not_or]
  refine ⟨?_, ⟨?_, hmark⟩, ?_, c.comma_notMem, ?_⟩
  · intro hbefore
    cases s.before_blank _ hbefore
  · intro hoperator
    cases c.operator_chars _ hoperator
  · exact c.first_inner.2.symm
  · intro hafter
    cases s.after_blank _ hafter

end ComparatorText

/-- The text of a list of comparators. -/
def written (l : List (ComparatorText × Style)) : String :=
  String.ofList ([','].intercalate (l.map fun p => p.1.written p.2))

variable {l l' : List (ComparatorText × Style)}

theorem splitOn_written (hne : l ≠ []) :
  (written l).toList.splitOn ',' = l.map fun p => p.1.written p.2
  := by
  rw [written, String.toList_ofList]
  apply List.splitOn_intercalate
  · intro part hpart
    obtain ⟨⟨c, s⟩, -, rfl⟩ := List.mem_map.1 hpart
    apply c.comma_notMem_written
  · simpa using hne

/-! ### Prepared texts -/

/-- A text is prepared in the same way when it is trimmed. -/
theorem plainComparators_trimChars (cs : List Char) :
  plainComparators (Text.trimChars cs) = plainComparators cs
  := by
  have hparts (l : List (List Char)) : l.map plainComparator
      = (l.map Text.trimChars).map fun part =>
        part.takeWhile isOperatorChar ++ dropVersionV (part.dropWhile isOperatorChar) := by
    rw [List.map_map]
    rfl
  rw [plainComparators, plainComparators, hparts, hparts,
    Text.map_trimChars_splitOn_trimChars (by decide)]

theorem plainComparators_written (hne : l ≠ []) :
  plainComparators (Text.trimChars (written l).toList)
    = [',', ' '].intercalate ((l.map Prod.fst).map ComparatorText.plain)
  := by
  have hparts : (l.map fun p => p.1.written p.2).map plainComparator
      = (l.map Prod.fst).map ComparatorText.plain := by
    rw [List.map_map, List.map_map]
    exact List.map_congr_left fun p _ => p.1.plainComparator_written p.2
  rw [plainComparators_trimChars, plainComparators, splitOn_written hne, hparts]

/-! ### Tags -/

theorem ofTag?_eq_none_of_comma {cs : List Char} (h : ',' ∈ cs) :
  ofTag? (String.ofList cs) = none
  := by
  rw [Option.eq_none_iff_forall_ne_some]
  intro v hv
  obtain ⟨d, ds, hdrop, -, hchars⟩ := cons_of_ofTag? hv
  rw [String.toList_ofList] at hdrop
  have hmem : ',' ∈ d :: ds := by
    rcases eq_or_eq_of_dropV hdrop with rfl | rfl
    · exact h
    · simpa using h
  exact (isInner_of_isVersionChar (hchars _ hmem)).2 rfl

theorem ofTag?_eq_none_of_operator {o : Char} (ho : isOperatorChar o = true) (cs : List Char) :
  ofTag? (String.ofList (o :: cs)) = none
  := by
  rw [Option.eq_none_iff_forall_ne_some]
  intro v hv
  obtain ⟨d, ds, hdrop, hd, -⟩ := cons_of_ofTag? hv
  rw [String.toList_ofList] at hdrop
  rcases eq_or_eq_of_dropV hdrop with heq | heq
  · cases heq
    rw [isOperatorChar_eq_false_of_isDigit hd] at ho
    cases ho
  · cases heq
    cases ho

theorem ofTag?_mark (s : Style) {d : Char} (hd : isDigit d = true) (ds : List Char) :
  ofTag? (String.ofList (s.mark ++ d :: ds)) = ofTag? (String.ofList (d :: ds))
  := by
  have hdrop : dropV (s.mark ++ d :: ds) = dropV (d :: ds) := by
    rw [dropV_cons hd]
    rcases s.mark_cases with hmark | hmark
    · rw [hmark, List.nil_append, dropV_cons hd]
    · rw [hmark]
      rfl
  simp only [ofTag?, String.toList_ofList, hdrop]

theorem comma_mem_intercalate (part next : List Char) (parts : List (List Char)) :
  ',' ∈ [','].intercalate (part :: next :: parts)
  := by
  simp [List.intercalate_cons_cons]

/-- A tag is read in the same way when its text is prepared: a text of more comparators is none, and
neither is one with an operator. -/
theorem ofTag?_written (hne : l ≠ []) :
  ofTag? (String.ofList (Text.trimChars (written l).toList))
    = ofTag? (String.ofList ([','].intercalate ((l.map Prod.fst).map ComparatorText.plain)))
  := by
  match l, hne with
  | [(c, s)], _ =>
    simp only [written, String.toList_ofList, List.map_singleton, List.intercalate_singleton,
      c.trimChars_written, ComparatorText.plain]
    cases hoperator : c.operator.dropWhile Text.isBlank with
    | nil => exact ofTag?_mark s c.first_digit _
    | cons o os =>
      have ho : isOperatorChar o = true := by
        apply c.operator_chars
        apply (List.dropWhile_suffix Text.isBlank).mem
        rw [hoperator]
        exact List.mem_cons_self
      rw [List.cons_append, List.cons_append, ofTag?_eq_none_of_operator ho,
        ofTag?_eq_none_of_operator ho]
  | _ :: _ :: _, _ =>
    rw [ofTag?_eq_none_of_comma, ofTag?_eq_none_of_comma]
    · apply comma_mem_intercalate
    · apply Text.mem_trimChars (by decide)
      rw [written, String.toList_ofList]
      apply comma_mem_intercalate

/-! ### What is read -/

theorem trimChars_written_ne_nil (hne : l ≠ []) :
  Text.trimChars (written l).toList ≠ []
  := by
  obtain ⟨⟨c, s⟩, l, rfl⟩ := List.exists_cons_of_ne_nil hne
  apply List.ne_nil_of_mem
  apply Text.mem_trimChars c.first_inner.1
  rw [written, String.toList_ofList, List.map_cons]
  have hmem : c.first ∈ c.written s := by simp [ComparatorText.written]
  cases l with
  | nil => simpa using hmem
  | cons p l =>
    rw [List.map_cons, List.intercalate_cons_cons]
    simp [hmem]

/-- What is read is read from the comparators without anything that does not count. -/
theorem impliedCaret?_written_eq (hne : l ≠ []) :
  impliedCaret? (written l)
    = let parts := (l.map Prod.fst).map ComparatorText.plain
      match Range.parseChars? ([',', ' '].intercalate parts) with
      | some range => some (semver range)
      | none => (ofTag? (String.ofList ([','].intercalate parts))).map caret
  := by
  have hnil := trimChars_written_ne_nil hne
  have hplain := plainComparators_written hne
  cases hrange : Range.parseChars?
      ([',', ' '].intercalate ((l.map Prod.fst).map ComparatorText.plain)) with
  | none => simp only [impliedCaret?, if_neg hnil, hplain, hrange, ofTag?_written hne]
  | some range => simp only [impliedCaret?, if_neg hnil, hplain, hrange]

/-- The same comparators are read as the same constraint, or not at all, however they are written:
whichever of their versions have a `v` in front of them, and whatever blanks stand around the commas
and at the ends. -/
theorem impliedCaret?_written (l l' : List (ComparatorText × Style))
    (h : l.map Prod.fst = l'.map Prod.fst) :
  impliedCaret? (written l) = impliedCaret? (written l')
  := by
  by_cases hne : l = []
  · have hne' : l' = [] := by
      rw [hne, List.map_nil, eq_comm, List.map_eq_nil_iff] at h
      exact h
    rw [hne, hne']
  · have hne' : l' ≠ [] := by
      rintro rfl
      exact hne (List.map_eq_nil_iff.1 h)
    rw [impliedCaret?_written_eq hne, impliedCaret?_written_eq hne', h]

namespace Sample

/-- At least version 1.0. -/
def atLeast : ComparatorText where
  operator := ['>', '=', ' ']
  first := '1'
  others := ['.', '0']
  operator_chars := by simp [isOperatorChar]
  first_digit := by decide
  comma_notMem := by decide

/-- Below version 2. -/
def below : ComparatorText where
  operator := ['<']
  first := '2'
  others := []
  operator_chars := by simp [isOperatorChar]
  first_digit := by decide
  comma_notMem := by decide

/-- Both, the first marked, with blanks of several kinds. -/
def spaced : List (ComparatorText × Style) :=
  [(atLeast, ⟨[' '], ['\t'], true, by simp [Text.isBlank], by simp [Text.isBlank]⟩),
    (below, ⟨[' '], ['\n'], false, by simp [Text.isBlank], by simp [Text.isBlank]⟩)]

/-- Both, the second marked, without blanks. -/
def tight : List (ComparatorText × Style) :=
  [(atLeast, {}), (below, { marked := true })]

end Sample

theorem impliedCaret?_written_sample :
  Sample.spaced.map Prod.fst = Sample.tight.map Prod.fst ∧
    impliedCaret? " >= v1.0\t, <2\n" = impliedCaret? ">= 1.0,<v2" ∧
    (impliedCaret? ">= 1.0,<v2").isSome
  := by
  have hread := impliedCaret?_written Sample.spaced Sample.tight rfl
  have hspaced : written Sample.spaced = " >= v1.0\t, <2\n" := by decide
  have htight : written Sample.tight = ">= 1.0,<v2" := by decide
  rw [hspaced, htight] at hread
  exact ⟨rfl, hread, by decide⟩

end DepLock.Constraint
