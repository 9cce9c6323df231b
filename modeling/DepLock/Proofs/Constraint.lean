import DepLock.Constraint
import DepLock.Proofs.SemVer.Render

/-!
# Reading back constraints

`Constraint.impliedCaret?` prepares a text before it reads a range in it. The preparation leaves the
text of a well-formed range alone, so that the range is read back (`impliedCaret?_render`). What
`Constraint.impliedCaret?` reads is always a well-formed range, and so is what a well-formed version
implies. A version satisfies the constraint that it implies (`admits_of_ofVersion?`).
-/

namespace DepLock

/-- Whether the semantic version that the tag of a version names, if any, is well-formed. -/
def Version.Wellformed (v : Version) : Prop :=
  ∀ tag version, v.ref? = some (.semver tag version) → version.Wellformed

namespace Constraint

open SemVer

/-- Whether a range in the constraint is well-formed, as every range is that is read from a text. -/
def Wellformed (c : Constraint) : Prop :=
  ∀ range, c = .semver range → range.Wellformed

/-- The constraint that is read from a text is a well-formed range. -/
theorem wellformed_of_impliedCaret? {s : String} {c : Constraint} (h : impliedCaret? s = some c) :
  ∃ range : Range, c = .semver range ∧ range.Wellformed
  := by
  unfold impliedCaret? at h
  simp only at h
  split at h
  · cases h
  · split at h
    case h_1 range hrange =>
      cases h
      exact ⟨range, rfl, Range.wellformed_of_parseChars? hrange⟩
    case h_2 =>
      obtain ⟨v, hv, rfl⟩ := Option.map_eq_some_iff.mp h
      exact ⟨.caret v, rfl, (wellformed_of_ofTag? hv).caret⟩

/-! ### The characters of a comparator -/

/-- A character that neither separates comparators nor is dropped from their ends. -/
def IsInner (c : Char) : Prop := Text.isBlank c = false ∧ c ≠ ','

theorem isInner_of_isIdChar {c : Char} (hc : isIdChar c) :
  IsInner c
  := by
  have hcode : c = '-' ∨ 48 ≤ c.toNat ∧ c.toNat ≤ 57 ∨ 97 ≤ c.toNat ∧ c.toNat ≤ 122
      ∨ 65 ≤ c.toNat ∧ c.toNat ≤ 90 := by
    simp only [isIdChar, isDigit, Bool.or_eq_true, Bool.and_eq_true, decide_eq_true_eq] at hc
    rcases hc with ((h | h) | h) | h
    · exact .inr (.inl h)
    · exact .inr (.inr (.inl h))
    · exact .inr (.inr (.inr h))
    · exact .inl h
  rcases hcode with rfl | hcode
  · exact ⟨by decide, by decide⟩
  · constructor
    · simp [Text.isBlank]
      omega
    · rintro rfl
      revert hcode
      decide

theorem isInner_of_isDigit {c : Char} (hc : isDigit c) :
  IsInner c
  := isInner_of_isIdChar (by simp [isIdChar, hc])

theorem isInner_of_mem {c : Char} (hc : c ∈ ['=', '>', '<', '~', '^', '.', '*', '-']) :
  IsInner c
  := by
  have hall : ∀ c ∈ ['=', '>', '<', '~', '^', '.', '*', '-'],
      Text.isBlank c = false ∧ c ≠ ',' := by simp [Text.isBlank]
  exact hall c hc

theorem isInner_of_mem_toDigits {n : Nat} {c : Char} (hc : c ∈ Nat.toDigits 10 n) :
  IsInner c
  := isInner_of_isDigit (isDigit_of_mem_toDigits hc)

theorem isInner_of_mem_operator {op : Operator} {c : Char} (hc : c ∈ op.render.toList) :
  IsInner c
  := by
  have hall : ∀ c ∈ op.render.toList, c ∈ ['=', '>', '<', '~', '^', '.', '*', '-'] := by
    cases op <;> simp [Operator.render]
  exact isInner_of_mem (hall c hc)

theorem isInner_of_mem_afterMajor {c : Comparator} (hc : c.Wellformed) {d : Char}
    (hd : d ∈ c.afterMajor) :
  IsInner d
  := by
  have hstar : ∀ d ∈ (if c.op = .wildcard then ['.', '*'] else []), IsInner d := by
    intro d hd
    split at hd
    · have hall : ∀ d ∈ ['.', '*'], d ∈ ['=', '>', '<', '~', '^', '.', '*', '-'] := by simp
      exact isInner_of_mem (hall d hd)
    · cases hd
  have hdot : IsInner '.' := ⟨by decide, by decide⟩
  have hmark : IsInner '-' := ⟨by decide, by decide⟩
  unfold Comparator.afterMajor at hd
  simp only at hd
  split at hd
  · exact hstar d hd
  · rcases List.mem_cons.mp hd with rfl | hd
    · exact hdot
    · rcases List.mem_append.mp hd with hd | hd
      · exact isInner_of_mem_toDigits hd
      · split at hd
        · exact hstar d hd
        · rcases List.mem_cons.mp hd with rfl | hd
          · exact hdot
          · rcases List.mem_append.mp hd with hd | hd
            · exact isInner_of_mem_toDigits hd
            · split at hd
              · cases hd
              · rcases List.mem_cons.mp hd with rfl | hd
                · exact hmark
                · have hid := isIdChar_of_mem_renderIds hc.pre hd
                  rw [Bool.or_eq_true, decide_eq_true_eq] at hid
                  rcases hid with hid | rfl
                  · exact isInner_of_isIdChar hid
                  · exact hdot

/-- The text of a well-formed comparator has no blanks and no commas. -/
theorem isInner_of_mem_render {c : Comparator} (hc : c.Wellformed) :
  ∀ d ∈ c.render.toList, IsInner d
  := by
  intro d hd
  rw [c.toList_render, List.mem_append, List.mem_append] at hd
  rcases hd with hd | hd | hd
  · exact isInner_of_mem_operator hd
  · exact isInner_of_mem_toDigits hd
  · exact isInner_of_mem_afterMajor hc hd

/-! ### The preparation of a text -/

theorem trimChars_of_isInner {cs : List Char} (h : ∀ c ∈ cs, IsInner c) :
  Text.trimChars cs = cs
  := Text.trimChars_eq_self (fun c hc => (h c (List.mem_of_mem_head? hc)).1)
    (fun c hc => (h c (List.mem_of_mem_getLast? hc)).1)

theorem isOperatorChar_eq_false_of_isDigit {d : Char} (hd : isDigit d) :
  isOperatorChar d = false
  := by
  simp [isOperatorChar, ne_of_isDigit hd (show isDigit '<' = false by decide),
    ne_of_isDigit hd (show isDigit '>' = false by decide),
    ne_of_isDigit hd (show isDigit '=' = false by decide),
    ne_of_isDigit hd (show isDigit '^' = false by decide),
    ne_of_isDigit hd (show isDigit '~' = false by decide),
    ne_of_isDigit hd (show isDigit ' ' = false by decide)]

theorem dropVersionV_cons {d : Char} (hd : isDigit d) (ds : List Char) :
  dropVersionV (d :: ds) = d :: ds
  := by
  unfold dropVersionV
  split
  next h => exact absurd (List.cons.inj h).1 (ne_of_isDigit hd (by decide))
  next => rfl

/-- The text of a well-formed comparator is left alone, also with a blank in front. -/
theorem plainComparator_render {c : Comparator} (hc : c.Wellformed) :
  plainComparator c.render.toList = c.render.toList
  := by
  obtain ⟨d, ds, hds, hd, -⟩ := exists_toDigits_eq_cons c.major
  have hop : ∀ o ∈ c.op.render.toList, isOperatorChar o := by
    cases c.op <;> simp [Operator.render, isOperatorChar]
  have hstop : ∀ o ∈ (d :: (ds ++ c.afterMajor)).head?, isOperatorChar o = false := by
    rintro o ⟨⟩
    exact isOperatorChar_eq_false_of_isDigit hd
  have hspan := Text.span_append hop hstop
  rw [List.span_eq_takeWhile_dropWhile, Prod.mk.injEq] at hspan
  rw [plainComparator, trimChars_of_isInner (isInner_of_mem_render hc), c.toList_render, hds,
    List.cons_append, hspan.1, hspan.2, dropVersionV_cons hd]

theorem plainComparator_blank_render {c : Comparator} (hc : c.Wellformed) :
  plainComparator (' ' :: c.render.toList) = c.render.toList
  := by
  have h := plainComparator_render hc
  rw [plainComparator] at h ⊢
  rwa [Text.trimChars_cons_of_blank _ (by decide)]

/-- The blank after a comma counts to the part that follows. -/
theorem intercalate_comma_blank (part : List Char) (parts : List (List Char)) :
  [',', ' '].intercalate (part :: parts) = [','].intercalate (part :: parts.map (' ' :: ·))
  := by
  induction parts generalizing part with
  | nil => simp
  | cons next parts ih =>
    rw [List.intercalate_cons_cons, ih, List.map_cons, List.intercalate_cons_cons,
      List.intercalate_cons_cons_left]
    simp

/-- The text of a well-formed range is left alone. -/
theorem plainComparators_render {r : Range} (hr : r.Wellformed) :
  plainComparators r.render.toList = r.render.toList
  := by
  by_cases hnil : r.comparators = []
  · obtain ⟨l⟩ := r
    cases hnil
    decide
  · obtain ⟨c, l, hcl⟩ := List.exists_cons_of_ne_nil hnil
    have hc : c.Wellformed := hr.comparators c (by rw [hcl]; exact List.mem_cons_self)
    have hl : ∀ c' ∈ l, c'.Wellformed := fun c' hc' =>
      hr.comparators c' (by rw [hcl]; exact List.mem_cons_of_mem c hc')
    have hsplit : r.render.toList.splitOn ','
        = c.render.toList :: l.map (fun c' => ' ' :: c'.render.toList) := by
      rw [Range.toList_render hnil, hcl, List.map_cons, intercalate_comma_blank, List.map_map]
      apply List.splitOn_intercalate
      · intro part hpart hcomma
        rcases List.mem_cons.mp hpart with rfl | hpart
        · exact (isInner_of_mem_render hc ',' hcomma).2 rfl
        · obtain ⟨c', hc', rfl⟩ := List.mem_map.mp hpart
          rcases List.mem_cons.mp hcomma with h | h
          · revert h
            decide
          · exact (isInner_of_mem_render (hl c' hc') ',' h).2 rfl
      · exact List.cons_ne_nil _ _
    have hparts : l.map (plainComparator ∘ fun c' => ' ' :: c'.render.toList)
        = l.map (·.render.toList) :=
      List.map_congr_left fun c' hc' => plainComparator_blank_render (hl c' hc')
    rw [plainComparators, hsplit, List.map_cons, plainComparator_render hc, List.map_map, hparts,
      Range.toList_render hnil, hcl, List.map_cons]

/-- The text of a well-formed range is not empty and has no blanks at its ends. -/
theorem trimChars_render {r : Range} (hr : r.Wellformed) :
  Text.trimChars r.render.toList = r.render.toList ∧ r.render.toList ≠ []
  := by
  by_cases hnil : r.comparators = []
  · obtain ⟨l⟩ := r
    cases hnil
    decide
  · obtain ⟨c, l, hcl⟩ := List.exists_cons_of_ne_nil hnil
    obtain ⟨d, ds, hds, hd⟩ := exists_intercalate_eq_cons c l
    rw [← hcl] at hds
    rw [Range.toList_render hnil]
    have hne : ∀ part ∈ r.comparators.map (·.render.toList), part ≠ [] := by
      intro part hpart
      obtain ⟨c', -, rfl⟩ := List.mem_map.mp hpart
      obtain ⟨d', ds', hds', -⟩ := c'.exists_render_eq_cons
      rw [hds']
      exact List.cons_ne_nil d' ds'
    obtain ⟨part, hpart, hlast⟩ :=
      Text.exists_getLast?_intercalate [',', ' '] (by simpa using hnil) hne
    obtain ⟨c', hc', rfl⟩ := List.mem_map.mp hpart
    refine ⟨Text.trimChars_eq_self ?_ ?_, ?_⟩
    · rw [hds]
      rintro _ ⟨⟩
      rcases hd with hd | hd
      · exact (isInner_of_isDigit hd).1
      · have hops : ∀ o ∈ ['=', '>', '<', '~', '^'], Text.isBlank o = false := by
          simp [Text.isBlank]
        exact hops d hd
    · rw [hlast]
      intro e he
      exact (isInner_of_mem_render (hr.comparators c' hc') e (List.mem_of_mem_getLast? he)).1
    · rw [hds]
      exact List.cons_ne_nil d ds

/-- The text of a well-formed range is read as the range. -/
theorem impliedCaret?_render {r : Range} (hr : r.Wellformed) :
  impliedCaret? r.render = some (.semver r)
  := by
  obtain ⟨htrim, hne⟩ := trimChars_render hr
  simp only [impliedCaret?, htrim, if_neg hne, plainComparators_render hr,
    Range.parseChars?_render hr]

/-! ### The constraint that a version implies -/

/-- The constraint that a well-formed version implies is well-formed. -/
theorem wellformed_of_ofVersion? {v : Version} (hv : v.Wellformed) {c : Constraint}
    (h : ofVersion? v = some c) :
  c.Wellformed
  := by
  obtain ⟨ref, href, rfl⟩ := Option.map_eq_some_iff.mp h
  cases ref with
  | branch name isDefault => exact nofun
  | semver tag version =>
    rintro range hrange
    cases hrange
    exact (hv tag version href).caret
  | plain tag => exact nofun

theorem comparePreId_self (id : String) :
  comparePreId id id = .eq
  := by
  unfold comparePreId
  cases isNumeric id <;> simp

theorem comparePre_self (pre : List String) :
  comparePre pre pre = .eq
  := by
  have hlex (ids : List String) : List.compareLex comparePreId ids ids = .eq := by
    induction ids with
    | nil => rfl
    | cons id ids ih => simp [List.compareLex_cons_cons, comparePreId_self, ih]
  cases pre with
  | nil => rfl
  | cons id ids => exact hlex (id :: ids)

/-- A version is compatible with itself. -/
theorem contains_caret (v : SemVer) :
  (Range.caret v).contains v
  := by
  have hpre : (comparePre v.pre v.pre).isGE := by
    rw [comparePre_self]
    rfl
  have hholds : (Range.caret v).comparators.all (·.holds v) := by
    simp [Range.caret, Comparator.holds, Comparator.caretHolds, hpre]
  rw [Range.contains, hholds, Bool.true_and, Bool.or_eq_true]
  by_cases hnil : v.pre = []
  · exact .inl (by simp [hnil])
  · exact .inr (by simp [Range.caret, Comparator.admitsPre, hnil])

/-- A version satisfies the constraint that it implies. -/
theorem admits_of_ofVersion? {v : Version} {c : Constraint} (h : ofVersion? v = some c) :
  c.admits v
  := by
  obtain ⟨ref, href, rfl⟩ := Option.map_eq_some_iff.mp h
  cases ref with
  | branch name isDefault => simp [ofRef, admits, href]
  | semver tag version => simp [ofRef, caret, admits, Version.semver?, href, contains_caret]
  | plain tag => simp [ofRef, admits, href]

end Constraint
end DepLock
