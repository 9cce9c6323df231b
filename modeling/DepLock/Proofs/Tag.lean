import DepLock.Proofs.Constraint

/-!
# The constraints that a tag implies

A tag that names a semantic version is also the text of a range, in which a bare version means the
versions compatible with it. The two readers differ: a tag of one or two numbers may have leading
zeros, which a range may not, and a range leaves open the numbers that are zero in such a tag. They
agree in that the version is in the range (`Constraint.admits_of_implied`).
-/

namespace DepLock

namespace SemVer

/-! ### What a tag consists of -/

/-- Whether a character may stand in a version. -/
def IsVersionChar (c : Char) : Prop := isIdChar c = true ∨ c = '.' ∨ c = '+'

/-- Whether a reader takes characters off the front of a text that may stand in a version. -/
def Takes (cs rest : List Char) : Prop :=
  ∃ run, cs = run ++ rest ∧ ∀ c ∈ run, IsVersionChar c

variable {cs rest rest' : List Char} {n : Nat} {v : SemVer}

theorem isVersionChar_of_isDigit {d : Char} (hd : isDigit d = true) :
  IsVersionChar d
  := .inl (by simp [isIdChar, hd])

theorem Takes.refl (cs : List Char) :
  Takes cs cs
  := ⟨[], rfl, nofun⟩

theorem Takes.trans (h : Takes cs rest) (h' : Takes rest rest') :
  Takes cs rest'
  := by
  obtain ⟨run, rfl, hrun⟩ := h
  obtain ⟨run', rfl, hrun'⟩ := h'
  refine ⟨run ++ run', by rw [List.append_assoc], ?_⟩
  intro c hc
  rcases List.mem_append.1 hc with hc | hc
  · apply hrun c hc
  · apply hrun' c hc

theorem takes_of_number? (h : number? cs = some (n, rest)) :
  Takes cs rest
  := by
  have hspan : (cs.span isDigit).2 = rest := by
    simp only [number?] at h
    split at h
    · cases h
    · cases h
    · obtain ⟨-, h⟩ := Option.ite_none_right_eq_some.1 h
      cases h
      rfl
  rw [List.span_eq_takeWhile_dropWhile] at hspan
  refine ⟨cs.takeWhile isDigit, ?_, ?_⟩
  · rw [← hspan, List.takeWhile_append_dropWhile]
  · intro c hc
    apply isVersionChar_of_isDigit (List.all_eq_true.1 List.all_takeWhile c hc)

theorem eq_of_point? (h : point? cs = some rest) :
  cs = '.' :: rest
  := by
  unfold point? at h
  split at h
  · cases h
    rfl
  · cases h

theorem takes_of_point? (h : point? cs = some rest) :
  Takes cs rest
  := ⟨['.'], eq_of_point? h, by simp [IsVersionChar]⟩

theorem takes_of_ids? {strict : Bool} {ids : List String} (h : ids? strict cs = some (ids, rest)) :
  Takes cs rest
  := by
  simp only [ids?, List.span_eq_takeWhile_dropWhile, Option.ite_none_right_eq_some,
    Option.some.injEq, Prod.mk.injEq] at h
  obtain ⟨-, -, rfl⟩ := h
  refine ⟨_, List.takeWhile_append_dropWhile.symm, ?_⟩
  intro c hc
  have hid := List.all_eq_true.1 List.all_takeWhile c hc
  rw [Bool.or_eq_true, decide_eq_true_eq] at hid
  exact hid.imp_right .inl

theorem takes_of_idsAfter? {mark : Char} {strict : Bool} {ids : List String}
    (hmark : mark = '-' ∨ mark = '+') (h : idsAfter? mark strict cs = some (ids, rest)) :
  Takes cs rest
  := by
  unfold idsAfter? at h
  split at h
  · cases h
    apply Takes.refl
  next c cs =>
    split at h
    next hc =>
      obtain ⟨run, rfl, hrun⟩ := takes_of_ids? h
      refine ⟨c :: run, rfl, List.forall_mem_cons.2 ⟨?_, hrun⟩⟩
      rcases hmark with rfl | rfl
      · simp [hc, IsVersionChar, isIdChar]
      · simp [hc, IsVersionChar]
    next =>
      cases h
      apply Takes.refl

/-- The text of a version has only characters that may stand in one. -/
theorem forall_mem_of_parseChars? (h : parseChars? cs = some v) :
  ∀ c ∈ cs, IsVersionChar c
  := by
  simp only [parseChars?, Option.bind_eq_bind, Option.bind_eq_some_iff, Prod.exists] at h
  obtain ⟨major, _, hmajor, _, hdot, minor, _, hminor, _, hdot', patch, _, hpatch, pre, _, hpre,
    build, rest, hbuild, h⟩ := h
  obtain ⟨rfl, -⟩ := Option.ite_none_right_eq_some.1 h
  have htakes := (takes_of_number? hmajor).trans <| (takes_of_point? hdot).trans <|
    (takes_of_number? hminor).trans <| (takes_of_point? hdot').trans <|
    (takes_of_number? hpatch).trans <| (takes_of_idsAfter? (.inl rfl) hpre).trans <|
    takes_of_idsAfter? (.inr rfl) hbuild
  obtain ⟨run, hrun, hchars⟩ := htakes
  rw [hrun, List.append_nil]
  exact hchars

theorem of_paddedNumber? {ds : List Char} (h : paddedNumber? ds = some n) :
  ds ≠ [] ∧ (∀ d ∈ ds, isDigit d = true) ∧ n = digitsValue ds
  := by
  simp only [paddedNumber?, Bool.and_eq_true, decide_eq_true_eq, List.all_eq_true,
    Option.ite_none_right_eq_some, Option.some.injEq] at h
  obtain ⟨⟨hne, hdigits⟩, -, rfl⟩ := h
  exact ⟨hne, hdigits, rfl⟩

/-- Whether the text after the first number of a short tag gives the second number: nothing is zero,
and a run of digits after a point is its value. -/
def IsShortMinor (tail : List Char) (m : Nat) : Prop :=
  tail = [] ∧ m = 0 ∨
    ∃ ds, tail = '.' :: ds ∧ ds ≠ [] ∧ (∀ d ∈ ds, isDigit d = true) ∧ m = digitsValue ds

theorem IsShortMinor.isDigit_or_point {tail : List Char} {m : Nat} (h : IsShortMinor tail m)
    {c : Char} (hc : c ∈ tail) :
  isDigit c = true ∨ c = '.'
  := by
  rcases h with ⟨rfl, -⟩ | ⟨ds, rfl, -, hdigits, -⟩
  · cases hc
  · rcases List.mem_cons.1 hc with rfl | hc
    · exact .inr rfl
    · exact .inl (hdigits c hc)

/-- A short tag is a run of digits, and a second one after a point if it has a second number. -/
theorem of_shortTag? (h : shortTag? cs = some v) :
  ∃ ds tail m, cs = ds ++ tail ∧ ds ≠ [] ∧ (∀ d ∈ ds, isDigit d = true) ∧ IsShortMinor tail m ∧
    v = { major := digitsValue ds, minor := m, patch := 0 }
  := by
  have hjoin : ['.'].intercalate (cs.splitOn '.') = cs := List.intercalate_splitOn _
  unfold shortTag? at h
  split at h
  next major hsplit =>
    rw [hsplit, List.intercalate_singleton] at hjoin
    obtain ⟨n, hmajor, h⟩ := Option.bind_eq_some_iff.1 h
    obtain ⟨hne, hdigits, rfl⟩ := of_paddedNumber? hmajor
    cases h
    exact ⟨major, [], 0, by rw [List.append_nil, hjoin], hne, hdigits, .inl ⟨rfl, rfl⟩, rfl⟩
  next major minor hsplit =>
    rw [hsplit, List.intercalate_cons_cons, List.intercalate_singleton] at hjoin
    obtain ⟨n, hmajor, h⟩ := Option.bind_eq_some_iff.1 h
    obtain ⟨m, hminor, h⟩ := Option.bind_eq_some_iff.1 h
    obtain ⟨hne, hdigits, rfl⟩ := of_paddedNumber? hmajor
    obtain ⟨hne', hdigits', rfl⟩ := of_paddedNumber? hminor
    cases h
    refine ⟨major, '.' :: minor, digitsValue minor, ?_, hne, hdigits, ?_, rfl⟩
    · rw [← hjoin, List.append_assoc]
      rfl
    · exact .inr ⟨minor, rfl, hne', hdigits', rfl⟩
  next => cases h

/-! ### The numbers of a tag -/

theorem exists_digit_of_number? (h : number? cs = some (n, rest)) :
  ∃ d ds, cs = d :: ds ∧ isDigit d = true
  := by
  cases cs with
  | nil => cases h
  | cons d ds =>
    refine ⟨d, ds, rfl, ?_⟩
    by_contra hd
    simp [number?, List.span_eq_takeWhile_dropWhile, hd] at h

/-- A tag that names a version begins with a digit after its `v`, and has only characters that may
stand in a version. -/
theorem cons_of_ofTag? {tag : String} (h : ofTag? tag = some v) :
  ∃ d ds, dropV tag.toList = d :: ds ∧ isDigit d = true ∧ ∀ c ∈ d :: ds, IsVersionChar c
  := by
  simp only [ofTag?] at h
  split at h
  next v hparse =>
    cases h
    have hchars := forall_mem_of_parseChars? hparse
    simp only [parseChars?, Option.bind_eq_bind, Option.bind_eq_some_iff, Prod.exists] at hparse
    obtain ⟨_, _, hmajor, -⟩ := hparse
    obtain ⟨d, ds, hds, hd⟩ := exists_digit_of_number? hmajor
    rw [hds] at hchars
    exact ⟨d, ds, hds, hd, hchars⟩
  next =>
    obtain ⟨ds, tail, m, hcs, hne, hdigits, htail, -⟩ := of_shortTag? h
    obtain ⟨d, ds, rfl⟩ := List.exists_cons_of_ne_nil hne
    refine ⟨d, ds ++ tail, hcs, hdigits d List.mem_cons_self, ?_⟩
    intro c hc
    have hpoint : isDigit c = true ∨ c = '.' := by
      rw [← List.cons_append, List.mem_append] at hc
      rcases hc with hc | hc
      · exact .inl (hdigits c hc)
      · apply htail.isDigit_or_point hc
    rcases hpoint with hdigit | rfl
    · apply isVersionChar_of_isDigit hdigit
    · exact .inr (.inl rfl)

/-- A run of digits is read as its value, or not at all if it has leading zeros or is too long. -/
theorem number?_digits {ds : List Char} (hds : ∀ d ∈ ds, isDigit d = true)
    (hrest : ∀ c ∈ rest.head?, isDigit c = false) :
  number? (ds ++ rest) = none ∨ number? (ds ++ rest) = some (digitsValue ds, rest)
  := by
  rw [number?, Text.span_append hds hrest]
  simp only
  split
  · exact .inl rfl
  · exact .inl rfl
  · split
    · exact .inr rfl
    · exact .inl rfl

/-- Where a number can be read, a part after a point is read. -/
theorem part?_of_number? (h : number? cs = some (n, rest)) :
  part? ('.' :: cs) = some (.number n, rest)
  := by
  obtain ⟨d, ds, rfl, hd⟩ := exists_digit_of_number? h
  rw [part?, isWild_eq_false_of_isDigit hd, if_neg Bool.false_ne_true, h]
  rfl

theorem operator_of_isDigit {d : Char} (hd : isDigit d = true) (cs : List Char) :
  operator (d :: cs) = (none, d :: cs)
  := operator_render .wildcard hd cs

theorem skipSpaces_cons {d : Char} (hd : isDigit d = true) (ds : List Char) :
  skipSpaces (d :: ds) = d :: ds
  := by
  apply skipSpaces_of_head?_ne
  simpa using ne_of_isDigit hd (by decide)

/-! ### Tags read as ranges -/

/-- What is read from a text that begins with a digit are its comparators. -/
theorem Range.parseChars?_cons {d : Char} (hd : isDigit d = true) (ds : List Char) :
  Range.parseChars? (d :: ds) = (comparators? comparatorLimit (d :: ds)).map Range.mk
  := by
  rw [Range.parseChars?, skipSpaces_cons hd]
  simp [isWild_eq_false_of_isDigit hd]

/-- A text that is one comparator is a range of one. -/
theorem Range.parseChars?_of_comparator? {d : Char} {ds : List Char} (hd : isDigit d = true)
    {c : Comparator} (h : comparator? (d :: ds) = some (c, [])) :
  Range.parseChars? (d :: ds) = some ⟨[c]⟩
  := by
  have hone (n : Nat) : comparators? (n + 1) (d :: ds) = some [c] := by
    simp only [comparators?, h, Option.bind_eq_bind, Option.bind_some]
  rw [Range.parseChars?_cons hd, comparatorLimit, hone, Option.map_some]

/-- A text whose comparator cannot be read is no range. -/
theorem Range.parseChars?_of_comparator?_eq_none {d : Char} {ds : List Char}
    (hd : isDigit d = true) (h : comparator? (d :: ds) = none) :
  Range.parseChars? (d :: ds) = none
  := by
  have hnone (n : Nat) : comparators? (n + 1) (d :: ds) = none := by
    simp only [comparators?, h, Option.bind_eq_bind, Option.bind_none]
  rw [Range.parseChars?_cons hd, comparatorLimit, hnone, Option.map_none]

/-- The text of a version is read as the range of the versions compatible with it. -/
theorem Range.parseChars?_of_parseChars? (h : SemVer.parseChars? cs = some v) :
  Range.parseChars? cs = some (.caret v)
  := by
  simp only [SemVer.parseChars?, Option.bind_eq_bind, Option.bind_eq_some_iff, Prod.exists] at h
  obtain ⟨major, afterMajor, hmajor, afterDot, hdot, minor, afterMinor, hminor, afterDot', hdot',
    patch, afterPatch, hpatch, pre, afterPre, hpre, build, rest, hbuild, h⟩ := h
  obtain ⟨rfl, h⟩ := Option.ite_none_right_eq_some.1 h
  cases h
  have hminorPart := part?_of_number? hminor
  have hpatchPart := part?_of_number? hpatch
  rw [← eq_of_point? hdot] at hminorPart
  rw [← eq_of_point? hdot'] at hpatchPart
  obtain ⟨d, ds, rfl, hd⟩ := exists_digit_of_number? hmajor
  rw [← skipSpaces_cons hd] at hmajor
  apply Range.parseChars?_of_comparator? hd
  apply comparator?_of_numbers (operator_of_isDigit hd ds) hmajor hminorPart hpatchPart hpre hbuild

/-- A version is in a range of one comparator that has its major number, its minor number or none,
and nothing else. -/
theorem Range.contains_short (major minor : Nat) {minor? : Option Nat}
    (hminor : ∀ n ∈ minor?, n = minor) :
  Range.contains ⟨[{ op := .caret, major, minor := minor?, patch := none }]⟩
    { major, minor, patch := 0 } = true
  := by
  cases minor? with
  | none => simp [Range.contains, Comparator.holds, Comparator.caretHolds]
  | some n =>
    obtain rfl := hminor n rfl
    simp [Range.contains, Comparator.holds, Comparator.caretHolds]

/-- The second number of a short tag is read as a part, or the text is not read. -/
theorem part?_of_isShortMinor {tail : List Char} {m : Nat} (h : IsShortMinor tail m) :
  part? tail = none ∨
    ∃ part, part? tail = some (part, []) ∧ part ≠ .wild ∧ ∀ n ∈ part.number?, n = m
  := by
  rcases h with ⟨rfl, rfl⟩ | ⟨ds, rfl, hne, hdigits, rfl⟩
  · right
    use .absent
    simp [part?, Part.number?]
  · have hnumber : number? ds = none ∨ number? ds = some (digitsValue ds, []) := by
      simpa using number?_digits hdigits (show ∀ c ∈ [].head?, isDigit c = false by simp)
    rcases hnumber with hnumber | hnumber
    · obtain ⟨d, ds, rfl⟩ := List.exists_cons_of_ne_nil hne
      left
      rw [part?, isWild_eq_false_of_isDigit (hdigits d List.mem_cons_self),
        if_neg Bool.false_ne_true, hnumber]
      rfl
    · right
      use .number (digitsValue ds), part?_of_number? hnumber
      simp [Part.number?]

/-- A short tag is read as a comparator of the numbers that it has, or not at all. -/
theorem comparator?_of_isShortMinor {ds tail : List Char} {m : Nat} (hne : ds ≠ [])
    (hdigits : ∀ d ∈ ds, isDigit d = true) (htail : IsShortMinor tail m) :
  comparator? (ds ++ tail) = none ∨
    ∃ minor?, (∀ n ∈ minor?, n = m) ∧ comparator? (ds ++ tail)
      = some ({ op := .caret, major := digitsValue ds, minor := minor?, patch := none }, [])
  := by
  obtain ⟨d, ds, rfl⟩ := List.exists_cons_of_ne_nil hne
  have hd := hdigits d List.mem_cons_self
  have hstop : ∀ c ∈ tail.head?, isDigit c = false := by
    rcases htail with ⟨rfl, -⟩ | ⟨ds', rfl, -⟩
    · simp
    · simp [isDigit]
  have hnumber := number?_digits hdigits hstop
  rw [List.cons_append] at hnumber ⊢
  rcases hnumber with hmajor | hmajor
  · left
    simp [comparator?, operator_of_isDigit hd, skipSpaces_cons hd, hmajor]
  · rcases part?_of_isShortMinor htail with hminor | ⟨part, hminor, hwild, hpart⟩
    · left
      simp [comparator?, operator_of_isDigit hd, skipSpaces_cons hd, hmajor, hminor]
    · right
      use part.number?, hpart
      rw [← skipSpaces_cons hd] at hmajor
      have hread := comparator?_of_parts (operator_of_isDigit hd (ds ++ tail)) hmajor hminor
        (part?_absent (by simp)) rfl (by simp [EndsComparator])
      simpa [hwild, skipSpaces_cons hd] using hread

/-- Where a short tag is read as a range, the version that it names is in the range. -/
theorem Range.contains_of_shortTag? (h : shortTag? cs = some v) {range : Range}
    (hrange : Range.parseChars? cs = some range) :
  range.contains v = true
  := by
  obtain ⟨ds, tail, m, rfl, hne, hdigits, htail, rfl⟩ := of_shortTag? h
  have hread := comparator?_of_isShortMinor hne hdigits htail
  obtain ⟨d, ds, rfl⟩ := List.exists_cons_of_ne_nil hne
  have hd := hdigits d List.mem_cons_self
  rw [List.cons_append] at hread hrange
  rcases hread with hnone | ⟨minor?, hminor, hone⟩
  · rw [Range.parseChars?_of_comparator?_eq_none hd hnone] at hrange
    cases hrange
  · rw [Range.parseChars?_of_comparator? hd hone] at hrange
    cases hrange
    apply Range.contains_short _ _ hminor

theorem dropV_cons {d : Char} (hd : isDigit d = true) (ds : List Char) :
  dropV (d :: ds) = d :: ds
  := by
  unfold dropV
  split
  next h => exact absurd (List.cons.inj h).1 (ne_of_isDigit hd (by decide))
  next => rfl

theorem eq_or_eq_of_dropV {cs cs' : List Char} (h : dropV cs = cs') :
  cs = cs' ∨ cs = 'v' :: cs'
  := by
  unfold dropV at h
  split at h
  · exact .inr (by rw [h])
  · exact .inl h

end SemVer

namespace Constraint

open SemVer

/-! ### Constraints of tags -/

theorem isInner_of_isVersionChar {c : Char} (hc : IsVersionChar c) :
  IsInner c
  := by
  rcases hc with hc | rfl | rfl
  · apply isInner_of_isIdChar hc
  · exact ⟨by decide, by decide⟩
  · exact ⟨by decide, by decide⟩

/-- The `v` in front of a version is dropped, and nothing else. -/
theorem plainComparator_of_dropV {cs ds : List Char} {d : Char} (hdrop : dropV cs = d :: ds)
    (hd : isDigit d = true) (hcs : ∀ c ∈ cs, IsInner c) :
  plainComparator cs = d :: ds
  := by
  have hstop := isOperatorChar_eq_false_of_isDigit hd
  rw [plainComparator, trimChars_of_isInner hcs]
  rcases eq_or_eq_of_dropV hdrop with rfl | rfl
  · simp [hstop, dropVersionV_cons hd]
  · have hv : isOperatorChar 'v' = false := by decide
    simp [hv, dropVersionV, hd]

/-- A tag that names a version is prepared by dropping its `v`. -/
theorem prepared_of_ofTag? {tag : String} {v : SemVer} (h : ofTag? tag = some v) :
  Text.trimChars tag.toList = tag.toList ∧ tag.toList ≠ [] ∧
    plainComparators tag.toList = dropV tag.toList
  := by
  obtain ⟨d, ds, hdrop, hd, hchars⟩ := cons_of_ofTag? h
  have hinner : ∀ c ∈ tag.toList, IsInner c := by
    have hds : ∀ c ∈ d :: ds, IsInner c := fun c hc => isInner_of_isVersionChar (hchars c hc)
    rcases eq_or_eq_of_dropV hdrop with heq | heq
    · rwa [heq]
    · rw [heq]
      exact List.forall_mem_cons.2 ⟨⟨by decide, by decide⟩, hds⟩
  have hsplit : tag.toList.splitOn ',' = [tag.toList] :=
    List.splitOn_eq_singleton fun hcomma => (hinner ',' hcomma).2 rfl
  refine ⟨trimChars_of_isInner hinner, ?_, ?_⟩
  · intro hnil
    rw [hnil] at hdrop
    cases hdrop
  · rw [plainComparators, hsplit, hdrop, List.map_singleton, List.intercalate_singleton]
    apply plainComparator_of_dropV hdrop hd hinner

/-- A tag that names a version is read as a range that has the version in it. -/
theorem exists_impliedCaret?_of_ofTag? {tag : String} {v : SemVer} (h : ofTag? tag = some v) :
  ∃ range : Range, impliedCaret? tag = some (.semver range) ∧ range.contains v = true
  := by
  obtain ⟨htrim, hne, hplain⟩ := prepared_of_ofTag? h
  cases hrange : Range.parseChars? (dropV tag.toList) with
  | none =>
    -- the range reader refuses a leading zero, for which the versions compatible with `v` stand in
    refine ⟨.caret v, ?_, contains_caret v⟩
    simp only [impliedCaret?, htrim, if_neg hne, hplain, hrange, String.ofList_toList, h,
      Option.map_some, caret]
  | some range =>
    refine ⟨range, by simp only [impliedCaret?, htrim, if_neg hne, hplain, hrange], ?_⟩
    simp only [ofTag?] at h
    split at h
    next v hfull =>
      cases h
      rw [Range.parseChars?_of_parseChars? hfull] at hrange
      cases hrange
      apply contains_caret
    next =>
      apply Range.contains_of_shortTag? h hrange

/-- A version with a ref satisfies the constraint that the ref implies, and if the ref is a tag that
names a semantic version, also the constraint that is read from the tag. -/
theorem admits_of_implied :
  (∀ (v : Version) (ref : Ref), v.ref? = some ref → ∃ c, ofVersion? v = some c ∧ c.admits v) ∧
    ∀ (tag : String) (version : SemVer), Ref.ofTag tag = .semver tag version →
      ∀ v : Version, v.ref? = some (Ref.ofTag tag) →
        ∃ range : Range, impliedCaret? tag = some (.semver range) ∧
          (Constraint.semver range).admits v
  := by
  constructor
  · intro v ref href
    have himplied : ofVersion? v = some (ofRef ref) := by rw [ofVersion?, href, Option.map_some]
    exact ⟨ofRef ref, himplied, admits_of_ofVersion? himplied⟩
  · intro tag version htag v href
    have hversion : ofTag? tag = some version := by
      unfold Ref.ofTag at htag
      split at htag
      next h =>
        cases htag
        exact h
      next => cases htag
    obtain ⟨range, hread, hcontains⟩ := exists_impliedCaret?_of_ofTag? hversion
    refine ⟨range, hread, ?_⟩
    rw [htag] at href
    simp [admits, Version.semver?, href, hcontains]

namespace Sample

/-- A tag whose leading zero the range reader refuses. -/
def padded : Version := .paired (Ref.ofTag "v01.2") ⟨"5e"⟩

/-- A tag of a pre-release with build identifiers. -/
def candidate : Version := .named (Ref.ofTag "v0.0.3-rc.1+b.7")

end Sample

theorem admits_of_implied_sample :
  (∃ c, ofVersion? Sample.padded = some c ∧ c.admits Sample.padded) ∧
    (∃ range : Range, impliedCaret? "v01.2" = some (.semver range) ∧
      (Constraint.semver range).admits Sample.padded) ∧
    ∃ range : Range, impliedCaret? "v0.0.3-rc.1+b.7" = some (.semver range) ∧
      (Constraint.semver range).admits Sample.candidate
  := by
  have hpadded : Ref.ofTag "v01.2" = .semver "v01.2" { major := 1, minor := 2, patch := 0 } := by
    decide
  have hcandidate : Ref.ofTag "v0.0.3-rc.1+b.7"
      = .semver "v0.0.3-rc.1+b.7"
        { major := 0, minor := 0, patch := 3, pre := ["rc", "1"], build := ["b", "7"] } := by
    decide
  exact ⟨admits_of_implied.1 _ _ rfl, admits_of_implied.2 _ _ hpadded _ rfl,
    admits_of_implied.2 _ _ hcandidate _ rfl⟩

end Constraint
end DepLock
