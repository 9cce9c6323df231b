import DepLock.Proofs.Text.Split
import DepLock.SemVer.RangeParser

/-!
# Well-formed versions and ranges

`SemVer.Wellformed`, `Comparator.Wellformed` and `Range.Wellformed` say what every version and every
range satisfies that is read from a text: the numbers fit 64 bits, the pre-release identifiers can
be written, parts are only left out from the end, and a range is not too long. Each reader of
`DepLock.SemVer` gives well-formed results.
-/

namespace DepLock.SemVer

/-- The condition on a pre-release identifier. -/
def IsPreId (id : String) : Prop :=
  (∀ c ∈ id.toList, isIdChar c) ∧ isId true id.toList

/-- The numbers fit 64 bits and the pre-release identifiers can be written. -/
structure Wellformed (v : SemVer) : Prop where
  major : v.major < numberBound
  minor : v.minor < numberBound
  patch : v.patch < numberBound
  pre : ∀ id ∈ v.pre, IsPreId id

/-- The numbers fit 64 bits, the pre-release identifiers can be written, and a part is only present
when those before it are. A wildcard leaves out the patch. -/
structure Comparator.Wellformed (c : Comparator) : Prop where
  major : c.major < numberBound
  minor : ∀ n ∈ c.minor, n < numberBound
  patch : ∀ n ∈ c.patch, n < numberBound
  pre : ∀ id ∈ c.pre, IsPreId id
  minor_of_patch : c.patch.isSome → c.minor.isSome
  patch_of_pre : c.pre ≠ [] → c.patch.isSome
  patch_of_wildcard : c.op = .wildcard → c.patch = none

/-- A range of at most 32 well-formed comparators. -/
structure Range.Wellformed (r : Range) : Prop where
  comparators : ∀ c ∈ r.comparators, c.Wellformed
  length_le : r.comparators.length ≤ comparatorLimit

/-! ### Numbers and identifiers -/

theorem lt_of_number? {cs rest : List Char} {n : Nat} (h : number? cs = some (n, rest)) :
  n < numberBound
  := by
  unfold number? at h
  split at h
  split at h
  · cases h
  · cases h
  · simp only [Option.ite_none_right_eq_some, Option.some.injEq, Prod.mk.injEq] at h
    obtain ⟨hn, rfl, -⟩ := h
    exact hn

theorem lt_of_paddedNumber? {ds : List Char} {n : Nat} (h : paddedNumber? ds = some n) :
  n < numberBound
  := by
  simp only [paddedNumber?, Option.ite_none_right_eq_some, Option.some.injEq] at h
  obtain ⟨-, hn, rfl⟩ := h
  exact hn

theorem isPreId_of_ids? {cs rest : List Char} {ids : List String}
    (h : ids? true cs = some (ids, rest)) :
  ∀ id ∈ ids, IsPreId id
  := by
  simp only [ids?, List.span_eq_takeWhile_dropWhile, Option.ite_none_right_eq_some,
    Option.some.injEq, Prod.mk.injEq, List.all_eq_true] at h
  obtain ⟨hall, rfl, -⟩ := h
  intro id hid
  obtain ⟨part, hpart, rfl⟩ := List.mem_map.mp hid
  rw [IsPreId, String.toList_ofList]
  refine ⟨fun c hc => ?_, hall part hpart⟩
  obtain ⟨hrun, hne⟩ := Text.mem_of_mem_splitOn hpart hc
  have hid := List.all_eq_true.mp List.all_takeWhile c hrun
  simpa [hne] using hid

theorem isPreId_of_idsAfter? {mark : Char} {cs rest : List Char} {ids : List String}
    (h : idsAfter? mark true cs = some (ids, rest)) :
  ∀ id ∈ ids, IsPreId id
  := by
  unfold idsAfter? at h
  split at h
  · cases h
    exact List.forall_mem_nil _
  · split at h
    · exact isPreId_of_ids? h
    · cases h
      exact List.forall_mem_nil _

/-! ### Versions -/

theorem wellformed_of_parseChars? {cs : List Char} {v : SemVer} (h : parseChars? cs = some v) :
  v.Wellformed
  := by
  simp only [parseChars?, Option.bind_eq_bind, Option.bind_eq_some_iff, Prod.exists] at h
  obtain ⟨major, _, hmajor, _, -, minor, _, hminor, _, -, patch, _, hpatch, pre, _, hpre, build, _,
    -, h⟩ := h
  split at h
  · cases h
    exact ⟨lt_of_number? hmajor, lt_of_number? hminor, lt_of_number? hpatch,
      isPreId_of_idsAfter? hpre⟩
  · cases h

theorem wellformed_of_shortTag? {cs : List Char} {v : SemVer} (h : shortTag? cs = some v) :
  v.Wellformed
  := by
  have hzero : 0 < numberBound := by decide
  unfold shortTag? at h
  split at h
  · simp only [Option.bind_eq_bind, Option.bind_eq_some_iff] at h
    obtain ⟨major, hmajor, h⟩ := h
    cases h
    exact ⟨lt_of_paddedNumber? hmajor, hzero, hzero, List.forall_mem_nil _⟩
  · simp only [Option.bind_eq_bind, Option.bind_eq_some_iff] at h
    obtain ⟨major, hmajor, minor, hminor, h⟩ := h
    cases h
    exact ⟨lt_of_paddedNumber? hmajor, lt_of_paddedNumber? hminor, hzero, List.forall_mem_nil _⟩
  · cases h

/-- The version that a tag names is well-formed. -/
theorem wellformed_of_ofTag? {tag : String} {v : SemVer} (h : ofTag? tag = some v) :
  v.Wellformed
  := by
  unfold ofTag? at h
  simp only at h
  split at h
  case h_1 hparse =>
    cases h
    exact wellformed_of_parseChars? hparse
  case h_2 => exact wellformed_of_shortTag? h

/-! ### Ranges -/

/-- The versions compatible with a well-formed version are a well-formed range. -/
theorem Wellformed.caret {v : SemVer} (h : v.Wellformed) :
  (Range.caret v).Wellformed
  := by
  refine ⟨?_, Nat.le_add_left 1 31⟩
  intro c hc
  rw [Range.caret, List.mem_singleton] at hc
  subst hc
  refine ⟨h.major, ?_, ?_, h.pre, fun _ => rfl, fun _ => rfl, nofun⟩
  · rintro n ⟨⟩
    exact h.minor
  · rintro n ⟨⟩
    exact h.patch

theorem lt_of_part? {cs rest : List Char} {part : Part} (h : part? cs = some (part, rest)) :
  ∀ n ∈ part.number?, n < numberBound
  := by
  unfold part? at h
  split at h
  · split at h
    · cases h
      rintro _ ⟨⟩
    · simp only [Option.map_eq_some_iff, Prod.exists, Prod.mk.injEq] at h
      obtain ⟨n, _, hn, rfl, -⟩ := h
      rintro _ ⟨⟩
      exact lt_of_number? hn
  · cases h
  · cases h
    rintro _ ⟨⟩

/-- Where no part is read, none can be read next. -/
theorem part?_of_absent {cs rest : List Char} (h : part? cs = some (.absent, rest)) :
  part? rest = some (.absent, rest)
  := by
  have h' := h
  unfold part? at h
  split at h
  · split at h
    · cases h
    · simp only [Option.map_eq_some_iff, Prod.exists, Prod.mk.injEq] at h
      obtain ⟨n, _, -, hpart, -⟩ := h
      cases hpart
  · cases h
  · cases h
    exact h'

/-- What a comparator consists of that is read. -/
theorem parts_of_comparator? {cs rest : List Char} {c : Comparator}
    (h : comparator? cs = some (c, rest)) :
  ∃ afterMajor afterMinor afterPatch minor patch,
    number? (skipSpaces (operator cs).2) = some (c.major, afterMajor)
      ∧ part? afterMajor = some (minor, afterMinor) ∧ c.minor = minor.number?
      ∧ part? afterMinor = some (patch, afterPatch) ∧ c.patch = patch.number?
      ∧ (minor = .wild → c.patch = none)
      ∧ (∀ id ∈ c.pre, IsPreId id) ∧ (c.pre ≠ [] → c.patch.isSome)
      ∧ c.op = (operator cs).1.getD
        (if minor = .wild || patch = .wild then Operator.wildcard else .caret)
  := by
  simp only [comparator?, Option.bind_eq_bind, Option.bind_eq_some_iff, Prod.exists] at h
  obtain ⟨major, afterMajor, hmajor, minor, afterMinor, hminor, patch, afterPatch, hpatch, h⟩ := h
  use afterMajor, afterMinor, afterPatch, minor, patch
  cases hp : patch.number? with
  | none =>
    simp only [hp, Option.isSome_none, Bool.and_false, Bool.false_eq_true, if_false,
      Option.bind_some, Option.some.injEq, Prod.mk.injEq] at h
    obtain ⟨rfl, -⟩ := h
    exact ⟨hmajor, hminor, rfl, hpatch, rfl, fun _ => rfl, List.forall_mem_nil _,
      fun hne => absurd rfl hne, rfl⟩
  | some n =>
    simp only [hp, Option.isSome_some, Bool.and_true, decide_eq_true_eq, if_true] at h
    split at h
    case isTrue => cases h
    case isFalse hwild =>
      simp only [Option.bind_eq_some_iff, Option.some.injEq, Prod.exists, Prod.mk.injEq] at h
      obtain ⟨pre, _, hpre, _, _, -, rfl, -⟩ := h
      exact ⟨hmajor, hminor, rfl, hpatch, rfl, fun h => absurd h hwild,
        isPreId_of_idsAfter? hpre, fun _ => rfl, rfl⟩

/-- No operator in front of a version makes a wildcard. -/
theorem operator_ne_wildcard (cs : List Char) :
  (operator cs).1 ≠ some .wildcard
  := by
  unfold operator
  split <;> simp

theorem wellformed_of_comparator? {cs rest : List Char} {c : Comparator}
    (h : comparator? cs = some (c, rest)) :
  c.Wellformed
  := by
  obtain ⟨afterMajor, afterMinor, afterPatch, minor, patch, hmajor, hminor, hcminor, hpatch,
    hcpatch, hwild, hpre, hpatchOfPre, hop⟩ := parts_of_comparator? h
  refine ⟨lt_of_number? hmajor, ?_, ?_, hpre, ?_, hpatchOfPre, ?_⟩
  · rw [hcminor]
    exact lt_of_part? hminor
  · rw [hcpatch]
    exact lt_of_part? hpatch
  · intro hsome
    cases minor with
    | absent =>
      rw [part?_of_absent hminor] at hpatch
      cases hpatch
      simp [hcpatch, Part.number?] at hsome
    | wild => simp [hwild rfl] at hsome
    | number n => simp [hcminor, Part.number?]
  · intro hcop
    rw [hcop] at hop
    cases ho : (operator cs).1 with
    | some op =>
      rw [ho, Option.getD_some] at hop
      exact absurd (ho.trans (congrArg some hop.symm)) (operator_ne_wildcard cs)
    | none =>
      rw [ho, Option.getD_none] at hop
      split at hop
      · next hor =>
        simp only [Bool.or_eq_true, decide_eq_true_eq] at hor
        rcases hor with hminorWild | hpatchWild
        · exact hwild hminorWild
        · rw [hcpatch, hpatchWild, Part.number?]
          exact nofun
      · cases hop

theorem wellformed_of_comparators? {n : Nat} {cs : List Char} {l : List Comparator}
    (h : comparators? n cs = some l) :
  (∀ c ∈ l, c.Wellformed) ∧ l.length ≤ n
  := by
  induction n generalizing cs l with
  | zero => cases h
  | succ n ih =>
    simp only [comparators?, Option.bind_eq_bind, Option.bind_eq_some_iff, Prod.exists] at h
    obtain ⟨c, rest, hc, h⟩ := h
    have hwf := wellformed_of_comparator? hc
    split at h
    · cases h
      exact ⟨List.forall_mem_singleton.mpr hwf, by simp⟩
    · obtain ⟨others, hothers, rfl⟩ := Option.map_eq_some_iff.mp h
      obtain ⟨hall, hlength⟩ := ih hothers
      exact ⟨List.forall_mem_cons.mpr ⟨hwf, hall⟩, Nat.succ_le_succ hlength⟩
    · cases h

/-- A range that is read from a text is well-formed. -/
theorem Range.wellformed_of_parseChars? {cs : List Char} {r : Range}
    (h : Range.parseChars? cs = some r) :
  r.Wellformed
  := by
  unfold Range.parseChars? at h
  split at h
  · cases h
  · split at h
    · split at h
      · cases h
        exact ⟨List.forall_mem_nil _, Nat.zero_le _⟩
      · cases h
    · obtain ⟨l, hl, rfl⟩ := Option.map_eq_some_iff.mp h
      obtain ⟨hall, hlength⟩ := wellformed_of_comparators? hl
      exact ⟨hall, hlength⟩

end DepLock.SemVer
