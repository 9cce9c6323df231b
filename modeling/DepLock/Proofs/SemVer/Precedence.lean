import DepLock.Proofs.SemVer.Order
import DepLock.Proofs.SemVer.Wellformed
import Mathlib.Data.String.Basic

/-!
# The precedence of semantic versions

`SemVer.Older` says when a version comes before another: by its numbers, then a pre-release before
its release, pre-releases identifier by identifier, and last by the build identifiers, where numeric
identifiers count with their value. `SemVer.compare` never takes the value of an identifier but
compares lengths and texts; of well-formed versions it finds exactly which one is older
(`compare_eq_lt_iff`), and it answers `eq` for equal versions only.
-/

namespace DepLock.SemVer

open Std

/-- The number that the digits of an identifier stand for. -/
def idValue (id : String) : Nat := digitsValue id.toList

/-- Whether an identifier comes before another: numeric ones come before others, and are ordered by
their values and, where these are equal, by the number of digits. Others are ordered as texts. -/
inductive IdBefore (a b : String) : Prop
  | kind (ha : isNumeric a = true) (hb : isNumeric b = false)
  | text (ha : isNumeric a = false) (hb : isNumeric b = false) (h : a < b)
  | value (ha : isNumeric a = true) (hb : isNumeric b = true) (h : idValue a < idValue b)
  | zeros (ha : isNumeric a = true) (hb : isNumeric b = true) (hvalue : idValue a = idValue b)
      (h : a.length < b.length)

/-- The three numbers of a version. -/
def numbers (v : SemVer) : List Nat := [v.major, v.minor, v.patch]

/-- Whether a version is older than another: its numbers are smaller, or these are equal and it is a
pre-release of a release or an earlier pre-release, or only the build identifiers differ and its own
come first. A list of identifiers comes before its continuations. -/
inductive Older (a b : SemVer) : Prop
  | numbers (h : a.numbers < b.numbers)
  | release (hnumbers : a.numbers = b.numbers) (ha : a.pre ≠ []) (hb : b.pre = [])
  | pre (hnumbers : a.numbers = b.numbers) (ha : a.pre ≠ []) (h : List.Lex IdBefore a.pre b.pre)
  | build (hnumbers : a.numbers = b.numbers) (hpre : a.pre = b.pre)
      (h : List.Lex IdBefore a.build b.build)

/-! ### Values of digits -/

variable {d d' : Char} {ds ds' : List Char}

/-- The number that a digit stands for. -/
def digitValue (d : Char) : Nat := d.toNat - '0'.toNat

theorem digitValue_le (hd : isDigit d = true) :
  digitValue d ≤ 9
  := by
  simp only [isDigit, Bool.and_eq_true, decide_eq_true_eq] at hd
  apply Nat.sub_le_sub_right hd.2

theorem digitValue_lt (hd : isDigit d = true) (h : d < d') :
  digitValue d < digitValue d'
  := by
  simp only [isDigit, Bool.and_eq_true, decide_eq_true_eq] at hd
  apply Nat.sub_lt_sub_right hd.1 h

theorem digitValue_pos (hd : isDigit d = true) (hzero : d ≠ '0') :
  0 < digitValue d
  := by
  simp only [isDigit, Bool.and_eq_true, decide_eq_true_eq] at hd
  apply digitValue_lt rfl (Std.lt_of_le_of_ne hd.1 hzero.symm)

theorem digitsValue_cons (d : Char) (ds : List Char) :
  digitsValue (d :: ds) = 10 ^ ds.length * digitValue d + digitsValue ds
  := by
  rw [digitsValue, Nat.ofDigitChars_cons, Nat.ofDigitChars_eq_ofDigitChars_zero, Nat.mul_zero,
    Nat.zero_add]
  rfl

theorem digitsValue_lt (hds : ∀ d ∈ ds, isDigit d = true) :
  digitsValue ds < 10 ^ ds.length
  := by
  induction ds with
  | nil => apply Nat.one_pos
  | cons d ds ih =>
    obtain ⟨hd, hds⟩ := List.forall_mem_cons.1 hds
    calc digitsValue (d :: ds)
      _ = 10 ^ ds.length * digitValue d + digitsValue ds := digitsValue_cons d ds
      _ < 10 ^ ds.length * 9 + 10 ^ ds.length :=
        Nat.add_lt_add_of_le_of_lt (Nat.mul_le_mul_left _ (digitValue_le hd)) (ih hds)
      _ = 10 ^ (d :: ds).length := by rw [List.length_cons, Nat.pow_succ]; omega

/-- Digits behind one that is not zero stand for at least a power of ten. -/
theorem pow_le_digitsValue (hd : isDigit d = true) (hzero : d ≠ '0') :
  10 ^ ds.length ≤ digitsValue (d :: ds)
  := by
  rw [digitsValue_cons]
  apply (Nat.le_mul_of_pos_right _ (digitValue_pos hd hzero)).trans (Nat.le_add_right _ _)

/-- A run of digits without a leading zero stands for more than any shorter one. -/
theorem digitsValue_lt_of_length_lt (hds : ∀ d ∈ ds, isDigit d = true)
    (hds' : ∀ d ∈ ds', isDigit d = true) (hzero : ds'.head? ≠ some '0')
    (hlength : ds.length < ds'.length) :
  digitsValue ds < digitsValue ds'
  := by
  cases ds' with
  | nil => cases hlength
  | cons d' ds' =>
    have hne : d' ≠ '0' := by
      rintro rfl
      apply hzero rfl
    calc digitsValue ds
      _ < 10 ^ ds.length := digitsValue_lt hds
      _ ≤ 10 ^ ds'.length := Nat.pow_le_pow_right (by decide) (Nat.le_of_lt_succ hlength)
      _ ≤ digitsValue (d' :: ds') := pow_le_digitsValue (hds' d' List.mem_cons_self) hne

/-- Runs of digits of one length are ordered like texts. -/
theorem digitsValue_lt_of_lt (hds : ∀ d ∈ ds, isDigit d = true)
    (hds' : ∀ d ∈ ds', isDigit d = true) (hlength : ds.length = ds'.length) (h : ds < ds') :
  digitsValue ds < digitsValue ds'
  := by
  induction ds generalizing ds' with
  | nil =>
    rw [List.eq_nil_of_length_eq_zero hlength.symm] at h
    apply absurd h (List.not_lt_nil _)
  | cons d ds ih =>
    cases ds' with
    | nil => cases hlength
    | cons d' ds' =>
      obtain ⟨hd, htail⟩ := List.forall_mem_cons.1 hds
      obtain ⟨-, htail'⟩ := List.forall_mem_cons.1 hds'
      have htails : ds.length = ds'.length := Nat.succ.inj hlength
      rw [digitsValue_cons, digitsValue_cons, htails]
      rcases List.cons_lt_cons_iff.1 h with hlt | ⟨rfl, hlt⟩
      · -- the greater first digit outweighs all that follow
        calc 10 ^ ds'.length * digitValue d + digitsValue ds
          _ < 10 ^ ds'.length * digitValue d + 10 ^ ds'.length :=
            Nat.add_lt_add_left (htails ▸ digitsValue_lt htail) _
          _ = 10 ^ ds'.length * (digitValue d + 1) := (Nat.mul_succ _ _).symm
          _ ≤ 10 ^ ds'.length * digitValue d' := Nat.mul_le_mul_left _ (digitValue_lt hd hlt)
          _ ≤ 10 ^ ds'.length * digitValue d' + digitsValue ds' := Nat.le_add_right _ _
      · apply Nat.add_lt_add_left (ih htail htail' htails hlt)

theorem isDigit_of_isNumeric {id : String} (h : isNumeric id = true) :
  ∀ d ∈ id.toList, isDigit d = true
  := List.all_eq_true.1 h

/-- A shorter identifier has a smaller value if the other has no leading zero, and of two of one
length the one that comes first as a text has. -/
theorem idValue_lt {a b : String} (ha : isNumeric a = true) (hb : isNumeric b = true)
    (hzero : a.length < b.length → b.toList.head? ≠ some '0')
    (h : a.length < b.length ∨ a.length = b.length ∧ a < b) :
  idValue a < idValue b
  := by
  have hdigitsA := isDigit_of_isNumeric ha
  have hdigitsB := isDigit_of_isNumeric hb
  simp only [← String.length_toList] at hzero h
  rcases h with hlength | ⟨hlength, hlt⟩
  · apply digitsValue_lt_of_length_lt hdigitsA hdigitsB (hzero hlength) hlength
  · apply digitsValue_lt_of_lt hdigitsA hdigitsB hlength (String.lt_iff_toList_lt.1 hlt)

/-- Numeric identifiers are ordered by their values if they are ordered by length and then as texts,
as long as the longer one has no leading zero. -/
theorem compare_idValue {a b : String} (ha : isNumeric a = true) (hb : isNumeric b = true)
    (hzeroA : b.length < a.length → a.toList.head? ≠ some '0')
    (hzeroB : a.length < b.length → b.toList.head? ≠ some '0') :
  (Ord.compare a.length b.length).then (Ord.compare a b) = Ord.compare (idValue a) (idValue b)
  := by
  symm
  cases hcompare : (Ord.compare a.length b.length).then (Ord.compare a b) with
  | lt =>
    rw [Ordering.then_eq_lt, Nat.compare_eq_lt, Nat.compare_eq_eq] at hcompare
    apply Nat.compare_eq_lt.2
    apply idValue_lt ha hb hzeroB (hcompare.imp_right (And.imp_right LawfulLTCmp.eq_lt_iff_lt.1))
  | eq =>
    obtain rfl := LawfulEqCmp.eq_of_compare (Ordering.then_eq_eq.1 hcompare).2
    apply compare_self
  | gt =>
    rw [Ordering.then_eq_gt, Nat.compare_eq_gt, Nat.compare_eq_eq, eq_comm] at hcompare
    apply Nat.compare_eq_gt.2
    apply idValue_lt hb ha hzeroA (hcompare.imp_right (And.imp_right LawfulLTCmp.eq_gt_iff_gt.1))

/-! ### Leading zeros -/

/-- An identifier is its leading zeros with its significant digits behind them. -/
theorem exists_zeros (id : String) :
  ∃ n, id.toList = List.replicate n '0' ++ (significantDigits id).toList
  := by
  have hall : ∀ d ∈ id.toList.takeWhile (· = '0'), d = '0' := by
    intro d hd
    simpa using List.mem_takeWhile_imp hd
  use (id.toList.takeWhile (· = '0')).length
  rw [← List.eq_replicate_of_mem hall, significantDigits, Text.trimStartChar, String.toList_ofList,
    List.takeWhile_append_dropWhile]

theorem idValue_significantDigits (id : String) :
  idValue (significantDigits id) = idValue id
  := by
  obtain ⟨n, hid⟩ := exists_zeros id
  rw [idValue, idValue, hid, digitsValue, digitsValue, Nat.ofDigitChars_append,
    Nat.ofDigitChars_replicate_zero, Nat.mul_zero]

theorem isNumeric_significantDigits {id : String} (h : isNumeric id = true) :
  isNumeric (significantDigits id) = true
  := by
  obtain ⟨n, hid⟩ := exists_zeros id
  rw [isNumeric, hid, List.all_append, Bool.and_eq_true] at h
  apply h.2

theorem head?_significantDigits (id : String) :
  (significantDigits id).toList.head? ≠ some '0'
  := by
  have hhead := List.head?_dropWhile_not (· = '0') id.toList
  rw [significantDigits, Text.trimStartChar, String.toList_ofList]
  intro hzero
  rw [hzero] at hhead
  exact absurd hhead (by decide)

/-- An identifier is determined by its significant digits and its length. -/
theorem eq_of_significantDigits {a b : String} (hdigits : significantDigits a = significantDigits b)
    (hlength : a.length = b.length) :
  a = b
  := by
  obtain ⟨n, ha⟩ := exists_zeros a
  obtain ⟨m, hb⟩ := exists_zeros b
  rw [← String.length_toList, ← String.length_toList, ha, hb, hdigits, List.length_append,
    List.length_append, List.length_replicate, List.length_replicate, Nat.add_right_cancel_iff]
    at hlength
  rw [← String.toList_inj, ha, hb, hdigits, hlength]

/-- A numeric pre-release identifier of several digits has no leading zero. -/
theorem IsPreId.head?_ne_zero {id : String} (h : IsPreId id) (hnumeric : isNumeric id = true)
    (hlength : 1 < id.length) :
  id.toList.head? ≠ some '0'
  := by
  intro hzero
  have hid := h.2
  rw [← String.length_toList] at hlength
  simp only [isId, Bool.and_eq_true] at hid
  rw [isNumeric] at hnumeric
  simp [hnumeric, hlength, hzero] at hid

theorem IsPreId.length_pos {id : String} (h : IsPreId id) :
  0 < id.length
  := by
  have hid := h.2
  simp only [isId, Bool.and_eq_true, decide_eq_true_eq] at hid
  rw [← String.length_toList]
  exact List.length_pos_iff.2 hid.1

/-! ### Identifiers -/

/-- The comparison of two identifiers, where `numeric` is that of numeric ones. -/
def byKind (numeric : Ordering) (a b : String) : Ordering :=
  match isNumeric a, isNumeric b with
  | false, true => .gt
  | true, false => .lt
  | false, false => Ord.compare a b
  | true, true => numeric

/-- Identifiers are compared rightly if numeric ones are. -/
theorem byKind_eq_lt_iff {numeric : Ordering} {a b : String}
    (h : isNumeric a = true → isNumeric b = true →
      (numeric = .lt ↔ idValue a < idValue b ∨ idValue a = idValue b ∧ a.length < b.length)) :
  byKind numeric a b = .lt ↔ IdBefore a b
  := by
  have htext : Ord.compare a b = .lt ↔ a < b := LawfulLTCmp.eq_lt_iff_lt
  constructor
  · intro hlt
    unfold byKind at hlt
    split at hlt
    next => cases hlt
    next ha hb => apply IdBefore.kind ha hb
    next ha hb => apply IdBefore.text ha hb (htext.1 hlt)
    next ha hb =>
      rcases (h ha hb).1 hlt with hvalue | ⟨hvalue, hlength⟩
      · apply IdBefore.value ha hb hvalue
      · apply IdBefore.zeros ha hb hvalue hlength
  · rintro (⟨ha, hb⟩ | ⟨ha, hb, hlt⟩ | ⟨ha, hb, hvalue⟩ | ⟨ha, hb, hvalue, hlength⟩)
    · simp only [byKind, ha, hb]
    · simpa only [byKind, ha, hb] using htext.2 hlt
    · simpa only [byKind, ha, hb] using (h ha hb).2 (.inl hvalue)
    · simpa only [byKind, ha, hb] using (h ha hb).2 (.inr ⟨hvalue, hlength⟩)

/-- Pre-release identifiers are compared by value although only lengths and texts are looked at,
since they have no leading zeros. -/
theorem comparePreId_eq_lt_iff {a b : String} (ha : IsPreId a) (hb : IsPreId b) :
  comparePreId a b = .lt ↔ IdBefore a b
  := by
  change byKind ((Ord.compare a.length b.length).then (Ord.compare a b)) a b = .lt ↔ _
  apply byKind_eq_lt_iff
  intro hnumericA hnumericB
  have hposA := ha.length_pos
  have hposB := hb.length_pos
  have hvalue := compare_idValue hnumericA hnumericB
    (fun hlt => ha.head?_ne_zero hnumericA (by omega))
    (fun hlt => hb.head?_ne_zero hnumericB (by omega))
  rw [hvalue, Nat.compare_eq_lt]
  refine ⟨.inl, ?_⟩
  rintro (hlt | ⟨heq, hlt⟩)
  · apply hlt
  · -- identifiers of one value are of one length
    rw [Nat.compare_eq_eq.2 heq, Ordering.then_eq_eq, Nat.compare_eq_eq] at hvalue
    apply absurd hvalue.1 hlt.ne

/-- Build identifiers are compared by value, and by length where the values are equal. -/
theorem compareBuildId_eq_lt_iff {a b : String} :
  compareBuildId a b = .lt ↔ IdBefore a b
  := by
  change byKind ((Ord.compare (significantDigits a).length (significantDigits b).length).then <|
    (Ord.compare (significantDigits a) (significantDigits b)).then <|
      Ord.compare a.length b.length) a b = .lt ↔ _
  apply byKind_eq_lt_iff
  intro hnumericA hnumericB
  have hvalue := compare_idValue (isNumeric_significantDigits hnumericA)
    (isNumeric_significantDigits hnumericB) (fun _ => head?_significantDigits a)
    (fun _ => head?_significantDigits b)
  rw [idValue_significantDigits, idValue_significantDigits] at hvalue
  rw [← Ordering.then_assoc, hvalue, Ordering.then_eq_lt, Nat.compare_eq_lt, Nat.compare_eq_eq,
    Nat.compare_eq_lt]

instance : LawfulEqCmp comparePreId where
  eq_of_compare {a b} h := by
    rw [comparePreId_eq, compareLex_eq_eq, compareLex_eq_eq] at h
    exact LawfulEqCmp.eq_of_compare h.2.2

instance : LawfulEqCmp compareBuildId where
  eq_of_compare {a b} h := by
    rw [compareBuildId] at h
    split at h
    · cases h
    · cases h
    · exact LawfulEqCmp.eq_of_compare h
    · rw [Ordering.then_eq_eq, Ordering.then_eq_eq] at h
      obtain ⟨-, hdigits, hlength⟩ := h
      apply eq_of_significantDigits (LawfulEqCmp.eq_of_compare hdigits)
      apply Nat.compare_eq_eq.1 hlength

/-! ### Lists of identifiers and versions -/

/-- Lists are compared by their first difference, and one comes before its continuations. -/
theorem compareLex_eq_lt_iff {α : Type} {cmp : α → α → Ordering} [LawfulEqCmp cmp]
    {R : α → α → Prop} {l l' : List α} (h : ∀ a ∈ l, ∀ b ∈ l', cmp a b = .lt ↔ R a b) :
  List.compareLex cmp l l' = .lt ↔ List.Lex R l l'
  := by
  induction l generalizing l' with
  | nil =>
    cases l' with
    | nil => simp [List.compareLex_nil_nil]
    | cons b l' => simp [List.compareLex_nil_cons]
  | cons a l ih =>
    cases l' with
    | nil => simp [List.compareLex_cons_nil]
    | cons b l' =>
      have htail := ih fun a ha b hb =>
        h a (List.mem_cons_of_mem _ ha) b (List.mem_cons_of_mem _ hb)
      rw [List.compareLex_cons_cons, Ordering.then_eq_lt, List.cons_lex_cons_iff,
        LawfulEqCmp.compare_eq_iff_eq, h a List.mem_cons_self b List.mem_cons_self, htail]

theorem comparePre_eq_lt_iff {a b : List String} (ha : ∀ id ∈ a, IsPreId id)
    (hb : ∀ id ∈ b, IsPreId id) :
  comparePre a b = .lt ↔ a ≠ [] ∧ (b = [] ∨ List.Lex IdBefore a b)
  := by
  cases a with
  | nil => cases b <;> simp [comparePre]
  | cons id a =>
    cases b with
    | nil => simp [comparePre]
    | cons id' b =>
      have hids := compareLex_eq_lt_iff fun x hx y hy => comparePreId_eq_lt_iff (ha x hx) (hb y hy)
      rw [comparePre, hids]
      simp

instance : LawfulEqCmp comparePre where
  eq_of_compare {a b} h := by
    rw [comparePre_eq, compareLex_eq_eq] at h
    exact LawfulEqCmp.eq_of_compare h.2

theorem compare_eq_numbers (a b : SemVer) :
  compare a b = (Ord.compare a.numbers b.numbers).then
    ((comparePre a.pre b.pre).then (List.compareLex compareBuildId a.build b.build))
  := by
  simp only [compare, numbers, List.compare_cons_cons, List.compare_nil_nil, Ordering.then_eq,
    Ordering.then_assoc]

/-- Two versions are equal if they are equal in the order. -/
instance : LawfulEqOrd SemVer where
  eq_of_compare {a b} h := by
    have h : compare a b = .eq := h
    rw [compare_eq_numbers, Ordering.then_eq_eq, Ordering.then_eq_eq] at h
    obtain ⟨hnumbers, hpre, hbuild⟩ := h
    have hnumbers : a.numbers = b.numbers := LawfulEqCmp.eq_of_compare hnumbers
    have hpre : a.pre = b.pre := LawfulEqCmp.eq_of_compare hpre
    have hbuild : a.build = b.build := LawfulEqCmp.eq_of_compare hbuild
    simp only [numbers, List.cons.injEq, and_true] at hnumbers
    obtain ⟨hmajor, hminor, hpatch⟩ := hnumbers
    cases a
    cases b
    rw [SemVer.mk.injEq]
    exact ⟨hmajor, hminor, hpatch, hpre, hbuild⟩

/-- Of well-formed versions the older one comes first. -/
theorem compare_eq_lt_iff {a b : SemVer} (ha : a.Wellformed) (hb : b.Wellformed) :
  Ord.compare a b = .lt ↔ a.Older b
  := by
  have hnumbers : Ord.compare a.numbers b.numbers = .lt ↔ a.numbers < b.numbers := by
    rw [List.compare_eq_compareLex]
    apply compareLex_eq_lt_iff fun _ _ _ _ => Nat.compare_eq_lt
  have hbuild : List.compareLex compareBuildId a.build b.build = .lt ↔
      List.Lex IdBefore a.build b.build :=
    compareLex_eq_lt_iff fun _ _ _ _ => compareBuildId_eq_lt_iff
  change compare a b = .lt ↔ _
  rw [compare_eq_numbers, Ordering.then_eq_lt, Ordering.then_eq_lt, hnumbers,
    LawfulEqCmp.compare_eq_iff_eq, comparePre_eq_lt_iff ha.pre hb.pre,
    LawfulEqCmp.compare_eq_iff_eq, hbuild]
  constructor
  · rintro (h | ⟨hnumbers, ⟨hne, hnil | h⟩ | ⟨hpre, h⟩⟩)
    · exact .numbers h
    · exact .release hnumbers hne hnil
    · exact .pre hnumbers hne h
    · exact .build hnumbers hpre h
  · rintro (h | ⟨hnumbers, hne, hnil⟩ | ⟨hnumbers, hne, h⟩ | ⟨hnumbers, hpre, h⟩)
    · exact .inl h
    · exact .inr ⟨hnumbers, .inl ⟨hne, .inl hnil⟩⟩
    · exact .inr ⟨hnumbers, .inl ⟨hne, .inr h⟩⟩
    · exact .inr ⟨hnumbers, .inr ⟨hpre, h⟩⟩

end DepLock.SemVer
