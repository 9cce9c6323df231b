import Mathlib.Data.List.Nodup

/-!
# Taking up what is not there yet

`addNew` puts an element at the end of a list that does not have it. A list that takes up the
elements of another one by one keeps what it has, and gets the others in the order in which they are
first seen (`foldl_addNew`). The result is without repeats exactly if the list was so at the start
(`foldl_addNew_eq_eraseDups_iff`). It does not matter whether two lists are taken up one after the
other, or the second into the first before (`foldl_addNew_foldl_addNew`).
-/

namespace DepLock

variable {α : Type} [DecidableEq α] {a b : α} {base more : List α}

/-- A list with an element at its end, unless it has the element. -/
def addNew (l : List α) (a : α) : List α := if a ∈ l then l else l ++ [a]

theorem addNew_of_mem (h : a ∈ base) :
  addNew base a = base
  := if_pos h

theorem addNew_of_notMem (h : a ∉ base) :
  addNew base a = base ++ [a]
  := if_neg h

theorem addNew_cons_of_ne (h : a ≠ b) :
  addNew (b :: base) a = b :: addNew base a
  := by
  by_cases hmem : a ∈ base
  · rw [addNew_of_mem hmem, addNew_of_mem (List.mem_cons_of_mem b hmem)]
  · rw [addNew_of_notMem hmem, addNew_of_notMem (List.not_mem_cons_of_ne_of_not_mem h hmem),
      List.cons_append]

@[simp]
theorem mem_addNew :
  b ∈ addNew base a ↔ b ∈ base ∨ b = a
  := by
  by_cases h : a ∈ base
  · rw [addNew_of_mem h]
    constructor
    · apply Or.inl
    · rintro (hb | rfl)
      · apply hb
      · apply h
  · rw [addNew_of_notMem h, List.mem_append, List.mem_singleton]

@[simp]
theorem mem_foldl_addNew :
  b ∈ more.foldl addNew base ↔ b ∈ base ∨ b ∈ more
  := by
  induction more generalizing base with
  | nil => simp
  | cons a more ih => rw [List.foldl_cons, ih, mem_addNew, List.mem_cons, or_assoc]

/-- What is taken up are the elements that were not there, where they are first seen. -/
theorem foldl_addNew (base more : List α) :
  more.foldl addNew base = base ++ (more.removeAll base).eraseDups
  := by
  induction more generalizing base with
  | nil => simp
  | cons a more ih =>
    rw [List.foldl_cons, ih]
    by_cases h : a ∈ base
    · rw [addNew_of_mem h, List.cons_removeAll, if_neg (by simpa using h)]
    · -- later occurrences of `a` are left out on either side
      have hlater : more.removeAll (base ++ [a])
          = (more.removeAll base).filter fun b => !b == a := by
        simp [List.removeAll, Bool.and_comm, Bool.beq_eq_decide_eq]
      rw [addNew_of_notMem h, hlater, List.cons_removeAll, if_pos (by simpa using h),
        List.eraseDups_cons, List.append_assoc, List.singleton_append]

/-- Taking up elements does not bring in repeats. -/
theorem nodup_foldl_addNew (h : base.Nodup) :
  (more.foldl addNew base).Nodup
  := by
  induction more generalizing base with
  | nil => apply h
  | cons a more ih =>
    apply ih
    by_cases ha : a ∈ base
    · rw [addNew_of_mem ha]
      apply h
    · rw [addNew_of_notMem ha]
      apply List.Nodup.append h (List.nodup_singleton a)
      rw [List.disjoint_singleton]
      apply ha

/-- A list without repeats takes itself up from nothing. -/
theorem eraseDups_eq_self_iff {l : List α} :
  l.eraseDups = l ↔ l.Nodup
  := by
  constructor
  · intro h
    have hnodup : (l.foldl addNew []).Nodup := nodup_foldl_addNew List.nodup_nil
    rwa [foldl_addNew, List.removeAll_nil, List.nil_append, h] at hnodup
  · intro h
    induction l with
    | nil => rfl
    | cons a l ih =>
      obtain ⟨ha, hl⟩ := List.nodup_cons.mp h
      have hrest : l.filter (fun b => !b == a) = l := by
        rw [List.filter_eq_self]
        intro b hb
        simpa using ne_of_mem_of_not_mem hb ha
      rw [List.eraseDups_cons, hrest, ih hl]

/-- The elements of two lists, each where it is first seen, are what the first makes of the second,
exactly if the first is without repeats. -/
theorem foldl_addNew_eq_eraseDups_iff :
  more.foldl addNew base = (base ++ more).eraseDups ↔ base.Nodup
  := by
  rw [foldl_addNew, List.eraseDups_append, List.append_left_inj, eq_comm, eraseDups_eq_self_iff]

/-- Nothing is taken up from a list whose elements are all there. -/
theorem foldl_addNew_of_subset (h : more ⊆ base) :
  more.foldl addNew base = base
  := by
  induction more with
  | nil => rfl
  | cons a more ih =>
    obtain ⟨ha, hmore⟩ := List.cons_subset.mp h
    rw [List.foldl_cons, addNew_of_mem ha, ih hmore]

/-- An element that one list takes up is taken up behind that list by another. -/
theorem foldl_addNew_addNew (l : List α) :
  (addNew base a).foldl addNew l = addNew (base.foldl addNew l) a
  := by
  by_cases h : a ∈ base
  · rw [addNew_of_mem h, addNew_of_mem (mem_foldl_addNew.mpr (Or.inr h))]
  · rw [addNew_of_notMem h, List.foldl_append, List.foldl_cons, List.foldl_nil]

/-- Taking up is associative. -/
theorem foldl_addNew_foldl_addNew (l base more : List α) :
  (more.foldl addNew base).foldl addNew l = more.foldl addNew (base.foldl addNew l)
  := by
  induction more generalizing base with
  | nil => rfl
  | cons a more ih => rw [List.foldl_cons, ih, foldl_addNew_addNew, List.foldl_cons]

end DepLock
