import DepLock.Text.Split
import Mathlib.Data.List.DropRight
import Mathlib.Data.List.TakeDrop

/-!
# Taking lists of characters apart and putting them together

What is known of the parts that `List.span` and `List.splitOn` give, and when `Text.trimChars`
leaves a text alone.
-/

namespace DepLock.Text

variable {α : Type}

/-- A run of elements ends where the rest does not go on with it. -/
theorem span_append {p : α → Bool} {run rest : List α} (hrun : ∀ x ∈ run, p x)
    (hrest : ∀ x ∈ rest.head?, p x = false) :
  (run ++ rest).span p = (run, rest)
  := by
  rw [List.span_eq_takeWhile_dropWhile, List.takeWhile_append_of_pos hrun,
    List.dropWhile_append_of_pos hrun]
  cases rest with
  | nil => simp
  | cons x rest =>
    have hx : p x = false := hrest x rfl
    simp [hx]

/-- What stands before and after the first occurrence of an element. -/
theorem append_cons_inj [DecidableEq α] {l l' r r' : List α} {x : α} (hl : x ∉ l) (hl' : x ∉ l')
    (h : l ++ x :: r = l' ++ x :: r') :
  l = l' ∧ r = r'
  := by
  have hcut (l r : List α) (hl : x ∉ l) : (l ++ x :: r).span (· ≠ x) = (l, x :: r) := by
    apply span_append
    · rintro a ha
      simpa using ne_of_mem_of_not_mem ha hl
    · simp
  have hspan := hcut l r hl
  rw [h, hcut l' r' hl', Prod.mk.injEq, List.cons.injEq] at hspan
  exact ⟨hspan.1.symm, hspan.2.2.symm⟩

/-- The parts of a list have its elements, without the separator. -/
theorem mem_of_mem_splitOn [DecidableEq α] {sep x : α} {part xs : List α}
    (hp : part ∈ xs.splitOn sep) (hx : x ∈ part) :
  x ∈ xs ∧ x ≠ sep
  := by
  induction xs generalizing part with
  | nil =>
    rw [List.splitOn_nil, List.mem_singleton] at hp
    subst hp
    cases hx
  | cons y ys ih =>
    rw [List.splitOn_cons_eq_if_modifyHead] at hp
    split at hp
    case isTrue =>
      rcases List.mem_cons.mp hp with rfl | hp
      · cases hx
      · obtain ⟨hmem, hne⟩ := ih hp hx
        exact ⟨List.mem_cons_of_mem y hmem, hne⟩
    case isFalse hy =>
      cases hs : ys.splitOn sep with
      | nil => exact absurd hs (List.splitOn_ne_nil sep ys)
      | cons first others =>
        rw [hs, List.modifyHead_cons] at hp
        rw [hs] at ih
        rcases List.mem_cons.mp hp with rfl | hp
        · rcases List.mem_cons.mp hx with rfl | hx
          · simpa using hy
          · obtain ⟨hmem, hne⟩ := ih List.mem_cons_self hx
            exact ⟨List.mem_cons_of_mem y hmem, hne⟩
        · obtain ⟨hmem, hne⟩ := ih (List.mem_cons_of_mem first hp) hx
          exact ⟨List.mem_cons_of_mem y hmem, hne⟩

/-- What is put together has the elements of the parts and of what stands between them. -/
theorem mem_of_mem_intercalate {sep : List α} {parts : List (List α)} {x : α}
    (hx : x ∈ sep.intercalate parts) :
  x ∈ sep ∨ ∃ part ∈ parts, x ∈ part
  := by
  induction parts with
  | nil => cases hx
  | cons part parts ih =>
    by_cases hnil : parts = []
    · rw [hnil, List.intercalate_singleton] at hx
      exact .inr ⟨part, List.mem_cons_self, hx⟩
    · rw [List.intercalate_cons_of_ne_nil hnil, List.append_assoc, List.mem_append,
        List.mem_append] at hx
      rcases hx with hx | hx | hx
      · exact .inr ⟨part, List.mem_cons_self, hx⟩
      · exact .inl hx
      · rcases ih hx with hsep | ⟨other, hother, hx⟩
        · exact .inl hsep
        · exact .inr ⟨other, List.mem_cons_of_mem part hother, hx⟩

/-- What is put together ends like its last part. -/
theorem exists_getLast?_intercalate (sep : List α) {parts : List (List α)} (hne : parts ≠ [])
    (hparts : ∀ part ∈ parts, part ≠ []) :
  ∃ part ∈ parts, (sep.intercalate parts).getLast? = part.getLast?
  := by
  induction parts with
  | nil => exact absurd rfl hne
  | cons part parts ih =>
    by_cases hnil : parts = []
    · exact ⟨part, List.mem_cons_self, by rw [hnil, List.intercalate_singleton]⟩
    · obtain ⟨last, hlast, heq⟩ := ih hnil fun p hp => hparts p (List.mem_cons_of_mem part hp)
      have hsome : last.getLast? ≠ none := by
        simpa using hparts last (List.mem_cons_of_mem part hlast)
      refine ⟨last, List.mem_cons_of_mem part hlast, ?_⟩
      rw [List.intercalate_cons_of_ne_nil hnil, List.getLast?_append, heq]
      exact Option.or_of_isSome (Option.isSome_iff_ne_none.mpr hsome)

/-- Nothing is dropped from a list whose last element does not satisfy the condition. -/
theorem dropEndWhile_eq_self {p : Char → Bool} {cs : List Char}
    (h : ∀ c ∈ cs.getLast?, p c = false) :
  dropEndWhile p cs = cs
  := by
  rw [← List.head?_reverse] at h
  rw [dropEndWhile]
  cases hcs : cs.reverse with
  | nil => rw [List.reverse_eq_nil_iff.mp hcs]; rfl
  | cons d ds =>
    rw [hcs] at h
    rw [List.dropWhile_cons_of_neg (by simp [h d rfl]), ← hcs, List.reverse_reverse]

/-- A list is left alone by `trimChars` when it neither begins nor ends with a blank. -/
theorem trimChars_eq_self {cs : List Char} (hhead : ∀ c ∈ cs.head?, isBlank c = false)
    (hlast : ∀ c ∈ cs.getLast?, isBlank c = false) :
  trimChars cs = cs
  := by
  have hdrop : cs.dropWhile isBlank = cs := by
    cases cs with
    | nil => rfl
    | cons d ds => simp [hhead d rfl]
  rw [trimChars, hdrop, dropEndWhile_eq_self hlast]

/-- Leading blanks do not count. -/
theorem trimChars_cons_of_blank {c : Char} (cs : List Char) (hc : isBlank c) :
  trimChars (c :: cs) = trimChars cs
  := by
  simp [trimChars, hc]

/-- What is dropped at the end of a text ends where the rest does not go on with it. -/
theorem dropEndWhile_append (p : Char → Bool) (xs ys : List Char) :
  dropEndWhile p (xs ++ ys)
    = if dropEndWhile p ys = [] then dropEndWhile p xs else xs ++ dropEndWhile p ys
  := by
  simp only [dropEndWhile, List.reverse_append, List.dropWhile_append, List.isEmpty_iff,
    List.reverse_eq_nil_iff]
  split
  · rfl
  · rw [List.reverse_append, List.reverse_reverse]

/-- What is left of a text is a beginning of it. -/
theorem dropEndWhile_isPrefix (p : Char → Bool) (cs : List Char) :
  dropEndWhile p cs <+: cs
  := List.rdropWhile_prefix p cs

/-- A trimmed text stands in the text. -/
theorem trimChars_isInfix (cs : List Char) :
  trimChars cs <:+: cs
  := (dropEndWhile_isPrefix isBlank _).isInfix.trans (List.dropWhile_suffix isBlank).isInfix

/-- A trimmed text does not begin with a blank. -/
theorem head?_trimChars {cs : List Char} {c : Char} (hc : c ∈ (trimChars cs).head?) :
  isBlank c = false
  := by
  obtain ⟨rest, hrest⟩ := dropEndWhile_isPrefix isBlank (cs.dropWhile isBlank)
  have hhead := List.head?_dropWhile_not isBlank cs
  rw [← hrest, ← trimChars, List.head?_append, hc] at hhead
  exact hhead

/-- The first part of a list is what stands before the first separator. -/
theorem head?_splitOn [DecidableEq α] (sep : α) (xs : List α) :
  (xs.splitOn sep).head? = some (xs.takeWhile (· ≠ sep))
  := by
  induction xs with
  | nil => rw [List.splitOn_nil, List.takeWhile_nil, List.head?_cons]
  | cons x xs ih =>
    rw [List.splitOn_cons_eq_if_modifyHead]
    by_cases hx : x = sep
    · simp [hx]
    · simp [hx, ih]

theorem eq_takeWhile_or_mem_tail_splitOn [DecidableEq α] {sep : α} {xs part : List α}
    (hpart : part ∈ xs.splitOn sep) :
  part = xs.takeWhile (· ≠ sep) ∨ part ∈ (xs.splitOn sep).tail
  := by
  have hhead := head?_splitOn sep xs
  cases hparts : xs.splitOn sep with
  | nil => exact absurd hparts (List.splitOn_ne_nil sep xs)
  | cons first others =>
    rw [hparts, List.head?_cons, Option.some.injEq] at hhead
    rw [hparts, List.mem_cons, hhead] at hpart
    exact hpart

/-- Where no part is empty, no two separators stand side by side. -/
theorem not_infix_of_splitOn [DecidableEq α] {sep : α} {xs : List α}
    (h : ∀ part ∈ xs.splitOn sep, part ≠ []) :
  ¬ [sep, sep] <:+: xs
  := by
  rintro ⟨before, after, rfl⟩
  apply h [] _ rfl
  rw [List.append_assoc, List.cons_append, List.splitOn_append_cons_self]
  apply List.mem_append_right
  rw [List.cons_append, List.splitOn_cons_eq_if_modifyHead]
  simp

/-- A part after a separator is empty only between two separators or at the end. -/
theorem ne_nil_of_mem_tail_splitOn [DecidableEq α] {sep : α} {xs part : List α}
    (hpair : ¬ [sep, sep] <:+: xs) (hlast : xs.getLast? ≠ some sep)
    (hpart : part ∈ (xs.splitOn sep).tail) :
  part ≠ []
  := by
  induction xs with
  | nil => cases hpart
  | cons x xs ih =>
    have hpair' : ¬ [sep, sep] <:+: xs :=
      fun h => hpair (h.trans (List.suffix_cons x xs).isInfix)
    have hlast' : xs.getLast? ≠ some sep := by
      intro h
      apply hlast
      rw [List.getLast?_cons, h]
      rfl
    rw [List.splitOn_cons_eq_if_modifyHead] at hpart
    by_cases hx : x = sep
    · subst hx
      rw [if_pos (by simp), List.tail_cons] at hpart
      have hfirst : xs.takeWhile (· ≠ x) ≠ [] := by
        cases xs with
        | nil => simp at hlast
        | cons y ys =>
          have hy : y ≠ x := by
            rintro rfl
            exact hpair ⟨[], ys, rfl⟩
          simp [hy]
      rcases eq_takeWhile_or_mem_tail_splitOn hpart with rfl | hpart
      · exact hfirst
      · exact ih hpair' hlast' hpart
    · rw [if_neg (by simpa using hx), List.tail_modifyHead] at hpart
      exact ih hpair' hlast' hpart

end DepLock.Text
