import DepLock.Proofs.Text.Split

/-!
# Trimming parts

Where the parts of a text are trimmed, it does not matter whether the text was trimmed before it was
split (`map_trimChars_splitOn_trimChars`), unless the separator is a blank itself.
-/

namespace DepLock.Text

variable {p : Char → Bool} {sep c : Char}

theorem dropEndWhile_eq_nil_iff {cs : List Char} :
  dropEndWhile p cs = [] ↔ ∀ c ∈ cs, p c = true
  := List.rdropWhile_eq_nil_iff

/-- Nothing is dropped before a character that stays. -/
theorem dropEndWhile_append_cons (hc : p c = false) (xs ys : List Char) :
  dropEndWhile p (xs ++ c :: ys) = xs ++ c :: dropEndWhile p ys
  := by
  have hself : dropEndWhile p [c] = [c] := dropEndWhile_eq_self (by simpa using hc)
  have hcons : dropEndWhile p (c :: ys) = c :: dropEndWhile p ys := by
    have happend := dropEndWhile_append p [c] ys
    rw [List.singleton_append] at happend
    rw [happend]
    split
    next hnil => rw [hnil, hself]
    next => rfl
  rw [dropEndWhile_append, hcons, if_neg (List.cons_ne_nil _ _)]

theorem dropWhile_append_cons (hc : p c = false) (xs ys : List Char) :
  (xs ++ c :: ys).dropWhile p = xs.dropWhile p ++ c :: ys
  := by
  rw [List.dropWhile_append]
  split
  next hnil => simp [List.isEmpty_iff.1 hnil, hc]
  next => rfl

theorem trimChars_dropWhile (cs : List Char) :
  trimChars (cs.dropWhile isBlank) = trimChars cs
  := by
  rw [trimChars, List.dropWhile_idempotent, ← trimChars]

/-- Trailing blanks do not count. -/
theorem trimChars_dropEndWhile (cs : List Char) :
  trimChars (dropEndWhile isBlank cs) = trimChars cs
  := by
  by_cases hblank : ∀ c ∈ cs, isBlank c = true
  · have hnil : cs.dropWhile isBlank = [] := by simpa using hblank
    rw [trimChars, trimChars, dropEndWhile_eq_nil_iff.2 hblank, hnil]
    rfl
  · push Not at hblank
    obtain ⟨c, hmem, hc⟩ := hblank
    replace hc := Bool.eq_false_iff.2 hc
    obtain ⟨front, rest, rfl⟩ := List.append_of_mem hmem
    rw [trimChars, trimChars, dropEndWhile_append_cons hc, dropWhile_append_cons hc,
      dropWhile_append_cons hc, dropEndWhile_append_cons hc, dropEndWhile_append_cons hc]
    have hidempotent : dropEndWhile isBlank (dropEndWhile isBlank rest) = dropEndWhile isBlank rest :=
      List.rdropWhile_idempotent isBlank rest
    rw [hidempotent]

/-- No character is lost but blanks. -/
theorem mem_trimChars {cs : List Char} (hc : isBlank c = false) (hmem : c ∈ cs) :
  c ∈ trimChars cs
  := by
  obtain ⟨front, rest, rfl⟩ := List.append_of_mem hmem
  rw [trimChars, dropWhile_append_cons hc, dropEndWhile_append_cons hc]
  exact List.mem_append_right _ List.mem_cons_self

/-! ### Parts of a trimmed text -/

theorem map_trimChars_splitOn_dropWhile (hsep : isBlank sep = false) (cs : List Char) :
  ((cs.dropWhile isBlank).splitOn sep).map trimChars = (cs.splitOn sep).map trimChars
  := by
  by_cases hmem : sep ∈ cs
  · obtain ⟨front, rest, rfl, hfront⟩ := List.eq_append_cons_of_mem hmem
    have hfront' : sep ∉ front.dropWhile isBlank :=
      fun h => hfront ((List.dropWhile_suffix isBlank).mem h)
    rw [dropWhile_append_cons hsep, List.splitOn_append_cons_self, List.splitOn_append_cons_self,
      List.splitOn_eq_singleton hfront, List.splitOn_eq_singleton hfront', List.map_append,
      List.map_append, List.map_singleton, List.map_singleton, trimChars_dropWhile]
  · have hmem' : sep ∉ cs.dropWhile isBlank :=
      fun h => hmem ((List.dropWhile_suffix isBlank).mem h)
    rw [List.splitOn_eq_singleton hmem, List.splitOn_eq_singleton hmem', List.map_singleton,
      List.map_singleton, trimChars_dropWhile]

/-- By induction on the length, as what follows a separator is trimmed in the same way. -/
theorem map_trimChars_splitOn_dropEndWhile (hsep : isBlank sep = false) (cs : List Char) :
  ((dropEndWhile isBlank cs).splitOn sep).map trimChars = (cs.splitOn sep).map trimChars
  := by
  induction hlength : cs.length using Nat.strong_induction_on generalizing cs with
  | h n ih =>
    by_cases hmem : sep ∈ cs
    · obtain ⟨front, rest, rfl⟩ := List.append_of_mem hmem
      have hrest := ih rest.length (by simp [← hlength]; omega) rest rfl
      rw [dropEndWhile_append_cons hsep, List.splitOn_append_cons_self,
        List.splitOn_append_cons_self, List.map_append, List.map_append, hrest]
    · have hmem' : sep ∉ dropEndWhile isBlank cs :=
        fun h => hmem ((dropEndWhile_isPrefix isBlank cs).mem h)
      rw [List.splitOn_eq_singleton hmem, List.splitOn_eq_singleton hmem', List.map_singleton,
        List.map_singleton, trimChars_dropEndWhile]

/-- The parts of a trimmed text are those of the text when they are trimmed. -/
theorem map_trimChars_splitOn_trimChars (hsep : isBlank sep = false) (cs : List Char) :
  ((trimChars cs).splitOn sep).map trimChars = (cs.splitOn sep).map trimChars
  := by
  rw [trimChars, map_trimChars_splitOn_dropEndWhile hsep, map_trimChars_splitOn_dropWhile hsep]

end DepLock.Text
