import DepLock.Text.Split
import Mathlib.Data.List.Basic

/-!
# Beginnings and endings of texts

A text is stripped of a beginning or of an ending exactly when it has it, and the text is then what
is left together with it.
-/

namespace DepLock.Text

variable {pre suf s t : String}

theorem startsWith_iff :
  startsWith pre s = true ↔ pre.toList <+: s.toList
  := by
  rw [startsWith, List.isPrefixOf_iff_prefix]

theorem endsWith_iff :
  endsWith suf s = true ↔ suf.toList <:+ s.toList
  := by
  rw [endsWith, List.isSuffixOf_iff_suffix]

theorem stripPrefix?_eq_some_iff :
  stripPrefix? pre s = some t ↔ s = pre ++ t
  := by
  simp only [stripPrefix?, Option.map_eq_some_iff, List.isPrefixOf?_eq_some_iff_append_eq]
  constructor
  · rintro ⟨cs, hcs, rfl⟩
    apply String.ext
    simp [← hcs]
  · rintro rfl
    exact ⟨t.toList, by simp, by simp⟩

theorem stripSuffix?_eq_some_iff :
  stripSuffix? suf s = some t ↔ s = t ++ suf
  := by
  simp only [stripSuffix?, Option.map_eq_some_iff, List.isSuffixOf?_eq_some_iff_append_eq]
  constructor
  · rintro ⟨cs, hcs, rfl⟩
    apply String.ext
    simp [← hcs]
  · rintro rfl
    exact ⟨t.toList, by simp, by simp⟩

theorem stripPrefix?_eq_none_iff :
  stripPrefix? pre s = none ↔ startsWith pre s = false
  := by
  rw [← Bool.not_eq_true, startsWith_iff, stripPrefix?, Option.map_eq_none_iff,
    Option.eq_none_iff_forall_ne_some]
  simp only [ne_eq, List.isPrefixOf?_eq_some_iff_append_eq]
  exact not_exists.symm

theorem stripSuffix?_eq_none_iff :
  stripSuffix? suf s = none ↔ endsWith suf s = false
  := by
  rw [← Bool.not_eq_true, endsWith_iff, stripSuffix?, Option.map_eq_none_iff,
    Option.eq_none_iff_forall_ne_some]
  simp only [ne_eq, List.isSuffixOf?_eq_some_iff_append_eq]
  exact not_exists.symm

/-- What is left of a text that loses a beginning if it has it. -/
theorem getD_stripPrefix?_eq_iff :
  (stripPrefix? pre s).getD s = t ↔ s = pre ++ t ∨ startsWith pre s = false ∧ s = t
  := by
  rw [Option.getD_eq_iff, stripPrefix?_eq_some_iff, stripPrefix?_eq_none_iff]

/-- What is left of a text that loses an ending if it has it. -/
theorem getD_stripSuffix?_eq_iff :
  (stripSuffix? suf s).getD s = t ↔ s = t ++ suf ∨ endsWith suf s = false ∧ s = t
  := by
  rw [Option.getD_eq_iff, stripSuffix?_eq_some_iff, stripSuffix?_eq_none_iff]

end DepLock.Text
