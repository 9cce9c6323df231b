import DepLock.ProjectRoot
import DepLock.Proofs.Text.Split
import Mathlib.Data.List.Basic
import Mathlib.Tactic.Set
import Mathlib.Tactic.Use

/-!
# Paths of a project and their names

The paths that a root contains are the root and the root followed by a slash and a rest. Naming a
path relative to the root and back gives the path again, as long as all its elements are proper:
none is empty, and none is a point.
-/

namespace DepLock

open Std

theorem isPrefixOf?_eq_some_iff {α : Type} [BEq α] [LawfulBEq α] {l l' rest : List α} :
  l.isPrefixOf? l' = some rest ↔ l' = l ++ rest
  := by
  induction l generalizing l' with
  | nil => simp [List.isPrefixOf?]
  | cons a l ih =>
    cases l' with
    | nil => simp [List.isPrefixOf?]
    | cons b l' =>
      by_cases h : a = b
      · simp [List.isPrefixOf?, h, ih]
      · simp [List.isPrefixOf?, h, Ne.symm h]

/-- Whether no element of a path is empty or a point. -/
def ImportPath.IsProper (path : String) : Prop :=
  ∀ element ∈ ImportPath.elements path, element ≠ "" ∧ element ≠ "."

instance (path : String) : Decidable (ImportPath.IsProper path) :=
  inferInstanceAs (Decidable (∀ element ∈ _, _))

namespace ImportPath

/-- A path is put together from its elements. -/
theorem ofElements_elements (path : String) :
  ofElements (elements path) = path
  := by
  rw [← String.toList_inj, ofElements, String.toList_intercalate, elements, Text.split]
  simp [List.map_map, Function.comp_def, List.intercalate_splitOn]

theorem elements_injective {path path' : String} (h : elements path = elements path') :
  path = path'
  := by
  rw [← ofElements_elements path, h, ofElements_elements]

/-- No element has a slash. -/
theorem slash_notMem_of_mem_elements {path element : String} (h : element ∈ elements path) :
  '/' ∉ element.toList
  := by
  obtain ⟨part, hpart, rfl⟩ := List.mem_map.mp h
  rw [String.toList_ofList]
  intro hslash
  exact (Text.mem_of_mem_splitOn hpart hslash).2 rfl

/-- Elements that are put together are the elements of the path. -/
theorem elements_ofElements {parts : List String} (hne : parts ≠ [])
    (hslash : ∀ part ∈ parts, '/' ∉ part.toList) :
  elements (ofElements parts) = parts
  := by
  have hparts : ∀ cs ∈ parts.map String.toList, '/' ∉ cs := by
    simpa using hslash
  rw [elements, Text.split, ofElements, String.toList_intercalate]
  have hsep : "/".toList = ['/'] := rfl
  rw [hsep, List.splitOn_intercalate _ hparts (by simpa using hne)]
  simp [List.map_map, Function.comp_def]

/-- The first element tells whether a path belongs to the standard library. -/
theorem isStandard_eq_of_head? {path path' : String}
    (h : (elements path).head? = (elements path').head?) :
  isStandard path = isStandard path'
  := by
  simp only [elements, Text.split, List.head?_map, Text.head?_splitOn, Option.map_some,
    Option.some.injEq, String.ofList_inj] at h
  rw [isStandard, isStandard, h]

end ImportPath

namespace ProjectRoot

variable {root : ProjectRoot} {path : String}

/-- A root has no slashes to trim. -/
theorem dropEndWhile_text (root : ProjectRoot) :
  Text.dropEndWhile (· = '/') root.text.toList = root.text.toList
  := by
  apply Text.dropEndWhile_eq_self
  rintro c hc
  rw [decide_eq_false_iff_not]
  rintro rfl
  exact root.trimmed hc

/-- A root is named by its text. -/
theorem ofString_text (root : ProjectRoot) :
  ofString root.text = root
  := by
  obtain ⟨text, htrimmed⟩ := root
  simp [ofString, Text.trimEndChar, dropEndWhile_text ⟨text, htrimmed⟩]

/-- A root contains itself and what lies beneath it. -/
theorem contains_iff :
  root.contains path = true ↔
    path = root.text ∨ ∃ rest, path.toList = root.text.toList ++ '/' :: rest
  := by
  rw [contains]
  split
  next h =>
    have hpath := isPrefixOf?_eq_some_iff.1 h
    rw [List.append_nil, String.toList_inj] at hpath
    simp [hpath]
  next c cs h =>
    have hpath := isPrefixOf?_eq_some_iff.1 h
    have hne : path ≠ root.text := by
      rintro rfl
      simp at hpath
    simp only [decide_eq_true_eq, hpath, hne, false_or, List.append_cancel_left_eq,
      List.cons.injEq, exists_and_left, exists_eq', and_true]
  next h =>
    have hnone : ∀ rest, path.toList ≠ root.text.toList ++ rest := by
      intro rest hrest
      rw [isPrefixOf?_eq_some_iff.2 hrest] at h
      cases h
    constructor
    · intro hfalse
      cases hfalse
    · rintro (rfl | ⟨rest, hrest⟩)
      · apply absurd (List.append_nil _).symm (hnone [])
      · apply absurd hrest (hnone _)

theorem prefix_of_contains (h : root.contains path = true) :
  root.text.toList <+: path.toList
  := by
  rcases contains_iff.1 h with rfl | ⟨rest, hrest⟩
  · exact List.prefix_refl _
  · rw [hrest]
    exact List.prefix_append _ _

theorem relative_self :
  root.relative root.text = "."
  := by
  rw [relative, isPrefixOf?_eq_some_iff.2 (List.append_nil _).symm]

theorem relative_beneath {rest : List Char} (h : path.toList = root.text.toList ++ '/' :: rest) :
  root.relative path = String.ofList rest
  := by
  simp only [relative, isPrefixOf?_eq_some_iff.2 h]

/-- The elements of a path beneath a root are those of the root and those of the rest. -/
theorem elements_beneath {rest : List Char} (h : path.toList = root.text.toList ++ '/' :: rest) :
  ImportPath.elements path
    = ImportPath.elements root.text ++ (rest.splitOn '/').map String.ofList
  := by
  rw [ImportPath.elements, Text.split, h, List.splitOn_append_cons_self, List.map_append]
  rfl

/-- A root contains the paths that begin with its elements. -/
theorem contains_iff_isPrefix :
  root.contains path = true ↔ ImportPath.elements root.text <+: ImportPath.elements path
  := by
  constructor
  · intro h
    rcases contains_iff.1 h with rfl | ⟨rest, hrest⟩
    · exact List.prefix_refl _
    · rw [elements_beneath hrest]
      exact List.prefix_append _ _
  · rintro ⟨more, hmore⟩
    rw [contains_iff]
    by_cases hne : more = []
    · left
      rw [hne, List.append_nil] at hmore
      exact (ImportPath.elements_injective hmore).symm
    · right
      have hslash : ∀ part ∈ more, '/' ∉ part.toList := by
        intro part hpart
        have hmem : part ∈ ImportPath.elements path := hmore ▸ List.mem_append_right _ hpart
        exact ImportPath.slash_notMem_of_mem_elements hmem
      set rest := ImportPath.ofElements more
      have hbeneath : path = root.text ++ "/" ++ rest := by
        apply ImportPath.elements_injective
        have hchars : (root.text ++ "/" ++ rest).toList
            = root.text.toList ++ '/' :: rest.toList := by
          simp
        rw [← hmore, elements_beneath hchars, ← ImportPath.elements_ofElements hne hslash]
        rfl
      use rest.toList
      simp [hbeneath]

/-- The paths of one root are all of the standard library or all hosted. -/
theorem isStandard_of_contains (h : root.contains path = true) :
  ImportPath.isStandard path = ImportPath.isStandard root.text
  := by
  obtain ⟨more, hmore⟩ := contains_iff_isPrefix.1 h
  apply ImportPath.isStandard_eq_of_head?
  rw [← hmore, List.head?_append]
  apply Option.or_of_isSome
  simp [ImportPath.elements, Text.split]

/-- What a root contains without the characters at its end lies in the root, when none of the
root's own are dropped. -/
theorem contains_dropEndWhile {p : Char → Bool} (hcontains : root.contains path = true)
    (hkept : path = root.text ∨ p '/' = true →
      Text.dropEndWhile p root.text.toList = root.text.toList) :
  root.contains (String.ofList (Text.dropEndWhile p path.toList)) = true
  := by
  rw [contains_iff, String.toList_ofList]
  rcases contains_iff.1 hcontains with rfl | ⟨rest, hrest⟩
  · rw [hkept (.inl rfl), String.ofList_toList]
    exact .inl rfl
  · rw [hrest, Text.dropEndWhile_append]
    split
    next hnil =>
      have hslash : p '/' = true := List.rdropWhile_eq_nil_iff.mp hnil '/' List.mem_cons_self
      rw [hkept (.inr hslash), String.ofList_toList]
      exact .inl rfl
    next hne =>
      right
      obtain ⟨dropped, hdropped⟩ := Text.dropEndWhile_isPrefix p ('/' :: rest)
      obtain ⟨c, kept, hcons⟩ := List.exists_cons_of_ne_nil hne
      rw [hcons, List.cons_append, List.cons.injEq] at hdropped
      use kept
      rw [hcons, hdropped.1]

/-- Elements that are not empty are the elements of the root that they name. -/
theorem elements_ofString {parts : List String} (hne : parts ≠ [])
    (hparts : ∀ part ∈ parts, part ≠ "" ∧ '/' ∉ part.toList) :
  ImportPath.elements (ofString (ImportPath.ofElements parts)).text = parts
  := by
  have hchars : ∀ cs ∈ parts.map String.toList, cs ≠ [] := by
    simpa using fun part hpart => (hparts part hpart).1
  have hsome : parts.map String.toList ≠ [] := by
    simpa using hne
  obtain ⟨cs, hcs, hlast⟩ := Text.exists_getLast?_intercalate ['/'] hsome hchars
  obtain ⟨part, hpart, rfl⟩ := List.mem_map.mp hcs
  -- The path ends like its last element, so it has no slashes to trim.
  have hkept : ∀ c ∈ (ImportPath.ofElements parts).toList.getLast?, decide (c = '/') = false := by
    intro c hc
    rw [ImportPath.ofElements, String.toList_intercalate] at hc
    have hmem : c ∈ part.toList := List.mem_of_getLast? (hlast ▸ hc)
    simpa using ne_of_mem_of_not_mem hmem (hparts part hpart).2
  have htext : (ofString (ImportPath.ofElements parts)).text = ImportPath.ofElements parts := by
    simp only [ofString, Text.trimEndChar, Text.dropEndWhile_eq_self hkept, String.ofList_toList]
  rw [htext]
  exact ImportPath.elements_ofElements hne fun part hpart => (hparts part hpart).2

/-- A segment without slashes that a slash follows is an element. -/
theorem mem_splitOn_of_segment (segment rest : List Char) (hsegment : '/' ∉ segment) :
  segment ∈ (segment ++ '/' :: rest).splitOn '/'
  := by
  rw [List.splitOn_append_cons_self, List.splitOn_eq_singleton hsegment]
  simp

/-- A proper rest keeps its characters when it is made absolute. -/
theorem dropDotSlashes_of_proper {rest : List Char}
    (h : ∀ element ∈ rest.splitOn '/', element ≠ ['.']) :
  dropDotSlashes rest = rest
  := by
  rw [dropDotSlashes]
  intro cs hcs
  apply h ['.'] _ rfl
  rw [hcs]
  apply mem_splitOn_of_segment ['.'] cs (by decide)

/-- A proper path of a project is the absolute path of its relative name. -/
theorem absolute_relative (hcontains : root.contains path = true)
    (hproper : ImportPath.IsProper path) :
  root.absolute (root.relative path) = path
  := by
  rcases contains_iff.1 hcontains with rfl | ⟨rest, hrest⟩
  · rw [relative_self, absolute, if_pos (.inl rfl)]
  · have hne : ∀ element ∈ rest.splitOn '/', element ≠ [] ∧ element ≠ ['.'] := by
      intro element helement
      have hmem : String.ofList element ∈ ImportPath.elements path := by
        rw [elements_beneath hrest]
        apply List.mem_append_right _ (List.mem_map_of_mem helement)
      obtain ⟨hempty, hpoint⟩ := hproper _ hmem
      constructor
      · rintro rfl
        exact hempty rfl
      · rintro rfl
        exact hpoint rfl
    have hrel : ¬ (String.ofList rest = "." ∨ String.ofList rest = "") := by
      rintro (h | h)
      · rw [← String.ofList_toList (s := "."), String.ofList_inj] at h
        subst h
        exact (hne ['.'] (by decide)).2 rfl
      · rw [← String.ofList_toList (s := ""), String.ofList_inj] at h
        subst h
        exact (hne [] (by decide)).1 rfl
    rw [relative_beneath hrest, absolute, if_neg hrel, String.toList_ofList,
      dropDotSlashes_of_proper fun element he => (hne element he).2, ← String.toList_inj, hrest]
    simp

end ProjectRoot
end DepLock
