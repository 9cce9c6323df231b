import DepLock.Proofs.Source.Deduction

/-!
# Who owns a path

The root that is deduced for a path contains it, also where the path has empty elements or slashes at
its end. A path of a project is named relative to the root in such a way that it can be recovered,
and roots that contain one path contain each other. `ProjectRoot.owns_paths` puts this together.
-/

namespace DepLock

namespace ImportPath

/-- A path is hosted if its first element has a point. -/
theorem isStandard_eq_false_iff {path : String} :
  isStandard path = false ↔ ∃ first ∈ (elements path).head?, '.' ∈ first.toList
  := by
  simp [isStandard, elements, Text.split, Text.head?_splitOn]

end ImportPath

namespace ProjectRoot

/-- The root that a text names contains the text. -/
theorem contains_ofString (s : String) :
  (ofString s).contains s = true
  := by
  have htext : (ofString s).text.toList = s.toList.rdropWhile (· = '/') := by
    simp only [ofString, Text.trimEndChar, String.toList_ofList]
    rfl
  have hsplit : s.toList.rdropWhile (· = '/') ++ s.toList.rtakeWhile (· = '/') = s.toList :=
    List.rdropWhile_append_rtakeWhile
  rw [contains_iff, htext]
  cases hslashes : s.toList.rtakeWhile (· = '/') with
  | nil =>
    left
    rw [hslashes, List.append_nil, ← htext, String.toList_inj] at hsplit
    exact hsplit.symm
  | cons c rest =>
    right
    have hc : c = '/' := by
      apply of_decide_eq_true
      apply List.mem_rtakeWhile_imp (p := fun c => decide (c = '/')) (l := s.toList)
      rw [hslashes]
      exact List.mem_cons_self
    subst hc
    rw [hslashes] at hsplit
    exact ⟨rest, hsplit.symm⟩

/-- Roots that contain one path contain each other. -/
theorem isPrefix_or_isPrefix_of_contains {root root' : ProjectRoot} {path : String}
    (h : root.contains path = true) (h' : root'.contains path = true) :
  ImportPath.elements root.text <+: ImportPath.elements root'.text
    ∨ ImportPath.elements root'.text <+: ImportPath.elements root.text
  := List.prefix_or_prefix_of_prefix (contains_iff_isPrefix.1 h) (contains_iff_isPrefix.1 h')

end ProjectRoot

namespace Deduction

variable {path : String} {root : ProjectRoot}

/-- A path without blanks around it is read without the slashes at its end. -/
theorem bare_eq_text_ofString (htrim : Text.trim path = path) :
  ImportPath.bare path = (ProjectRoot.ofString path).text
  := by
  rw [ImportPath.bare, htrim]
  rfl

/-- The elements of a path that make its root are put together to a text with these elements. -/
theorem elements_front {n : Nat} (hn : rootLength (ImportPath.elements path) = .ok n) :
  ImportPath.elements (ImportPath.ofElements ((ImportPath.elements path).take n))
    = (ImportPath.elements path).take n
  := by
  obtain ⟨hpos, hle⟩ := rootLength_bounds hn
  apply ImportPath.elements_ofElements
  · exact List.ne_nil_of_length_pos (by rwa [List.length_take_of_le hle])
  · intro part hpart
    exact ImportPath.slash_notMem_of_mem_elements (List.mem_of_mem_take hpart)

/-- A deduced root contains the path, unless blanks around the path were left out. -/
theorem contains_of_deduceRoot (htrim : Text.trim path = path) (h : deduceRoot path = .ok root) :
  root.contains path = true
  := by
  have hbare := bare_eq_text_ofString htrim
  obtain ⟨-, n, hn, rfl⟩ := deduceRoot_eq_ok_iff.1 h
  set parts := ImportPath.elements (ImportPath.bare path) with hparts
  have hroot := ProjectRoot.contains_iff_isPrefix.1
    (ProjectRoot.contains_ofString (ImportPath.ofElements (parts.take n)))
  have hpath := ProjectRoot.contains_iff_isPrefix.1 (ProjectRoot.contains_ofString path)
  rw [elements_front hn] at hroot
  rw [← hbare, ← hparts] at hpath
  rw [ProjectRoot.contains_iff_isPrefix]
  exact (hroot.trans (List.take_prefix n parts)).trans hpath

/-- The first element of a deduced root has a point. -/
theorem hosted_of_deduceRoot (h : deduceRoot path = .ok root) :
  ImportPath.isStandard root.text = false
  := by
  obtain ⟨hhosted, n, hn, rfl⟩ := deduceRoot_eq_ok_iff.1 h
  rw [← ProjectRoot.isStandard_of_contains (ProjectRoot.contains_ofString _), ← hhosted]
  apply ImportPath.isStandard_eq_of_head?
  rw [elements_front hn, List.head?_take, if_neg (rootLength_bounds hn).1.ne']

end Deduction

namespace ProjectRoot

open ImportPath (elements IsProper)

/-- A root that is deduced for a path without blanks around it is hosted and contains the path.
Whatever the root, the proper paths that it contains are recovered from their names relative to it,
which are therefore different for different paths. Of two roots that contain one path, the elements
of one begin with those of the other. -/
theorem owns_paths :
  (∀ path root, Text.trim path = path → Deduction.deduceRoot path = .ok root →
    root.text ≠ "" ∧ (∃ first ∈ (elements root.text).head?, '.' ∈ first.toList) ∧
      root.contains path = true)
  ∧ (∀ (root : ProjectRoot) (path : String), root.contains path = true → IsProper path →
    root.absolute (root.relative path) = path)
  ∧ (∀ (root : ProjectRoot) (path path' : String), root.contains path = true →
    root.contains path' = true → IsProper path → IsProper path' →
    root.relative path = root.relative path' → path = path')
  ∧ ∀ (root root' : ProjectRoot) (path : String), root.contains path = true →
    root'.contains path = true →
    elements root.text <+: elements root'.text ∨ elements root'.text <+: elements root.text
  := by
  refine ⟨?_, fun root path => absolute_relative, ?_,
    fun root root' path => isPrefix_or_isPrefix_of_contains⟩
  · intro path root htrim h
    have hhosted := Deduction.hosted_of_deduceRoot h
    refine ⟨?_, ImportPath.isStandard_eq_false_iff.1 hhosted,
      Deduction.contains_of_deduceRoot htrim h⟩
    intro hempty
    rw [hempty] at hhosted
    cases hhosted
  · intro root path path' hcontains hcontains' hproper hproper' hname
    rw [← absolute_relative hcontains hproper, hname, absolute_relative hcontains' hproper']

/-- A path with empty elements and a slash at its end, whose root ends before them, and a package
that two roots contain. -/
theorem owns_paths_sample :
  (ofString "github.com/x").text ≠ ""
    ∧ (ofString "github.com/x").contains "github.com/x//b/" = true
    ∧ (ofString "github.com/x").absolute ((ofString "github.com/x").relative "github.com/x/a/b")
      = "github.com/x/a/b"
    ∧ (ofString "github.com/x").relative "github.com/x/a"
      ≠ (ofString "github.com/x").relative "github.com/x/a/b"
    ∧ (elements "github.com/x" <+: elements "github.com/x/a"
      ∨ elements "github.com/x/a" <+: elements "github.com/x")
  := by
  obtain ⟨hdeduced, hround, hdistinct, hcomparable⟩ := owns_paths
  obtain ⟨hne, -, hcontains⟩ := hdeduced "github.com/x//b/" (ofString "github.com/x") (by decide)
    (by decide)
  refine ⟨hne, hcontains, hround _ _ (by decide) (by decide), ?_, ?_⟩
  · intro hname
    have hsame := hdistinct _ _ _ (by decide) (by decide) (by decide) (by decide) hname
    revert hsame
    decide
  · exact hcomparable (ofString "github.com/x") (ofString "github.com/x/a") "github.com/x/a/b"
      (by decide) (by decide)

end ProjectRoot
end DepLock
