import DepLock.Source.Deduction
import DepLock.Proofs.ProjectRoot

/-!
# The deduced root of a project's other paths

A root is the front of a path's elements: up to the first element that names a repository, or else
a layout that the host has. Either stays the front of every path that the root contains, so these
have the same root, unless an element after the root names a repository too.
-/

namespace DepLock

/-- A path as its root is deduced: without blanks around it and without slashes at its end. -/
def ImportPath.bare (path : String) : String :=
  Text.trimEndChar '/' (Text.trim path)

theorem ImportPath.bare_isInfix (path : String) :
  (bare path).toList <:+: path.toList
  := by
  rw [bare, Text.trimEndChar, Text.trim, String.toList_ofList, String.toList_ofList]
  exact (Text.dropEndWhile_isPrefix _ _).isInfix.trans (Text.trimChars_isInfix _)

/-- A hosted path whose original has no empty elements has none either. -/
theorem ImportPath.ne_empty_of_mem_bare {path element : String}
    (hpath : ∀ e ∈ elements path, e ≠ "") (hhosted : isStandard (bare path) = false)
    (h : element ∈ elements (bare path)) :
  element ≠ ""
  := by
  have hparts : ∀ part ∈ path.toList.splitOn '/', part ≠ [] := by
    rintro part hpart rfl
    exact hpath "" (List.mem_map_of_mem hpart) rfl
  have hpair : ¬ ['/', '/'] <:+: (bare path).toList :=
    fun hpair => Text.not_infix_of_splitOn hparts (hpair.trans (bare_isInfix path))
  have hlast : (bare path).toList.getLast? ≠ some '/' := by
    rw [bare, Text.trimEndChar, String.toList_ofList]
    exact ProjectRoot.getLast?_dropEndWhile _ _ _ (by simp)
  have hfirst : (bare path).toList.takeWhile (· ≠ '/') ≠ [] := by
    intro hnil
    rw [isStandard, hnil] at hhosted
    cases hhosted
  obtain ⟨part, hpart, rfl⟩ := List.mem_map.mp h
  have hne : part ≠ [] := by
    rcases Text.eq_takeWhile_or_mem_tail_splitOn hpart with heq | htail
    · rw [heq]
      exact hfirst
    · exact Text.ne_nil_of_mem_tail_splitOn hpair hlast htail
  simpa using hne

namespace Deduction

variable {path path' : String} {parts more : List String} {n : Nat} {root : ProjectRoot}

/-! ### The length of a root -/

/-- The elements that make a root by the layout of their host. -/
inductive Hosted : List String → Prop
  | owned {host owner name : String} :
      host ∈ ownerHosts → Hosted [host, owner, name]
  | versioned {name : String} :
      hasMajorVersion name = true → Hosted ["gopkg.in", name]
  | ownedVersioned {owner name : String} :
      hasMajorVersion owner = false → hasMajorVersion name = true →
      Hosted ["gopkg.in", owner, name]
  | vanity {beginning : List String} {name : String} :
      beginning ∈ vanityBeginnings → Hosted (beginning ++ [name])

theorem hosted_of_gopkg {rest : List String}
    (hnone : ("gopkg.in" :: rest).findIdx? isRepository = none)
    (h : rootLength ("gopkg.in" :: rest) = .ok n) :
  n ≤ ("gopkg.in" :: rest).length ∧ Hosted (("gopkg.in" :: rest).take n)
  := by
  have howner : "gopkg.in" ∉ ownerHosts := by decide
  simp only [rootLength.eq_def, hnone, if_neg howner, if_true] at h
  split at h
  next first more =>
    split at h
    next hfirst =>
      cases h
      exact ⟨by simp, .versioned hfirst⟩
    next hfirst =>
      split at h
      next second _ =>
        split at h
        next hsecond =>
          cases h
          exact ⟨by simp, .ownedVersioned (by simpa using hfirst) hsecond⟩
        next => cases h
      next => cases h
  next => cases h

/-- Without a repository, the root has the layout of its host. -/
theorem hosted_of_rootLength (hnone : parts.findIdx? isRepository = none)
    (h : rootLength parts = .ok n) :
  n ≤ parts.length ∧ Hosted (parts.take n)
  := by
  cases parts with
  | nil => cases h
  | cons host rest =>
    by_cases hgopkg : host = "gopkg.in"
    · subst hgopkg
      exact hosted_of_gopkg hnone h
    · simp only [rootLength.eq_def, hnone, if_neg hgopkg] at h
      split at h
      next howner =>
        split at h
        next => cases h
        next hlong =>
          obtain _ | ⟨owner, _ | ⟨name, rest⟩⟩ := rest
          · simp at hlong
          · simp at hlong
          · cases h
            exact ⟨by simp, .owned howner⟩
      next =>
        split at h
        next beginning hfind =>
          cases h
          have hmem := List.mem_of_find?_eq_some hfind
          have hmatch := List.find?_some hfind
          simp only [Bool.and_eq_true, decide_eq_true_eq] at hmatch
          obtain ⟨hlength, htake⟩ := hmatch
          refine ⟨hlength, ?_⟩
          rw [← List.take_concat_get' _ _ hlength, htake]
          exact .vanity hmem
        next => cases h

/-- The layout of a host is read off the front, whatever follows. -/
theorem rootLength_of_hosted (hnone : (parts ++ more).findIdx? isRepository = none)
    (h : Hosted parts) :
  rootLength (parts ++ more) = .ok parts.length
  := by
  rw [rootLength.eq_def, hnone]
  cases h with
  | owned howner => simp [howner]
  | versioned hname => simp [hname, ownerHosts]
  | ownedVersioned howner hname => simp [howner, hname, ownerHosts]
  | vanity hbeginning =>
    simp only [vanityBeginnings, List.mem_cons, List.not_mem_nil, or_false] at hbeginning
    rcases hbeginning with rfl | rfl | rfl | rfl | rfl | rfl <;>
      simp [ownerHosts, vanityBeginnings]

/-- A root goes up to the first element that names a repository, or has a host's layout. -/
theorem rootLength_eq_ok_iff :
  rootLength parts = .ok n ↔
    (∃ i, parts.findIdx? isRepository = some i ∧ n = i + 1)
      ∨ parts.findIdx? isRepository = none ∧ n ≤ parts.length ∧ Hosted (parts.take n)
  := by
  cases hfind : parts.findIdx? isRepository with
  | none =>
    constructor
    · intro h
      exact .inr ⟨rfl, hosted_of_rootLength hfind h⟩
    · rintro (⟨i, hi, -⟩ | ⟨-, hle, hhosted⟩)
      · cases hi
      · rw [← List.take_append_drop n parts] at hfind
        have hlength := rootLength_of_hosted hfind hhosted
        rwa [List.take_append_drop, List.length_take_of_le hle] at hlength
  | some i =>
    rw [rootLength.eq_def, hfind]
    simp [eq_comm]

/-- A root has elements, and those of the path. -/
theorem rootLength_bounds (h : rootLength parts = .ok n) :
  0 < n ∧ n ≤ parts.length
  := by
  rcases rootLength_eq_ok_iff.1 h with ⟨i, hfind, rfl⟩ | ⟨-, hle, hhosted⟩
  · obtain ⟨hi, -⟩ := List.findIdx?_eq_some_iff_getElem.mp hfind
    exact ⟨i.succ_pos, hi⟩
  · refine ⟨Nat.pos_of_ne_zero ?_, hle⟩
    rintro rfl
    generalize hparts : parts.take 0 = front at hhosted
    rw [List.take_zero] at hparts
    cases hhosted with
    | vanity => simp at hparts
    | _ => cases hparts

/-- What follows a root does not change it, unless a repository is named there first. -/
theorem rootLength_take_append (h : rootLength parts = .ok n)
    (hfirst : ∀ i, (parts.take n ++ more).findIdx? isRepository = some i → i < n) :
  rootLength (parts.take n ++ more) = .ok n
  := by
  have hlength : (parts.take n).length = n := List.length_take_of_le (rootLength_bounds h).2
  rw [rootLength_eq_ok_iff]
  rw [List.findIdx?_append, hlength] at hfirst ⊢
  rcases rootLength_eq_ok_iff.1 h with ⟨i, hfind, rfl⟩ | ⟨hnone, hle, hhosted⟩
  · left
    use i
    simp [List.findIdx?_take, hfind, Option.guard]
  · right
    have htake : (parts.take n).findIdx? isRepository = none := by
      rw [List.findIdx?_take, hnone, Option.bind_none]
    rw [htake, Option.none_or] at hfirst ⊢
    refine ⟨?_, by simp [hlength], ?_⟩
    · cases hmore : more.findIdx? isRepository with
      | none => rfl
      | some j =>
        have := hfirst (j + n) (by rw [hmore, Option.map_some])
        omega
    · rwa [List.take_append_of_le_length hlength.ge, List.take_of_length_le hlength.le]

/-! ### Deduced roots -/

/-- A root is deduced as the front of a hosted path. -/
theorem deduceRoot_eq_ok_iff :
  deduceRoot path = .ok root ↔
    ImportPath.isStandard (ImportPath.bare path) = false
      ∧ ∃ n, rootLength (ImportPath.elements (ImportPath.bare path)) = .ok n
        ∧ root = ProjectRoot.ofString
          (ImportPath.ofElements ((ImportPath.elements (ImportPath.bare path)).take n))
  := by
  rw [deduceRoot, ← ImportPath.bare]
  split
  next hempty =>
    have hstandard : ImportPath.isStandard "" = true := rfl
    simp [hempty, hstandard]
  next =>
    split
    next hstandard => simp [hstandard]
    next hstandard =>
      dsimp only
      split
      next n hn => simp [hstandard, hn, eq_comm]
      next fault hfault => simp [hfault]

/-- A deduced root of a path without empty elements contains the path and has the length for
it. -/
theorem deduced_of_deduceRoot (hpath : ∀ element ∈ ImportPath.elements path, element ≠ "")
    (h : deduceRoot path = .ok root) :
  ImportPath.isStandard (ImportPath.bare path) = false
    ∧ root.contains (ImportPath.bare path) = true
    ∧ rootLength (ImportPath.elements (ImportPath.bare path))
      = .ok (ImportPath.elements root.text).length
  := by
  obtain ⟨hhosted, n, hn, rfl⟩ := deduceRoot_eq_ok_iff.1 h
  obtain ⟨hpos, hle⟩ := rootLength_bounds hn
  have hne : (ImportPath.elements (ImportPath.bare path)).take n ≠ [] :=
    List.ne_nil_of_length_pos (by rwa [List.length_take_of_le hle])
  have helements := ProjectRoot.elements_ofString hne fun part hpart =>
    ⟨ImportPath.ne_empty_of_mem_bare hpath hhosted (List.mem_of_mem_take hpart),
      ImportPath.slash_notMem_of_mem_elements (List.mem_of_mem_take hpart)⟩
  refine ⟨hhosted, ?_, ?_⟩
  · rw [ProjectRoot.contains_iff_isPrefix, helements]
    exact List.take_prefix n _
  · rw [helements, List.length_take_of_le hle]
    exact hn

/-! ### The paths of one project -/

/-- A root that contains a path as it is read does not begin with a blank. -/
theorem isBlank_eq_false_of_contains_bare {c : Char}
    (hread : root.contains (ImportPath.bare path) = true) (hc : c ∈ root.text.toList.head?) :
  Text.isBlank c = false
  := by
  have hbare : (ImportPath.bare path).toList <+: Text.trimChars path.toList := by
    simp only [ImportPath.bare, Text.trimEndChar, Text.trim, String.toList_ofList]
    exact Text.dropEndWhile_isPrefix _ _
  obtain ⟨rest, hrest⟩ := (ProjectRoot.prefix_of_contains hread).trans hbare
  have hc' : c ∈ (Text.trimChars path.toList).head? := by
    rw [← hrest, List.head?_append, hc]
    rfl
  exact Text.head?_trimChars hc'

/-- A root that does not begin with a blank contains the paths of its project as they are read. -/
theorem contains_bare (hne : root.text ≠ "")
    (hhead : ∀ c ∈ root.text.toList.head?, Text.isBlank c = false)
    (hcontains : root.contains path = true)
    (hself : path = root.text → Text.trimEnd root.text = root.text) :
  root.contains (ImportPath.bare path) = true
  := by
  have hstart : path.toList.dropWhile Text.isBlank = path.toList := by
    obtain ⟨c, cs, hroot⟩ := List.exists_cons_of_ne_nil (mt String.toList_eq_nil_iff.1 hne)
    rw [hroot] at hhead
    have hc : Text.isBlank c = false := hhead c rfl
    rcases ProjectRoot.contains_iff.1 hcontains with h | ⟨rest, h⟩ <;>
      simp [h, hroot, hc]
  have htrim : root.contains (Text.trim path) = true := by
    rw [Text.trim, Text.trimChars, hstart]
    apply ProjectRoot.contains_dropEndWhile hcontains
    rintro (h | h)
    · simpa [Text.trimEnd] using congrArg String.toList (hself h)
    · cases h
  exact ProjectRoot.contains_dropEndWhile htrim fun _ => root.dropEndWhile_text

/-- What a deduced root contains is read as a hosted path that it contains. -/
theorem read_of_contains (hpath : ∀ element ∈ ImportPath.elements path, element ≠ "")
    (h : deduceRoot path = .ok root) (hcontains : root.contains path' = true)
    (hself : path' = root.text → Text.trimEnd root.text = root.text) :
  ImportPath.isStandard (ImportPath.bare path') = false
    ∧ root.contains (ImportPath.bare path') = true
  := by
  obtain ⟨hhosted, hread, -⟩ := deduced_of_deduceRoot hpath h
  have hroot : ImportPath.isStandard root.text = false := by
    rw [← ProjectRoot.isStandard_of_contains hread, hhosted]
  have hne : root.text ≠ "" := by
    intro hempty
    rw [hempty] at hroot
    cases hroot
  have hread' := contains_bare hne (fun _ => isBlank_eq_false_of_contains_bare hread)
    hcontains hself
  rw [ProjectRoot.isStandard_of_contains hread']
  exact ⟨hroot, hread'⟩

/-- What a deduced root contains has the same root, when no repository is named beyond it. -/
theorem deduceRoot_eq_ok_of_contains
    (hpath : ∀ element ∈ ImportPath.elements path, element ≠ "")
    (h : deduceRoot path = .ok root) (hcontains : root.contains path' = true)
    (hself : path' = root.text → Text.trimEnd root.text = root.text)
    (hfirst : ∀ i, (ImportPath.elements (ImportPath.bare path')).findIdx? isRepository = some i →
      i < (ImportPath.elements root.text).length) :
  deduceRoot path' = .ok root
  := by
  obtain ⟨-, hread, hlength⟩ := deduced_of_deduceRoot hpath h
  obtain ⟨hhosted, hread'⟩ := read_of_contains hpath h hcontains hself
  have htake := List.prefix_iff_eq_take.mp (ProjectRoot.contains_iff_isPrefix.1 hread)
  obtain ⟨more, hmore⟩ := ProjectRoot.contains_iff_isPrefix.1 hread'
  have hlength' : rootLength (ImportPath.elements root.text ++ more)
      = .ok (ImportPath.elements root.text).length := by
    rw [← hmore] at hfirst
    generalize (ImportPath.elements root.text).length = n at htake hlength hfirst ⊢
    rw [htake] at hfirst ⊢
    exact rootLength_take_append hlength hfirst
  rw [deduceRoot_eq_ok_iff]
  refine ⟨hhosted, _, hmore ▸ hlength', ?_⟩
  rw [← hmore, List.take_left, ImportPath.ofElements_elements, ProjectRoot.ofString_text]

/-- A root that contains its own text as it is read is read as it stands. -/
theorem bare_text_of_contains (h : root.contains (ImportPath.bare root.text) = true) :
  ImportPath.bare root.text = root.text
  := by
  rcases ProjectRoot.contains_iff.1 h with h | ⟨rest, hrest⟩
  · exact h
  · have hle := (ImportPath.bare_isInfix root.text).length_le
    rw [hrest, List.length_append, List.length_cons] at hle
    omega

/-- The paths that a deduced root contains have this root, up to an element that names a
repository beyond it. -/
theorem deduceRoot_of_contains {path : String} {root : ProjectRoot}
    (hpath : ∀ element ∈ ImportPath.elements path, element ≠ "")
    (h : deduceRoot path = .ok root) :
  (Text.trimEnd root.text = root.text → deduceRoot root.text = .ok root)
    ∧ ∀ path', root.contains path' = true →
      (path' = root.text → Text.trimEnd root.text = root.text) →
      let parts := ImportPath.elements (ImportPath.bare path')
      ((∀ i, parts.findIdx? isRepository = some i → i < (ImportPath.elements root.text).length) →
          deduceRoot path' = .ok root)
        ∧ ∀ i, parts.findIdx? isRepository = some i →
          deduceRoot path'
            = .ok (ProjectRoot.ofString (ImportPath.ofElements (parts.take (i + 1))))
  := by
  constructor
  · intro hself
    have hcontains : root.contains root.text = true := ProjectRoot.contains_iff.2 (.inl rfl)
    obtain ⟨-, hread⟩ := read_of_contains hpath h hcontains fun _ => hself
    apply deduceRoot_eq_ok_of_contains hpath h hcontains fun _ => hself
    intro i hi
    rw [bare_text_of_contains hread] at hi
    obtain ⟨hlt, -⟩ := List.findIdx?_eq_some_iff_getElem.mp hi
    exact hlt
  · intro path' hcontains hself
    obtain ⟨hhosted, -⟩ := read_of_contains hpath h hcontains hself
    refine ⟨deduceRoot_eq_ok_of_contains hpath h hcontains hself, ?_⟩
    intro i hi
    rw [deduceRoot_eq_ok_iff]
    exact ⟨hhosted, i + 1, rootLength_eq_ok_iff.2 (.inl ⟨i, hi, rfl⟩), rfl⟩

/-- A subpackage of a hosted project, and a repository that is named inside of it. -/
theorem deduceRoot_of_contains_sample :
  (∀ element ∈ ImportPath.elements "github.com/x/a/b", element ≠ "")
    ∧ deduceRoot "github.com/x/a/b" = .ok (ProjectRoot.ofString "github.com/x/a")
    ∧ deduceRoot "github.com/x/a" = .ok (ProjectRoot.ofString "github.com/x/a")
    ∧ deduceRoot "github.com/x/a/c/d" = .ok (ProjectRoot.ofString "github.com/x/a")
    ∧ deduceRoot "github.com/x/a/b.git/c" = .ok (ProjectRoot.ofString "github.com/x/a/b.git")
  := by
  have hpath : ∀ element ∈ ImportPath.elements "github.com/x/a/b", element ≠ "" := by decide
  have hroot : deduceRoot "github.com/x/a/b" = .ok (ProjectRoot.ofString "github.com/x/a") := by
    decide
  obtain ⟨hself, hwithin⟩ := deduceRoot_of_contains hpath hroot
  obtain ⟨hsame, -⟩ := hwithin "github.com/x/a/c/d" (by decide) (by decide)
  obtain ⟨-, hnamed⟩ := hwithin "github.com/x/a/b.git/c" (by decide) (by decide)
  refine ⟨hpath, hroot, hself (by decide), hsame ?_, ?_⟩
  · have hnone : (ImportPath.elements (ImportPath.bare "github.com/x/a/c/d")).findIdx? isRepository
        = none := by decide
    simp [hnone]
  · exact hnamed 3 (by decide)

/-- The project of a path need not be that of the other paths beneath its root: an element that
names a repository comes first, and blanks at the end of a root are not read. -/
theorem not_deduceRoot_of_contains :
  (¬ ∀ path root, (∀ element ∈ ImportPath.elements path, element ≠ "") →
      deduceRoot path = .ok root →
      ∀ path', root.contains path' = true →
        (∀ element ∈ ImportPath.elements path', element ≠ "") → deduceRoot path' = .ok root)
    ∧ ¬ ∀ path root, (∀ element ∈ ImportPath.elements path, element ≠ "") →
      deduceRoot path = .ok root → deduceRoot root.text = .ok root
  := by
  constructor
  · intro h
    have hsame := h "github.com/x/a" (ProjectRoot.ofString "github.com/x/a") (by decide)
      (by decide) "github.com/x/a/b.git/c" (by decide) (by decide)
    revert hsame
    decide
  · intro h
    have hsame := h "github.com/x/a /b" (ProjectRoot.ofString "github.com/x/a ") (by decide)
      (by decide)
    revert hsame
    decide

end Deduction
end DepLock
