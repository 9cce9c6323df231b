import DepLock.Foreign.Govendor
import DepLock.Proofs.Package.Removal
import DepLock.Source.Table

/-!
# What an ignore list covers

Each path in an ignore list becomes one pattern, the path that it means with a star after it, and
build tags become none. The star stands for any ending, so what a pattern covers begins with the
path: the path itself, what lies beneath it, and also the paths whose elements agree with it up to
its last one, which they only begin with (`Govendor.ignores_iff_of_ignoreList`). To ignore
`internal/` is to ignore `internalx` beside it.
-/

namespace DepLock

namespace ImportPath

/-- Whether a path lies beneath another one. -/
def Beneath (path parent : String) : Prop :=
  ∃ rest, path.toList = parent.toList ++ '/' :: rest

/-- Whether a path has a longer name where another one ends. -/
def Lengthens (path beginning : String) : Prop :=
  ∃ c rest, c ≠ '/' ∧ path.toList = beginning.toList ++ c :: rest

/-- What begins with a path. -/
theorem startsWith_iff_beneath {beginning path : String} :
  Text.startsWith beginning path = true ↔
    path = beginning ∨ Beneath path beginning ∨ Lengthens path beginning
  := by
  rw [Text.startsWith_iff]
  constructor
  · rintro ⟨rest, hrest⟩
    cases rest with
    | nil =>
      left
      rw [List.append_nil, String.toList_inj] at hrest
      exact hrest.symm
    | cons c rest =>
      right
      by_cases hc : c = '/'
      · subst hc
        exact .inl ⟨rest, hrest.symm⟩
      · exact .inr ⟨c, rest, hc, hrest.symm⟩
  · rintro (rfl | ⟨rest, hrest⟩ | ⟨c, rest, -, hrest⟩)
    · exact List.prefix_rfl
    · exact ⟨_, hrest.symm⟩
    · exact ⟨_, hrest.symm⟩

end ImportPath

namespace Conversion

variable {sm : SourceManager} {fromLock : Bool} {c : Conversion}

/-- What is converted ignores no packages of its own. -/
theorem ignored_addEntry (root : ProjectRoot) (e : ForeignEntry) :
  (c.addEntry sm fromLock root e).1.manifest.ignored = c.manifest.ignored
  := by
  simp only [addEntry]
  split
  next => rfl
  next => rfl

theorem ignored_addProjects (entries : List (ProjectRoot × ForeignEntry)) (c : Conversion) :
  (addProjects sm fromLock entries c).1.manifest.ignored = c.manifest.ignored
  := by
  induction entries generalizing c with
  | nil => rfl
  | cons entry entries ih => exact (ih _).trans (ignored_addEntry entry.1 entry.2)

theorem ignored_of_addEntries {es : List ForeignEntry} {c' : Conversion} {log : Log}
    (h : addEntries sm fromLock es c = .ok (c', log)) :
  c'.manifest.ignored = c.manifest.ignored
  := by
  rw [addEntries] at h
  split at h
  next => cases h
  next projects _ =>
    obtain rfl : (addProjects sm fromLock projects.toList c).1 = c' := by rw [Except.ok.inj h]
    apply ignored_addProjects

end Conversion

namespace Govendor

open ImportPath (Beneath Lengthens)

variable {sm : SourceManager} {root : ProjectRoot}

/-- Whether a path is the one that an ignored word means, lies beneath it, or lengthens it. -/
def Covers (sm : SourceManager) (root : ProjectRoot) (word path : String) : Prop :=
  path = ignoredPath sm root word ∨ Beneath path (ignoredPath sm root word) ∨
    Lengthens path (ignoredPath sm root word)

theorem patternCovers_ignoredPattern {word path : String} :
  patternCovers (ignoredPattern sm root word) path = true ↔ Covers sm root word path
  := by
  rw [ignoredPattern, patternCovers, Text.stripSuffix?_eq_some_iff.2 rfl]
  exact ImportPath.startsWith_iff_beneath

/-- The patterns for an ignore list are those of its paths. -/
theorem mem_ignoredPatterns {ignore pattern : String} :
  pattern ∈ ignoredPatterns sm root ignore ↔
    ∃ word ∈ Text.words ignore, '/' ∈ word.toList ∧ pattern = ignoredPattern sm root word
  := by
  simp [ignoredPatterns, isPath, and_assoc, eq_comm]

theorem ignores_of_ignoreList {m : Manifest} {ignore path : String}
    (hm : m.ignored = ignoredPatterns sm root ignore) :
  m.ignores path = true ↔
    ∃ word ∈ Text.words ignore, '/' ∈ word.toList ∧ Covers sm root word path
  := by
  rw [Manifest.ignores, isIgnoredBy, hm, List.any_eq_true]
  constructor
  · rintro ⟨pattern, hpattern, hcovers⟩
    obtain ⟨word, hword, hpath, rfl⟩ := mem_ignoredPatterns.1 hpattern
    exact ⟨word, hword, hpath, patternCovers_ignoredPattern.1 hcovers⟩
  · rintro ⟨word, hword, hpath, hcovers⟩
    exact ⟨_, mem_ignoredPatterns.2 ⟨word, hword, hpath, rfl⟩,
      patternCovers_ignoredPattern.2 hcovers⟩

/-- The manifest of a configuration ignores what is in its ignore list. -/
theorem ignored_of_convert {config : Config} {m : Manifest} {lock : Lock}
    (h : (convert sm root config).result = .ok (m, lock)) :
  m.ignored = ignoredPatterns sm root config.ignore
  := by
  rw [convert] at h
  repeat' split at h
  case h_2 c log hadded =>
    cases h
    rw [Conversion.ignored_of_addEntries hadded]
    rfl
  all_goals cases h

/-- The patterns for an ignore list are those of its words with a slash, and the pattern of a word
covers the path that the word means, what lies beneath it and what lengthens it. A manifest with
these patterns ignores what they cover: to search a tree with its ignore list is to search the tree
without such packages and imports. A configuration is converted to a manifest that ignores this and
nothing else. -/
theorem ignores_iff_of_ignoreList (sm : SourceManager) (root : ProjectRoot) :
  (∀ ignore pattern, pattern ∈ ignoredPatterns sm root ignore ↔
    ∃ word ∈ Text.words ignore, '/' ∈ word.toList ∧ pattern = ignoredPattern sm root word)
  ∧ (∀ word path, patternCovers (ignoredPattern sm root word) path = true ↔
    path = ignoredPath sm root word ∨ Beneath path (ignoredPath sm root word) ∨
      Lengthens path (ignoredPath sm root word))
  ∧ (∀ ignore (m : Manifest), m.ignored = ignoredPatterns sm root ignore →
    (∀ path, m.ignores path = true ↔
      ∃ word ∈ Text.words ignore, '/' ∈ word.toList ∧ Covers sm root word path) ∧
    ∀ (t : PackageTree) (o : ReachOptions), o.ignored = m.ignored →
      t.reach o = (t.without m.ignores).reach { o with ignored := [] })
  ∧ ∀ config m lock, (convert sm root config).result = .ok (m, lock) →
    ∀ path, m.ignores path = true ↔
      ∃ word ∈ Text.words config.ignore, '/' ∈ word.toList ∧ Covers sm root word path
  := by
  refine ⟨fun ignore pattern => mem_ignoredPatterns,
    fun word path => patternCovers_ignoredPattern, ?_, ?_⟩
  · intro ignore m hm
    use fun path => ignores_of_ignoreList hm
    intro t o ho
    rw [← PackageTree.reach_without, ho]
    rfl
  · intro config m lock h path
    exact ignores_of_ignoreList (ignored_of_convert h)

namespace Sample

/-- A source manager that goes by the form of paths. -/
def manager : SourceManager := ({} : SourceTable).manager

def app : ProjectRoot := .ofString "github.com/me/app"

/-- A configuration that ignores a directory, a build tag and a project. -/
def config : Config := ⟨"internal/ linux github.com/x/a", []⟩

/-- What it is converted to. -/
def ignoring : Manifest := { ignored := ["github.com/me/app/internal*", "github.com/x/a*"] }

end Sample

/-- What the ignored directory and the ignored project take with them. -/
theorem ignores_iff_of_ignoreList_sample :
  (convert Sample.manager Sample.app Sample.config).result = .ok (Sample.ignoring, {}) ∧
    Sample.ignoring.ignored = ignoredPatterns Sample.manager Sample.app Sample.config.ignore ∧
    Sample.ignoring.ignores "github.com/me/app/internalx" = true ∧
    Sample.ignoring.ignores "github.com/x/a/b" = true ∧
    PackageTree.Sample.exposed.reach ⟨true, false, true, Sample.ignoring.ignored⟩
      = (PackageTree.Sample.exposed.without Sample.ignoring.ignores).reach ⟨true, false, true, []⟩
  := by
  have hconvert : (convert Sample.manager Sample.app Sample.config).result
      = .ok (Sample.ignoring, {}) := by decide
  have hignored : Sample.ignoring.ignored
      = ignoredPatterns Sample.manager Sample.app Sample.config.ignore := by decide
  obtain ⟨-, -, hlist, hconverted⟩ := ignores_iff_of_ignoreList Sample.manager Sample.app
  obtain ⟨hignores, hreach⟩ := hlist _ _ hignored
  refine ⟨hconvert, hignored, ?sibling, ?beneath, hreach _ _ rfl⟩
  case sibling =>
    apply (hconverted _ _ _ hconvert _).2
    refine ⟨"internal/", by decide, by decide, .inr (.inr ?_)⟩
    exact ⟨'x', [], by decide, by decide⟩
  case beneath =>
    apply (hignores _).2
    refine ⟨"github.com/x/a", by decide, by decide, .inr (.inl ?_)⟩
    exact ⟨['b'], by decide⟩

/-- An ignored directory takes its similarly named siblings with it. -/
theorem not_ignores_iff_beneath :
  ¬ ∀ sm root word, '/' ∈ word.toList → (∃ c ∈ word.toList, c ≠ '/') → ∀ path,
    (({ ignored := [ignoredPattern sm root word] } : Manifest).ignores path = true ↔
      path = ignoredPath sm root word ∨ Beneath path (ignoredPath sm root word))
  := by
  intro h
  have hiff := h Sample.manager Sample.app "internal/" (by decide) ⟨'i', by decide, by decide⟩
    "github.com/me/app/internalx"
  have hpath : ignoredPath Sample.manager Sample.app "internal/" = "github.com/me/app/internal" := by
    decide
  rcases hiff.1 (by decide) with heq | ⟨rest, hrest⟩
  · rw [hpath] at heq
    revert heq
    decide
  · rw [hpath] at hrest
    simp at hrest

end Govendor
end DepLock
