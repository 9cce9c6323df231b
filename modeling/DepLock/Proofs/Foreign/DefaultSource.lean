import DepLock.Foreign.Conversion
import DepLock.Proofs.Source.Ownership
import DepLock.Proofs.Text.Affix

/-!
# Default sources

The source of an entry is dropped if it is where the project is fetched from anyway. The spellings
that are recognised are the root with or without a scheme and with or without `.git` after it. What
is recognised loses its `.git` before it is compared with the root, and the root does not: where the
root itself ends in `.git`, which a deduced root may, only the spellings with a second one are
recognised, and the address that the project is fetched from is not (`isDefaultSource_spelled`).
-/

namespace DepLock.ForeignEntry

open Deduction (deduceRoot)

variable {root : ProjectRoot} {path source : String}

/-- What an address may begin with. -/
def schemes : List String := ["", "http://", "https://"]

/-- What an address may end in. -/
def endings : List String := ["", ".git"]

/-- Whether a source is the root of a project between a scheme and an ending, apart from slashes at
its end. -/
def Spells (root : ProjectRoot) (source : String) : Prop :=
  ∃ scheme ∈ schemes, ∃ ending ∈ endings,
    Text.trimEndChar '/' source = scheme ++ root.text ++ ending

/-- Whether a text has no scheme in front. -/
def Unschemed (s : String) : Prop :=
  Text.startsWith "http://" s = false ∧ Text.startsWith "https://" s = false

/-- A text without its scheme. -/
def withoutScheme (s : String) : String :=
  match Text.stripPrefix? "https://" s with
  | some bare => bare
  | none => (Text.stripPrefix? "http://" s).getD s

/-- A text without its ending. -/
def withoutEnding (s : String) : String :=
  (Text.stripSuffix? ".git" s).getD s

theorem isDefaultSource_eq (root : ProjectRoot) (source : String) :
  isDefaultSource root source
    = decide (withoutScheme (withoutEnding (Text.trimEndChar '/' source)) = root.text)
  := by
  generalize hs : withoutEnding (Text.trimEndChar '/' source) = s
  rw [withoutEnding] at hs
  cases hbare : Text.stripPrefix? "https://" s with
  | some bare => simp only [isDefaultSource, hs, withoutScheme, hbare]
  | none => simp only [isDefaultSource, hs, withoutScheme, hbare]

theorem withoutScheme_eq_iff {s r : String} :
  withoutScheme s = r ↔ ∃ scheme ∈ schemes, s = scheme ++ r ∧ (scheme = "" → Unschemed r)
  := by
  unfold withoutScheme
  split
  next bare hbare =>
    rw [Text.stripPrefix?_eq_some_iff] at hbare
    subst hbare
    constructor
    · rintro rfl
      exact ⟨"https://", by decide, rfl, by simp⟩
    · rintro ⟨scheme, hscheme, heq, hroot⟩
      simp only [schemes, List.mem_cons, List.not_mem_nil, or_false] at hscheme
      rcases hscheme with rfl | rfl | rfl
      · have hstart := (hroot rfl).2
        rw [← Text.stripPrefix?_eq_none_iff] at hstart
        rw [String.empty_append, eq_comm, ← Text.stripPrefix?_eq_some_iff, hstart] at heq
        cases heq
      · simpa using congrArg String.toList heq
      · rwa [String.append_right_inj] at heq
  next hnone =>
    rw [Text.stripPrefix?_eq_none_iff] at hnone
    rw [Text.getD_stripPrefix?_eq_iff]
    constructor
    · rintro (rfl | ⟨hstart, rfl⟩)
      · exact ⟨"http://", by decide, rfl, by simp⟩
      · exact ⟨"", by decide, by simp, fun _ => ⟨hstart, hnone⟩⟩
    · rintro ⟨scheme, hscheme, heq, hroot⟩
      simp only [schemes, List.mem_cons, List.not_mem_nil, or_false] at hscheme
      rcases hscheme with rfl | rfl | rfl
      · rw [String.empty_append] at heq
        subst heq
        exact .inr ⟨(hroot rfl).1, rfl⟩
      · exact .inl heq
      · rw [← Text.stripPrefix?_eq_none_iff, Text.stripPrefix?_eq_some_iff.2 heq] at hnone
        cases hnone

/-- A scheme does not contribute to an ending without slashes. -/
theorem endsWith_scheme_append {scheme suf r : String} (hscheme : scheme ∈ schemes)
    (hsuf : '/' ∉ suf.toList) :
  Text.endsWith suf (scheme ++ r) = Text.endsWith suf r
  := by
  have hslash : ∀ c ∈ scheme.toList.getLast?, c = '/' := by
    simp only [schemes, List.mem_cons, List.not_mem_nil, or_false] at hscheme
    rcases hscheme with rfl | rfl | rfl <;> simp
  rw [Bool.eq_iff_iff, Text.endsWith_iff, Text.endsWith_iff, String.toList_append]
  constructor
  · intro h
    rcases List.suffix_or_suffix_of_suffix h (List.suffix_append _ _) with h' | h'
    · exact h'
    · -- What the ending has in front of the root ends the scheme, so it is nothing.
      obtain ⟨front, hfront⟩ := h'
      obtain ⟨before, hbefore⟩ := h
      rw [← hfront, ← List.append_assoc, List.append_cancel_right_eq] at hbefore
      have hnil : front = [] := by
        by_contra hne
        have hlast : front.getLast hne = '/' := by
          apply hslash
          rw [← hbefore, List.getLast?_append, List.getLast?_eq_some_getLast hne]
          rfl
        apply hsuf
        rw [← hfront, ← hlast]
        exact List.mem_append_left _ (List.getLast_mem hne)
      exact ⟨[], by rw [← hfront, hnil, List.nil_append, List.nil_append]⟩
  · intro h
    exact h.trans (List.suffix_append _ _)

/-- The spellings of a root that are recognised: without scheme only if the root has none in front,
and without `.git` only if the root does not end in it. -/
theorem isDefaultSource_iff :
  isDefaultSource root source = true ↔
    ∃ scheme ∈ schemes, ∃ ending ∈ endings,
      Text.trimEndChar '/' source = scheme ++ root.text ++ ending ∧
        (scheme = "" → Unschemed root.text) ∧
        (ending = "" → Text.endsWith ".git" root.text = false)
  := by
  rw [isDefaultSource_eq, decide_eq_true_eq, withoutScheme_eq_iff]
  apply exists_congr
  intro scheme
  rw [and_congr_right_iff]
  intro hscheme
  rw [withoutEnding, Text.getD_stripSuffix?_eq_iff]
  constructor
  · rintro ⟨heq | ⟨hend, heq⟩, hroot⟩
    · exact ⟨".git", by decide, heq, hroot, by simp⟩
    · rw [heq, endsWith_scheme_append hscheme (by decide)] at hend
      exact ⟨"", by decide, by rw [heq, String.append_empty], hroot, fun _ => hend⟩
  · rintro ⟨ending, hending, heq, hroot, hend⟩
    use ?_, hroot
    simp only [endings, List.mem_cons, List.not_mem_nil, or_false] at hending
    rcases hending with rfl | rfl
    · right
      rw [String.append_empty] at heq
      rw [heq, endsWith_scheme_append hscheme (by decide)]
      exact ⟨hend rfl, rfl⟩
    · exact .inl heq

/-! ### Roots whose spellings are all recognised -/

/-- A root with a scheme in front has no slashes to trim, unless it is empty. -/
theorem trimEndChar_scheme_append (hne : root.text ≠ "") (scheme : String) :
  Text.trimEndChar '/' (scheme ++ root.text) = scheme ++ root.text
  := by
  have hself := root.dropEndWhile_text
  have hnil : Text.dropEndWhile (· = '/') root.text.toList ≠ [] := by
    rwa [hself, ne_eq, String.toList_eq_nil_iff]
  apply String.ext
  rw [Text.trimEndChar, String.toList_ofList, String.toList_append, Text.dropEndWhile_append,
    if_neg hnil, hself]

/-- A spelling without `.git` after the root is no other one. -/
theorem eq_of_scheme_append {scheme scheme' ending r : String} (hscheme : scheme ∈ schemes)
    (hscheme' : scheme' ∈ schemes) (hending : ending ∈ endings)
    (h : scheme ++ r = scheme' ++ r ++ ending) :
  scheme' = scheme ∧ ending = ""
  := by
  have hlength := congrArg String.length h
  simp only [String.length_append] at hlength
  have hall : ∀ scheme ∈ schemes, ∀ scheme' ∈ schemes, ∀ ending ∈ endings,
      scheme.length = scheme'.length + ending.length → scheme' = scheme ∧ ending = "" := by decide
  apply hall scheme hscheme scheme' hscheme' ending hending
  omega

/-- When a root that is not empty is recognised with a scheme in front. -/
theorem isDefaultSource_scheme_append_iff {scheme : String} (hne : root.text ≠ "")
    (hscheme : scheme ∈ schemes) :
  isDefaultSource root (scheme ++ root.text) = true ↔
    (scheme = "" → Unschemed root.text) ∧ Text.endsWith ".git" root.text = false
  := by
  rw [isDefaultSource_iff, trimEndChar_scheme_append hne]
  constructor
  · rintro ⟨scheme', hscheme', ending, hending, heq, hroot, hend⟩
    obtain ⟨rfl, rfl⟩ := eq_of_scheme_append hscheme hscheme' hending heq
    exact ⟨hroot, hend rfl⟩
  · rintro ⟨hroot, hend⟩
    exact ⟨scheme, hscheme, "", by decide, String.append_empty.symm, hroot, fun _ => hend⟩

/-- All spellings of a root are recognised when it has no scheme in front and does not end in
`.git`, and only then. -/
theorem forall_isDefaultSource_iff :
  (∀ source, isDefaultSource root source = true ↔ Spells root source) ↔
    Unschemed root.text ∧ Text.endsWith ".git" root.text = false
  := by
  constructor
  · intro h
    by_cases hne : root.text = ""
    · rw [hne]
      exact ⟨⟨by decide, by decide⟩, by decide⟩
    · have hbare : isDefaultSource root ("" ++ root.text) = true := by
        rw [h, Spells, trimEndChar_scheme_append hne]
        exact ⟨"", by decide, "", by decide, String.append_empty.symm⟩
      obtain ⟨hroot, hend⟩ := (isDefaultSource_scheme_append_iff hne (by decide)).1 hbare
      exact ⟨hroot rfl, hend⟩
  · rintro ⟨hroot, hend⟩ source
    rw [isDefaultSource_iff, Spells]
    simp only [hroot, hend, implies_true, and_true]

/-! ### Deduced roots -/

/-- A hosted path has no scheme in front. -/
theorem unschemed_of_hosted (h : ImportPath.isStandard path = false) :
  Unschemed path
  := by
  have hstart {scheme : String} (hscheme : scheme ∈ ["http://", "https://"]) :
      Text.startsWith scheme path = false := by
    by_contra hstart
    rw [Bool.not_eq_false, Text.startsWith_iff] at hstart
    obtain ⟨rest, hrest⟩ := hstart
    rw [ImportPath.isStandard, ← hrest] at h
    simp only [List.mem_cons, List.not_mem_nil, or_false] at hscheme
    rcases hscheme with rfl | rfl <;> simp at h
  exact ⟨hstart (by decide), hstart (by decide)⟩

/-- A root is fetched from one of the spellings without `.git` after it. -/
theorem remoteUrl_root (root : ProjectRoot) :
  ∃ scheme ∈ schemes, ProjectId.remoteUrl ⟨root, none⟩ = scheme ++ root.text
  := by
  unfold ProjectId.remoteUrl
  dsimp only [ProjectId.location, Option.getD_none]
  split
  · exact ⟨"", by decide, String.empty_append.symm⟩
  · exact ⟨"https://", by decide, rfl⟩

/-- The address that a deduced root is fetched from is recognised unless the root ends in `.git`. -/
theorem isDefaultSource_remoteUrl_iff (h : deduceRoot path = .ok root) :
  isDefaultSource root (ProjectId.remoteUrl ⟨root, none⟩) = true ↔
    Text.endsWith ".git" root.text = false
  := by
  have hhosted := Deduction.hosted_of_deduceRoot h
  have hne : root.text ≠ "" := by
    intro hempty
    rw [hempty] at hhosted
    cases hhosted
  obtain ⟨scheme, hscheme, hurl⟩ := remoteUrl_root root
  rw [hurl, isDefaultSource_scheme_append_iff hne hscheme, and_iff_right]
  exact fun _ => unschemed_of_hosted hhosted

/-- Exactly the spellings of a root are recognised as its default source when it has no scheme in
front and does not end in `.git`, and for no other root. Of a root with a scheme in front the
spellings without another one are not recognised, and of a root that ends in `.git` those without
another `.git`. A deduced root has no scheme in front, and the address that it is fetched from is
recognised exactly when the root does not end in `.git`. -/
theorem isDefaultSource_spelled (root : ProjectRoot) :
  ((∀ source, isDefaultSource root source = true ↔ Spells root source) ↔
    Unschemed root.text ∧ Text.endsWith ".git" root.text = false)
  ∧ (∀ source, isDefaultSource root source = true ↔
    ∃ scheme ∈ schemes, ∃ ending ∈ endings,
      Text.trimEndChar '/' source = scheme ++ root.text ++ ending ∧
        (scheme = "" → Unschemed root.text) ∧
        (ending = "" → Text.endsWith ".git" root.text = false))
  ∧ ∀ path, deduceRoot path = .ok root →
    Unschemed root.text ∧
      (isDefaultSource root (ProjectId.remoteUrl ⟨root, none⟩) = true ↔
        Text.endsWith ".git" root.text = false)
  := by
  use forall_isDefaultSource_iff, fun source => isDefaultSource_iff
  intro path h
  use unschemed_of_hosted (Deduction.hosted_of_deduceRoot h)
  exact isDefaultSource_remoteUrl_iff h

/-- The addresses that a project on a known host and a repository elsewhere are fetched from. -/
theorem isDefaultSource_spelled_sample :
  deduceRoot "github.com/x/a/sub" = .ok (.ofString "github.com/x/a") ∧
    isDefaultSource (.ofString "github.com/x/a")
      (ProjectId.remoteUrl ⟨.ofString "github.com/x/a", none⟩) = true ∧
    deduceRoot "example.com/repo.git/sub" = .ok (.ofString "example.com/repo.git") ∧
    isDefaultSource (.ofString "example.com/repo.git")
      (ProjectId.remoteUrl ⟨.ofString "example.com/repo.git", none⟩) ≠ true
  := by
  have hhosted : deduceRoot "github.com/x/a/sub" = .ok (.ofString "github.com/x/a") := by
    decide
  have hrepository : deduceRoot "example.com/repo.git/sub"
      = .ok (.ofString "example.com/repo.git") := by decide
  obtain ⟨-, -, hdeduced⟩ := isDefaultSource_spelled (.ofString "github.com/x/a")
  obtain ⟨-, -, hdeduced'⟩ := isDefaultSource_spelled (.ofString "example.com/repo.git")
  refine ⟨hhosted, ?_, hrepository, ?_⟩
  · exact (hdeduced _ hhosted).2.2 (by decide)
  · rw [ne_eq, (hdeduced' _ hrepository).2]
    decide

/-- Not all spellings of a root are recognised, and not always the address that a deduced root is
fetched from. -/
theorem not_isDefaultSource_of_spelled :
  ¬ (∀ root source, root.text ≠ "" → (isDefaultSource root source = true ↔ Spells root source))
  ∧ ¬ ∀ path root, deduceRoot path = .ok root →
    isDefaultSource root (ProjectId.remoteUrl ⟨root, none⟩) = true
  := by
  let root := ProjectRoot.ofString "example.com/repo.git"
  constructor
  · intro h
    have hspelled := (h root "https://example.com/repo.git" (by decide)).2
      ⟨"https://", by decide, "", by decide, by decide⟩
    revert hspelled
    decide
  · intro h
    have hurl := h "example.com/repo.git/sub" root (by decide)
    revert hurl
    decide

end DepLock.ForeignEntry
