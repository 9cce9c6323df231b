import DepLock.Proofs.Digest.InputStream
import DepLock.Proofs.Files.Tree
import DepLock.Proofs.Manifest.Inferred
import DepLock.Proofs.Setup.Stages
import DepLock.Proofs.Solve.Memo

/-!
# The memo of a project that was set up

A setup digests the manifest that it is about to write. Whoever computes the memo of the project
later digests the manifest that is read back. The two memos are the same (`Setup.memo_of_run`) when
every tag that the manifest takes for a range is printed as that range.
-/

namespace DepLock

/-- Whether a tag that reads as a range is the text of that range. -/
def Constraint.PrintsBack (c : Constraint) : Prop :=
  ∀ tag range, c = .plain tag → impliedCaret? tag = some (.semver range) → range.render = tag

/-- A constraint that prints back has the same text when it is read back. -/
theorem Constraint.render_reread {c : Constraint} (h : c.PrintsBack) :
  c.reread.render = c.render
  := by
  cases c with
  | plain tag =>
    rw [reread, RuleRecord.versionConstraint]
    cases hread : impliedCaret? tag with
    | none => rfl
    | some c =>
      obtain ⟨range, rfl, -⟩ := wellformed_of_impliedCaret? hread
      apply h tag range rfl hread
  | _ => rfl

/-- An empty source and none have the same text. -/
theorem ProjectId.getD_nonEmptySource (source : Option String) :
  (nonEmptySource source).getD "" = source.getD ""
  := by
  cases source with
  | none => rfl
  | some text =>
    by_cases hempty : text = ""
    · simp [nonEmptySource, Option.filter, hempty]
    · simp [nonEmptySource, Option.filter, hempty]

namespace SolveProblem

/-- The line of a rule is that of the rule that is read back. -/
theorem ruleLine_reread (root : ProjectRoot) {rule : ProjectRule}
    (h : rule.constraint.PrintsBack) :
  ruleLine root rule.reread = ruleLine root rule
  := by
  rw [ruleLine, ruleLine, ProjectRule.reread, ProjectRule.withSource,
    ProjectId.getD_nonEmptySource, Constraint.render_reread h]

theorem ruleLines_reread {rules : SortedMap ProjectRoot ProjectRule}
    (h : ∀ root rule, rules.get? root = some rule → rule.constraint.PrintsBack) :
  ruleLines (rules.mapValues fun _ rule => rule.reread) = ruleLines rules
  := by
  rw [ruleLines, ruleLines, SortedMap.mapValues, List.map_map]
  apply List.map_congr_left
  rintro ⟨root, rule⟩ hmem
  apply ruleLine_reread root (h root rule (SortedMap.get?_eq_some_iff.2 hmem))

/-- Of the analyzer, the memo has only the name and the version. -/
theorem memo_congr (p : SolveProblem) {a a' : Analyzer} (hname : a.name = a'.name)
    (hversion : a.version = a'.version) :
  memo p a = memo p a'
  := by
  rw [memo, memo, hname, hversion]

/-- A manifest that prints back has the same memo when it is read back. The lock does not matter. -/
theorem memo_reread (tree : PackageTree) {m : Manifest} (lock lock' : Lock)
    (hconstraints : ∀ root rule, m.constraints.get? root = some rule →
      rule.constraint.PrintsBack)
    (hoverrides : m.overrides = ∅) (analyzer : Analyzer) :
  memo ⟨tree, m.reread, lock⟩ analyzer = memo ⟨tree, m, lock'⟩ analyzer
  := by
  have hnone : ruleLines m.reread.overrides = ruleLines m.overrides := by
    apply ruleLines_reread
    rw [hoverrides]
    exact nofun
  have hlines : ruleLines m.reread.constraints = ruleLines m.constraints :=
    ruleLines_reread hconstraints
  have himports : externalImports ⟨tree, m.reread, lock⟩ = externalImports ⟨tree, m, lock'⟩ := rfl
  have hignored : m.reread.ignored = m.ignored := rfl
  rw [memo, memo, inputs, inputs, hlines, hnone, himports, hignored]

end SolveProblem

/-! ### Reading back the files -/

/-- The working directory is the project's when it has a manifest. -/
theorem Context.projectDirectory?_of_isFile {c : Context} {files : FileTree}
    (h : files.isFile (Path.join c.workingDirectory Manifest.fileName)) :
  c.projectDirectory? files = some c.workingDirectory
  := by
  simp only [projectDirectory?, Path.ancestors, List.find?_cons, h]

namespace FileTree

variable {t t' t'' : FileTree} {directory : String} {m m' : Manifest} {l l' : Lock}

/-- After a manifest and a lock are written to a directory, both are read there. -/
theorem readText_of_writes
    (hm : t.write (Path.join directory Manifest.fileName) m.render = .ok t')
    (hl : t'.write (Path.join directory Lock.fileName) l.renderFile = .ok t'') :
  t''.readText (Path.join directory Manifest.fileName) = .ok m.render ∧
    t''.readText (Path.join directory Lock.fileName) = .ok l.renderFile
  := by
  constructor
  · apply readText_write_of_ne _ _ _ hl (readText_write hm)
    · decide
    · decide
    · decide
  · apply readText_write hl

theorem loadManifest_of_readText {path : String} (htext : t.readText path = .ok m.render)
    (hm : Manifest.parse m.render = .ok m') :
  t.loadManifest path = .ok m'
  := by
  simp only [loadManifest, load, htext, hm]

theorem loadLockIfAny_of_readText {path : String} (htext : t.readText path = .ok l.renderFile)
    (hl : Lock.parse l.renderFile = .ok l') :
  t.loadLockIfAny path = .ok l'
  := by
  simp only [loadLockIfAny, isFile_of_readText htext, if_true, loadLock, load, htext, hl]

end FileTree

namespace Setup

variable {s : Setup} {files after : FileTree} {options : SetupOptions} {budget : Nat}
  {directory importRoot : String} {tree : PackageTree} {d : ProjectData} {draft : Draft}
  {solution : List LockedProject} {m : Manifest} {l : Lock} {c : Context} {lister : PackageLister}
  {root : Option String}

/-- Whether a context is in the directory that is set up, and finds the same import path and the
same package tree there. -/
structure Revisits (s : Setup) (files : FileTree) (options : SetupOptions) (after : FileTree)
    (c : Context) (lister : PackageLister) (root : Option String) : Prop where
  directory : s.directory files options = .ok c.workingDirectory
  importRoot : ∀ importRoot, s.importRoot files options c.workingDirectory = .ok importRoot →
    (root.map trimSlashes <|> c.importPath? after c.workingDirectory) = some importRoot
  tree : ∀ importRoot, s.importRoot files options c.workingDirectory = .ok importRoot →
    lister c.workingDirectory importRoot = s.lister c.workingDirectory importRoot

/-- Whether the two files of a project, read as TOML, give the records that they were written
from. -/
structure RecordsRead (m : Manifest) (l : Lock) : Prop where
  manifest : (Toml.parse? m.render).bind ManifestRecord.ofTable? = some m.toRecord
  lock : (Toml.parse? l.renderFile).bind LockRecord.ofTable? = some l.toRecord

/-- The memo of a project that was set up is that of the manifest that is read back. -/
theorem Passes.memo_eq
    (h : s.Passes files options budget directory importRoot tree d draft solution m l after)
    (hwrite : ∀ files path text after, s.write files path text = .ok after →
      files.write path text = .ok after)
    (hsources : s.sources.Wellformed) (hworkspace : s.workspace.Wellformed)
    (hrevisits : s.Revisits files options after c lister root) (hread : RecordsRead m l)
    (hnamed : ∀ q ∈ l.projects, q.root.text ≠ "") (sources : SourceManager) :
  c.memo after sources lister root
    = .ok (SolveProblem.memo ⟨tree, m.reread, l.reread⟩ (s.analyzer files))
  := by
  have hlocated := h.located
  rw [hrevisits.directory] at hlocated
  cases hlocated
  obtain ⟨between, hbetween, hafter⟩ := h.written
  obtain ⟨hmanifestText, hlockText⟩ :=
    FileTree.readText_of_writes (hwrite _ _ _ _ hbetween) (hwrite _ _ _ _ hafter)
  obtain ⟨hdrafted, hlocked⟩ := h.rules hsources hworkspace
  have hconstraints : RulesWellformed m.constraints := by
    intro root rule hrule
    obtain ⟨q, hq, rfl⟩ := hlocked root rule hrule
    exact ⟨hnamed q hq, hdrafted.constraints q.root rule hrule⟩
  have hoverrides : RulesWellformed m.overrides := by
    rw [hdrafted.overrides]
    exact nofun
  have hm := FileTree.loadManifest_of_readText hmanifestText
    (Manifest.parse_render hconstraints hoverrides hread.manifest)
  have hl := FileTree.loadLockIfAny_of_readText hlockText
    (Lock.parse_renderFile h.distinct hnamed hread.lock)
  have htree := hrevisits.tree importRoot h.rooted
  rw [h.listed] at htree
  have hproject : c.projectDirectory? after = some c.workingDirectory :=
    Context.projectDirectory?_of_isFile (FileTree.isFile_of_readText hmanifestText)
  unfold Context.memo SolveProblem.ofFiles
  simp only [hproject, hrevisits.importRoot importRoot h.rooted, hm, hl, htree]
  exact congrArg Except.ok (SolveProblem.memo_congr _ rfl rfl)

/-- The memo of a project that was set up is the memo in the lock that was written, if all locked
projects have names and every tag that reads as a range is the text of that range. -/
theorem memo_of_run {o : SetupOutcome} (hrun : s.run files options budget = some o)
    (hresult : o.result = .ok (m, l))
    (hwrite : ∀ files path text after, s.write files path text = .ok after →
      files.write path text = .ok after)
    (hsources : s.sources.Wellformed) (hworkspace : s.workspace.Wellformed)
    (hrevisits : s.Revisits files options o.files c lister root) (hread : RecordsRead m l)
    (hnamed : ∀ q ∈ l.projects, q.root.text ≠ "")
    (hprints : ∀ root rule, m.constraints.get? root = some rule → rule.constraint.PrintsBack)
    (sources : SourceManager) :
  c.memo o.files sources lister root = .ok l.memo
  := by
  obtain ⟨directory, importRoot, tree, d, draft, solution, h⟩ := passes_of_run hrun hresult
  have hoverrides := (h.rules hsources hworkspace).1.overrides
  rw [h.memo_eq hwrite hsources hworkspace hrevisits hread hnamed,
    SolveProblem.memo_reread tree l.reread (Lock.ofProjects solution) hprints hoverrides, h.locked]

end Setup

/-! ### A release, and a tag that reads as a range -/

namespace Setup.Sample

open Solver.Sample (alpha home)

theorem revisits (v : Version) (after : FileTree) :
  (setup v).Revisits files options after here (setup v).lister (some "me.io/app")
  where
  directory := directory_files v
  importRoot := by
    intro importRoot hroot
    change (setup v).importRoot files options "/p" = _ at hroot
    rw [importRoot_files] at hroot
    cases hroot
    simp [trimSlashes_root]
  tree _ _ := rfl

theorem wellformed_sources (tag : String) (r : Revision) :
  (setup (.paired (.ofTag tag) r)).sources.Wellformed
  := by
  have hclassified : (Version.paired (.ofTag tag) r).Classified := by
    rintro _ ⟨⟩
    apply Or.inr ⟨tag, rfl⟩
  rintro id versions ⟨⟩ v hv
  obtain rfl := List.mem_singleton.1 hv
  apply hclassified.wellformed

theorem named (v : Version) (c : Constraint) :
  ∀ q ∈ (lock v c).projects, q.root.text ≠ ""
  := by
  intro q hq
  have halpha : alpha.text ≠ "" := by decide
  rw [List.mem_singleton.1 hq]
  apply halpha

/-- The records of the two files are read when they are read with the memo spelled out. -/
theorem recordsRead {v : Version} {c : Constraint} (memo : String)
    (hmemo : (lock v c).memo = memo)
    (hmanifest : (Toml.parse? (manifest c).render).bind ManifestRecord.ofTable?
      = some (manifest c).toRecord)
    (hlock : (Toml.parse? (Lock.fileNote ++ LockRecord.render ⟨memo, [.ofProject (locked v)]⟩)).bind
      LockRecord.ofTable? = some ⟨memo, [.ofProject (locked v)]⟩) :
  RecordsRead (manifest c) (lock v c)
  := by
  have hrecord : (lock v c).toRecord = ⟨memo, [.ofProject (locked v)]⟩ := by
    simp [Lock.toRecord, ← hmemo, lock]
  constructor
  · apply hmanifest
  · rw [Lock.renderFile, Lock.render, hrecord]
    apply hlock

/-- What the memo digests after the rule on the dependency. -/
def trailer : String :=
  "\x00-overrides-\x00-ignored-\x00-imports-\x00x.io/a\x00-analyzer-\x00wharf\x001\x00"

theorem render_inputs (c : Constraint) (l : Lock) :
  InputStream.render (SolveProblem.inputs ⟨home, manifest c, l⟩ "wharf" 1)
    = "-constraints-\x00x.io/a  " ++ c.render ++ trailer
  := by
  have hline : SolveProblem.ruleLine alpha { constraint := c } = "x.io/a  " ++ c.render := by
    have htext : alpha.text = "x.io/a" := by decide
    rw [← String.toList_inj, SolveProblem.ruleLine, htext]
    simp
  have hconstraints : SolveProblem.ruleLines (manifest c).constraints = ["x.io/a  " ++ c.render] :=
    congrArg (fun line => [line]) hline
  have hoverrides : SolveProblem.ruleLines (manifest c).overrides = [] := rfl
  have hignored : (manifest c).ignored = [] := rfl
  have hnone : sortDedup ([] : List String) = [] := by simp [sortDedup, dedupAdjacent]
  have hone (t : String) : sortDedup [t] = [t] := by simp [sortDedup, dedupAdjacent]
  have hbefore : "-constraints-".toList ++ [InputStream.nul] ++ "x.io/a  ".toList
      = "-constraints-\x00x.io/a  ".toList := by decide
  have hafter : [InputStream.nul] ++ ["-overrides-", "-ignored-", "-imports-", "x.io/a",
      "-analyzer-", "wharf", toString 1].flatMap (·.toList ++ [InputStream.nul])
      = trailer.toList := by
    unfold trailer
    rw [String.toList_ofList]
    decide
  rw [← String.toList_inj, InputStream.toList_render, SolveProblem.tokens_inputs,
    externalImports_home rfl rfl, hconstraints, hoverrides, hignored, hnone, hone, hone,
    String.toList_append, String.toList_append, ← hbefore, ← hafter]
  simp only [List.flatMap_cons, List.flatMap_nil, String.toList_append, List.append_assoc,
    List.cons_append, List.nil_append, List.append_nil]

theorem memo_of_stream {c : Constraint} {memo : String}
    (hmemo : Sha256.hexOfText ("-constraints-\x00x.io/a  " ++ c.render ++ trailer) = memo)
    (v : Version) (l : Lock) :
  SolveProblem.memo ⟨home, manifest c, l⟩ ((setup v).analyzer files) = memo
  := by
  rw [← hmemo, ← render_inputs c l]
  rfl

/-- A release of the dependency. -/
def release : Version := .paired (.ofTag "v1.2.0") ⟨"c0ffee"⟩

/-- The constraint that the release implies. -/
def released : Constraint := .caret ⟨1, 2, 0, [], []⟩

theorem memo_release :
  (lock release released).memo
    = "f53be4a4adbd1cc1881338240d128c5048d777830614888d49d874def2d1c29d"
  := by
  rw [lock]
  apply memo_of_stream
  apply Sha256.hexOfText_of_state (s := ⟨0x8a1aaf9d, 0x1f3c36c9, 0xc8fdfab0, 0xd2d94aca, 0x54ed112e,
    0xeb0b7424, 0xe1662c6c, 0xf2f79522⟩)
  · decide +kernel
  · decide +kernel
  · decide +kernel

/-- The memo of the project with the release is the one that was written. -/
theorem memo_of_run_sample :
  ∃ o, (setup release).run files options 1 = some o ∧
    o.result = .ok (manifest released, lock release released) ∧
    here.memo o.files (setup release).sources (setup release).lister (some "me.io/app")
      = .ok (lock release released).memo
  := by
  have himplied : Constraint.ofVersion? release = some released := by decide
  have hread : RecordsRead (manifest released) (lock release released) := by
    apply recordsRead _ memo_release
    · unfold Manifest.render ManifestRecord.render
      apply Toml.read_of_ofChars? (Toml.toList_renderBlocks _)
      decide +kernel
    · apply Toml.read_of_ofChars?
      · unfold Lock.fileNote LockRecord.render
        rw [String.toList_append, String.toList_append, String.toList_ofList,
          String.toList_ofList, Toml.toList_renderBlocks]
      · decide +kernel
  have hprints : ∀ root rule, (manifest released).constraints.get? root = some rule →
      rule.constraint.PrintsBack := by
    intro root rule hrule
    cases List.mem_singleton.1 (SortedMap.get?_eq_some_iff.1 hrule)
    exact nofun
  obtain ⟨o, hrun, hresult⟩ := run_home himplied
  use o, hrun, hresult
  exact memo_of_run hrun hresult (fun _ _ _ _ => id) (wellformed_sources _ _) nofun
    (revisits release o.files) hread (named release released) hprints _

/-- A version of the dependency at a tag that reads as a range. -/
def wild : Version := .paired (.ofTag "1.x") ⟨"c0ffee"⟩

/-- The range that is read for the tag. -/
def wildRange : Constraint := .semver ⟨[⟨.wildcard, 1, none, none, []⟩]⟩

theorem memo_wild :
  (lock wild (.plain "1.x")).memo
    = "2ea36c44322663a946a5d5412358a54ca59acbbe1d4e343d0e7e8569440e76ad"
  := by
  rw [lock]
  apply memo_of_stream
  apply Sha256.hexOfText_of_state (s := ⟨0xbc7d7389, 0xbcd535ff, 0x7f92ed49, 0x1d5a8fab, 0xc14c0315,
    0x3551cfd3, 0x6d040bcf, 0x604c6ef5⟩)
  · decide +kernel
  · decide +kernel
  · decide +kernel

theorem memo_wildRange (l : Lock) :
  SolveProblem.memo ⟨home, manifest wildRange, l⟩ ((setup wild).analyzer files)
    = "5732c49f42ac89993ca0bff7f98cbed47bb6b16184cc1a0fbf99641b55212f0a"
  := by
  apply memo_of_stream
  apply Sha256.hexOfText_of_state (s := ⟨0x4fd1de13, 0xebcd0146, 0xb69cdb4e, 0x420782bd, 0xf5aa10e7,
    0x72330d42, 0x58377b11, 0xad9039ba⟩)
  · decide +kernel
  · decide +kernel
  · decide +kernel

/-- With a tag that is read back as a range, the memo is not the one that was written. -/
theorem memo_of_run_wild :
  ∃ o, (setup wild).run files options 1 = some o ∧
    o.result = .ok (manifest (.plain "1.x"), lock wild (.plain "1.x")) ∧
    (setup wild).Revisits files options o.files here (setup wild).lister (some "me.io/app") ∧
    RecordsRead (manifest (.plain "1.x")) (lock wild (.plain "1.x")) ∧
    here.memo o.files (setup wild).sources (setup wild).lister (some "me.io/app")
      ≠ .ok (lock wild (.plain "1.x")).memo
  := by
  have himplied : Constraint.ofVersion? wild = some (.plain "1.x") := by decide
  have hread : RecordsRead (manifest (.plain "1.x")) (lock wild (.plain "1.x")) := by
    apply recordsRead _ memo_wild
    · unfold Manifest.render ManifestRecord.render
      apply Toml.read_of_ofChars? (Toml.toList_renderBlocks _)
      decide +kernel
    · apply Toml.read_of_ofChars?
      · unfold Lock.fileNote LockRecord.render
        rw [String.toList_append, String.toList_append, String.toList_ofList,
          String.toList_ofList, Toml.toList_renderBlocks]
      · decide +kernel
  have hreread : (manifest (.plain "1.x")).reread = manifest wildRange := by decide
  obtain ⟨o, hrun, hresult⟩ := run_home himplied
  obtain ⟨directory, importRoot, tree, d, draft, solution, hpasses⟩ := passes_of_run hrun hresult
  have hmemo := hpasses.memo_eq (fun _ _ _ _ => id) (wellformed_sources _ _) nofun
    (revisits wild o.files) hread (named wild (.plain "1.x")) (setup wild).sources
  use o, hrun, hresult, revisits wild o.files, hread
  cases hpasses.listed
  rw [hmemo, hreread, memo_wildRange, memo_wild]
  decide

end Setup.Sample
end DepLock
