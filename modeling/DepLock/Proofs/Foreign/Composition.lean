import DepLock.Proofs.Foreign.Consistent
import DepLock.Proofs.Lock.Merge
import DepLock.Proofs.Manifest.Merge
import DepLock.Setup.Run
import Mathlib.Data.List.Forall2

/-!
# Composing what tools say

Every tool is converted to a manifest and a lock with each root once. Laying manifests and locks over
each other is associative, so it does not matter whether the results of several tools are composed
before they are laid over what was discovered, or are laid over it one after the other
(`composition_laws`).
-/

namespace DepLock

/-- A manifest and a lock with others laid over them. -/
def layOver (base overlay : Manifest × Lock) : Manifest × Lock :=
  (base.1.merge overlay.1, base.2.merge overlay.2)

/-- Manifests and locks that are composed one after the other, if there are any. -/
def composed (outputs : List (Manifest × Lock)) : Option (Manifest × Lock) :=
  outputs.foldl (fun sofar output => some (overlayPair sofar output)) none

theorem layOver_assoc {a b c : Manifest × Lock} (ha : a.2.Distinct) (hb : b.2.Distinct)
    (hc : c.2.Distinct) :
  layOver (layOver a b) c = layOver a (layOver b c)
  := by
  simp only [layOver, Manifest.merge_assoc, Lock.merge_assoc ha hb hc]

variable {base : Manifest × Lock} {outputs : List (Manifest × Lock)}

/-- Composing further outputs first, or laying them over one by one, is the same. -/
theorem elim_foldl_overlayPair {sofar : Option (Manifest × Lock)} (hbase : base.2.Distinct)
    (hsofar : ∀ pair, sofar = some pair → pair.2.Distinct)
    (houtputs : ∀ output ∈ outputs, output.2.Distinct) :
  (outputs.foldl (fun sofar output => some (overlayPair sofar output)) sofar).elim base
      (layOver base)
    = outputs.foldl layOver (sofar.elim base (layOver base))
  := by
  induction outputs generalizing sofar with
  | nil => rfl
  | cons output outputs ih =>
    obtain ⟨houtput, houtputs⟩ := List.forall_mem_cons.mp houtputs
    rw [List.foldl_cons, List.foldl_cons]
    cases sofar with
    | none =>
      apply ih _ houtputs
      rintro _ ⟨⟩
      apply houtput
    | some pair =>
      -- laying over is associative only between locks with each root once
      have hpair := hsofar pair rfl
      rw [Option.elim_some, layOver_assoc hbase hpair houtput]
      apply ih _ houtputs
      rintro _ ⟨⟩
      apply Lock.distinct_merge hpair

/-- What is composed of some outputs and laid over a base is what laying them over one by one
gives. -/
theorem elim_composed (hbase : base.2.Distinct) (houtputs : ∀ output ∈ outputs, output.2.Distinct) :
  (composed outputs).elim base (layOver base) = outputs.foldl layOver base
  := elim_foldl_overlayPair hbase nofun houtputs

/-! ### Outputs of tools -/

namespace Conversion

variable {sm : SourceManager} {fromLock : Bool} {root : ProjectRoot} {e : ForeignEntry}
  {c : Conversion} {es : List ForeignEntry} {log : Log}

theorem distinct_addEntry (h : c.lock.Distinct) :
  (c.addEntry sm fromLock root e).1.lock.Distinct
  := by
  rw [lock_addEntry]
  cases entryProject? sm root e with
  | none => apply h
  | some p => apply Lock.distinct_upsertProject p h

theorem distinct_addProjects (h : c.lock.Distinct) (entries : List (ProjectRoot × ForeignEntry)) :
  (addProjects sm fromLock entries c).1.lock.Distinct
  := by
  induction entries generalizing c with
  | nil => apply h
  | cons entry entries ih => apply ih (distinct_addEntry h)

/-- Entries are converted to a lock with each root once. -/
theorem distinct_of_addEntries (h : addEntries sm fromLock es {} = .ok (c, log)) :
  c.lock.Distinct
  := by
  have hadded : ∀ entries, (addProjects sm fromLock entries {}).1.lock.Distinct :=
    distinct_addProjects List.Pairwise.nil
  unfold addEntries at h
  split at h
  · cases h
  next projects _ =>
    have hprojects := hadded projects.toList
    rw [Except.ok.inj h] at hprojects
    apply hprojects

end Conversion

/-- The tools that are enabled and have files in a directory, in the order in which they are
composed. -/
def ForeignTool.used (files : FileTree) (enabled : List String) (directory : String) :
    List ForeignTool :=
  all.filter fun tool => tool.name ∈ enabled && tool.isUsedIn files directory

/-- Whether the files of some tools are converted to a list of outputs, one for each. -/
def ForeignTool.Outputs (files : FileTree) (sm : SourceManager) (directory : String)
    (root : ProjectRoot) : List ForeignTool → List (Manifest × Lock) → Prop :=
  List.Forall₂ fun tool output => (tool.importFrom files sm directory root).result = .ok output

section

variable {files : FileTree} {sm : SourceManager} {enabled : List String} {directory : String}
  {root : ProjectRoot} {tool : ForeignTool} {tools : List ForeignTool} {output : Manifest × Lock}
  {result : Option (Manifest × Lock)}

/-- A tool is converted to a lock with each root once. -/
theorem ForeignTool.distinct_of_importFrom
    (h : (tool.importFrom files sm directory root).result = .ok output) :
  output.2.Distinct
  := by
  obtain ⟨fromLock, es, c, log, hadded, ignored, rfl⟩ := exists_of_importFrom h
  apply Conversion.distinct_of_addEntries hadded

/-- Every output is a lock with each root once. -/
theorem ForeignTool.Outputs.distinct (h : Outputs files sm directory root tools outputs) :
  ∀ output ∈ outputs, output.2.Distinct
  := by
  intro output houtput
  induction h with
  | nil => cases houtput
  | cons hfirst _ ih =>
    rcases List.mem_cons.mp houtput with rfl | houtput
    · apply distinct_of_importFrom hfirst
    · apply ih houtput

/-- There are outputs of some tools exactly if each is converted. -/
theorem ForeignTool.exists_outputs_iff :
  (∃ outputs, Outputs files sm directory root tools outputs)
    ↔ ∀ tool ∈ tools, ∃ output, (tool.importFrom files sm directory root).result = .ok output
  := by
  constructor
  · rintro ⟨outputs, h⟩
    induction h with
    | nil => simp
    | cons hfirst _ ih => apply List.forall_mem_cons.mpr ⟨⟨_, hfirst⟩, ih⟩
  · intro h
    induction tools with
    | nil => use [], .nil
    | cons tool tools ih =>
      obtain ⟨⟨output, houtput⟩, htools⟩ := List.forall_mem_cons.mp h
      obtain ⟨outputs, houtputs⟩ := ih htools
      use output :: outputs, .cons houtput houtputs

/-- The import of some tools succeeds exactly if all are converted, and then their outputs are
composed one after the other. -/
theorem importTools_eq_ok_iff {sofar : Option (Manifest × Lock)} :
  (importTools files sm directory root tools sofar).result = .ok result
    ↔ ∃ outputs, ForeignTool.Outputs files sm directory root tools outputs
      ∧ result = outputs.foldl (fun sofar output => some (overlayPair sofar output)) sofar
  := by
  induction tools generalizing sofar with
  | nil =>
    constructor
    · rintro ⟨⟩
      use [], List.Forall₂.nil
      rfl
    · rintro ⟨_, ⟨⟩, rfl⟩
      rfl
  | cons tool tools ih =>
    simp only [importTools]
    split
    next e hfirst =>
      constructor
      · rintro ⟨⟩
      · rintro ⟨_, ⟨⟩ | ⟨houtput, -⟩, -⟩
        cases hfirst.symm.trans houtput
    next output hfirst =>
      simp only [ih]
      constructor
      · rintro ⟨outputs, hall, rfl⟩
        use output :: outputs, List.Forall₂.cons hfirst hall
        rfl
      · rintro ⟨_, ⟨⟩ | ⟨houtput, hall⟩, rfl⟩
        cases hfirst.symm.trans houtput
        exact ⟨_, hall, rfl⟩

/-- The import of the files in a directory is composed of the outputs of the tools that are used. -/
theorem importForeign_eq_ok_iff :
  (importForeign files sm enabled directory root).result = .ok result
    ↔ ∃ outputs, ForeignTool.Outputs files sm directory root
        (ForeignTool.used files enabled directory) outputs
      ∧ result = composed outputs
  := importTools_eq_ok_iff

end

/-! ### What a setup starts from -/

section

variable {s : Setup} {files : FileTree} {options : SetupOptions} {directory : String}
  {tree : PackageTree} {d : ProjectData} {m : Manifest} {l : Lock}

/-- A setup that takes over the files of tools lays what it imports over what was discovered. -/
theorem Setup.draft_eq_ok_iff (htools : options.skipsTools = false) :
  (∃ log, s.draft files options directory tree d = .ok ⟨m, l, log⟩)
    ↔ ∃ result, (importForeign files s.sources s.context.config.enabledTools directory
        tree.projectRoot).result = .ok result
      ∧ (m, l) = result.elim (d.manifest, d.lock) (layOver (d.manifest, d.lock))
  := by
  simp only [draft, htools, Bool.false_eq_true, if_false]
  split
  next himport => simp [himport]
  next himport => simp [himport, eq_comm]
  next m' l' himport => simp [himport, layOver, eq_comm]

/-- What a setup starts from are the outputs of the tools, laid one after the other over what was
discovered. -/
theorem Setup.draft_eq_foldl_iff (htools : options.skipsTools = false) :
  (∃ log, s.draft files options directory tree d = .ok ⟨m, l, log⟩)
    ↔ ∃ outputs, ForeignTool.Outputs files s.sources directory tree.projectRoot
        (ForeignTool.used files s.context.config.enabledTools directory) outputs
      ∧ (m, l) = outputs.foldl layOver (d.manifest, d.lock)
  := by
  have hcomposed : ∀ outputs, ForeignTool.Outputs files s.sources directory tree.projectRoot
        (ForeignTool.used files s.context.config.enabledTools directory) outputs →
      (composed outputs).elim (d.manifest, d.lock) (layOver (d.manifest, d.lock))
        = outputs.foldl layOver (d.manifest, d.lock) :=
    fun outputs hall => elim_composed (Lock.distinct_ofProjects _) hall.distinct
  rw [draft_eq_ok_iff htools]
  constructor
  · rintro ⟨result, himport, hpair⟩
    obtain ⟨outputs, hall, rfl⟩ := importForeign_eq_ok_iff.mp himport
    use outputs, hall
    rw [hpair, hcomposed outputs hall]
  · rintro ⟨outputs, hall, hpair⟩
    use composed outputs, importForeign_eq_ok_iff.mpr ⟨outputs, hall, rfl⟩
    rw [hpair, hcomposed outputs hall]

end

/-- Merging is associative, and what is merged with itself stays as it is, the order of paths and
projects and the memo included. So a setup that composes the outputs of tools and lays the result
over what was discovered starts from what laying them over it one after the other gives. -/
theorem composition_laws :
  (∀ a b c : Manifest, (a.merge b).merge c = a.merge (b.merge c))
  ∧ (∀ a : Manifest, a.merge a = a)
  ∧ (∀ a b c : Lock, a.Distinct → b.Distinct → c.Distinct →
    (a.merge b).merge c = a.merge (b.merge c))
  ∧ (∀ a : Lock, a.Distinct → a.merge a = a)
  ∧ (∀ base outputs, base.2.Distinct → (∀ output ∈ outputs, output.2.Distinct) →
    (composed outputs).elim base (layOver base) = outputs.foldl layOver base)
  ∧ ∀ (s : Setup) files options directory tree d m l, options.skipsTools = false →
    ((∃ log, s.draft files options directory tree d = .ok ⟨m, l, log⟩)
      ↔ ∃ outputs, ForeignTool.Outputs files s.sources directory tree.projectRoot
          (ForeignTool.used files s.context.config.enabledTools directory) outputs
        ∧ (m, l) = outputs.foldl layOver (d.manifest, d.lock))
  := by
  refine ⟨Manifest.merge_assoc, Manifest.merge_self, ?_, ?_, ?_, ?_⟩
  · intro a b c
    apply Lock.merge_assoc
  · intro a
    apply Lock.merge_self
  · intro base outputs
    apply elim_composed
  · intro s files options directory tree d m l
    apply Setup.draft_eq_foldl_iff

/-! ### Two tools and a checkout -/

namespace Composition.Sample

open Conversion.Sample (fork manager)

/-- The file of godep in a project that has a dependency locked at a revision. -/
def godeps : String :=
  "\x7b\"Deps\": [\x7b\"ImportPath\": \"x.io/pkg\", \"Rev\": \"1b8\"\x7d]\x7d"

/-- The file of govendor in the same project, with another place for the dependency. -/
def vendored : String :=
  "\x7b\"ignore\": \"x.io/pkg/test\", \"package\": ["
    ++ "\x7b\"path\": \"x.io/pkg\", \"origin\": \"w.io/fork\"\x7d]\x7d"

def files : FileTree where
  nodes := .ofList [
    (["Godeps"], .directory), (["Godeps", "Godeps.json"], .file godeps.toUTF8),
    (["vendor"], .directory), (["vendor", "vendor.json"], .file vendored.toUTF8)]

def home : PackageTree := { root := "me.io/app", packages := ∅ }

/-- The dependency is checked out at another revision. -/
def data : ProjectData := { onDisk := .ofList [(fork, .bare ⟨"77"⟩)] }

def setup : Setup where
  context := { workingDirectory := "/", dataHome := "/data", searchPaths := [], config := {} }
  sources := manager
  lister _ _ := .ok home
  workspace := { directory? := fun _ => none, version := fun _ => .absent }

/-- The setup starts from what both tools say, the later one over the earlier one, over the
checkout. -/
theorem composition_laws_sample :
  ∃ first second log,
    (ForeignTool.importFrom .godep files manager "/" home.projectRoot).result = .ok first
    ∧ (ForeignTool.importFrom .govendor files manager "/" home.projectRoot).result = .ok second
    ∧ (data.lock.merge first.2).merge second.2 = data.lock.merge (first.2.merge second.2)
    ∧ first.2.merge first.2 = first.2
    ∧ setup.draft files { path := "." } "/" home data
      = .ok ⟨(data.manifest.merge first.1).merge second.1,
        (data.lock.merge first.2).merge second.2, log⟩
  := by
  have hused : ForeignTool.used files setup.context.config.enabledTools "/" = [.godep, .govendor] :=
    by decide
  have hfirst : (ForeignTool.importFrom .godep files manager "/"
      home.projectRoot).result.toOption.isSome := by decide +kernel
  have hsecond : (ForeignTool.importFrom .govendor files manager "/"
      home.projectRoot).result.toOption.isSome := by decide +kernel
  cases hgodep : (ForeignTool.importFrom .godep files manager "/" home.projectRoot).result with
  | error e =>
    rw [hgodep] at hfirst
    cases hfirst
  | ok first =>
    cases hgovendor :
      (ForeignTool.importFrom .govendor files manager "/" home.projectRoot).result with
    | error e =>
      rw [hgovendor] at hsecond
      cases hsecond
    | ok second =>
      have houtputs : ForeignTool.Outputs files manager "/" home.projectRoot [.godep, .govendor]
          [first, second] := .cons hgodep (.cons hgovendor .nil)
      have hdistinct := houtputs.distinct
      obtain ⟨-, -, hassoc, hself, -, hdraft⟩ := composition_laws
      obtain ⟨log, hlog⟩ := (hdraft setup files { path := "." } "/" home data _ _ rfl).mpr
        ⟨[first, second], hused ▸ houtputs, rfl⟩
      use first, second, log, rfl, rfl
      refine ⟨?_, ?_, hlog⟩
      · apply hassoc _ _ _ (Lock.distinct_ofProjects _) <;> apply hdistinct <;> simp
      · apply hself _ (hdistinct first (by simp))

end Composition.Sample
end DepLock
