import DepLock.Proofs.Files.Tree
import DepLock.Proofs.Foreign.Composition
import DepLock.Proofs.Foreign.Consolidation

/-!
# Entries are checked before any is converted

The files of a tool are read, every entry in them is checked for the fields that it must have, and
only then is any converted. Each entry makes a `ForeignRow`: what it says, and its required fields
with their values. One row that lacks a field makes the import fail, and the import of all tools with
it, whatever the versions of projects are; and without such a row it succeeds exactly if the root of
every entry is known (`ForeignTool.validated_of_read`).
-/

namespace DepLock

/-! ### Rows -/

/-- An entry in a file of a tool, with the fields that it must have and their values. -/
structure ForeignRow where
  entry : ForeignEntry
  file : ForeignFile
  required : List (String × String)
  deriving DecidableEq

namespace ForeignRow

variable {row : ForeignRow} {rows : List ForeignRow} {field : String}

/-- Whether a field that an entry must have is empty. -/
def Lacks (row : ForeignRow) (field : String) : Prop := (field, "") ∈ row.required

/-- The entry, unless it lacks a field. -/
def check (tool : ForeignTool) (row : ForeignRow) : Except ImportError ForeignEntry :=
  match row.required.find? (·.2 = "") with
  | some (field, _) => .error (.missingField tool row.file field)
  | none => .ok row.entry

theorem exists_check_eq_error (tool : ForeignTool) (h : row.Lacks field) :
  ∃ missing, row.Lacks missing ∧ row.check tool = .error (.missingField tool row.file missing)
  := by
  cases hfind : row.required.find? (·.2 = "") with
  | none =>
    have hsaid := List.find?_eq_none.mp hfind _ h
    simp at hsaid
  | some missing =>
    obtain ⟨name, value⟩ := missing
    obtain rfl : value = "" := by simpa using List.find?_some hfind
    use name, List.mem_of_find?_eq_some hfind
    simp only [check, hfind]

theorem check_eq_ok (tool : ForeignTool) (h : ∀ field, ¬ row.Lacks field) :
  row.check tool = .ok row.entry
  := by
  have hfind : row.required.find? (·.2 = "") = none := by
    rw [List.find?_eq_none]
    rintro ⟨name, value⟩ hmem hvalue
    obtain rfl : value = "" := by simpa using hvalue
    apply h name hmem
  simp only [check, hfind]

/-- Rows of which one lacks a field are refused with a field that one of them lacks. -/
theorem exists_mapM_check_eq_error (tool : ForeignTool) (hrow : row ∈ rows) (h : row.Lacks field) :
  ∃ bad ∈ rows, ∃ missing, bad.Lacks missing
    ∧ rows.mapM (check tool) = .error (.missingField tool bad.file missing)
  := by
  induction rows with
  | nil => cases hrow
  | cons first rows ih =>
    -- the first row that lacks a field decides, which need not be the one that is given
    by_cases hfirst : ∃ field, first.Lacks field
    · obtain ⟨field, hfield⟩ := hfirst
      obtain ⟨missing, hmissing, hcheck⟩ := exists_check_eq_error tool hfield
      use first, List.mem_cons_self, missing, hmissing
      rw [List.mapM_cons, hcheck]
      rfl
    · have hcheck := check_eq_ok tool (not_exists.mp hfirst)
      rcases List.mem_cons.mp hrow with rfl | hrow
      · cases hfirst ⟨field, h⟩
      · obtain ⟨bad, hbad, missing, hmissing, hrest⟩ := ih hrow
        use bad, List.mem_cons_of_mem _ hbad, missing, hmissing
        rw [List.mapM_cons, hcheck, hrest]
        rfl

/-- Rows that lack nothing are all accepted. -/
theorem mapM_check_eq_ok (tool : ForeignTool) (h : ∀ row ∈ rows, ∀ field, ¬ row.Lacks field) :
  rows.mapM (check tool) = .ok (rows.map entry)
  := by
  induction rows with
  | nil => rfl
  | cons first rows ih =>
    obtain ⟨hfirst, hrows⟩ := List.forall_mem_cons.mp h
    rw [List.mapM_cons, check_eq_ok tool hfirst, ih hrows]
    rfl

end ForeignRow

/-! ### Entries of the tools -/

/-- A dependency in a configuration of glide must have a name. -/
def Glide.Wanted.row (w : Wanted) : ForeignRow where
  entry := { name := w.package, source := w.repo, constraintHint := w.version }
  file := .configuration
  required := [("Name", w.package)]

/-- A dependency in a lock of glide must have a name. -/
def Glide.Locked.row (l : Locked) : ForeignRow where
  entry := { name := l.name, source := l.repo, lockHint := l.version }
  file := .lock
  required := [("Name", l.name)]

/-- A dependency of godep must have an import path and a revision. -/
def Godep.Dep.row (d : Dep) : ForeignRow where
  entry := { name := d.importPath, lockHint := d.rev, constraintHint := d.comment }
  file := .configuration
  required := [("ImportPath", d.importPath), ("Rev", d.rev)]

/-- A dependency of govend must have a path and a revision. -/
def Govend.Vendored.row (v : Vendored) : ForeignRow where
  entry := { name := v.path, lockHint := v.rev }
  file := .configuration
  required := [("Path", v.path), ("Revision", v.rev)]

/-- A dependency of govendor must have a path. -/
def Govendor.Vendored.row (v : Vendored) : ForeignRow where
  entry := { name := v.path, source := v.origin, lockHint := v.revision }
  file := .configuration
  required := [("Path", v.path)]

theorem Glide.Wanted.toEntry_eq :
  Wanted.toEntry = ForeignRow.check .glide ∘ row
  := by
  funext w
  by_cases hname : w.package = "" <;> simp [toEntry, ForeignRow.check, row, hname]

theorem Glide.Locked.toEntry_eq :
  Locked.toEntry = ForeignRow.check .glide ∘ row
  := by
  funext l
  by_cases hname : l.name = "" <;> simp [toEntry, ForeignRow.check, row, hname]

theorem Godep.Dep.toEntry_eq :
  Dep.toEntry = ForeignRow.check .godep ∘ row
  := by
  funext d
  by_cases hpath : d.importPath = "" <;> by_cases hrev : d.rev = "" <;>
    simp [toEntry, ForeignRow.check, row, hpath, hrev]

theorem Govend.Vendored.toEntry_eq :
  Vendored.toEntry = ForeignRow.check .govend ∘ row
  := by
  funext v
  by_cases hpath : v.path = "" <;> by_cases hrev : v.rev = "" <;>
    simp [toEntry, ForeignRow.check, row, hpath, hrev]

theorem Govendor.Vendored.toEntry_eq :
  Vendored.toEntry = ForeignRow.check .govendor ∘ row
  := by
  funext v
  by_cases hpath : v.path = "" <;> simp [toEntry, ForeignRow.check, row, hpath]

/-! ### Reading and converting -/

deriving instance DecidableEq for Glide.Wanted, Glide.Config, Glide.Locked, Glide.LockFile,
  Godep.Dep, Govend.Vendored, Govendor.Vendored, Govendor.Config

/-- What the files of a tool say. -/
inductive ForeignReading where
  | glide (config : Glide.Config) (lock : Glide.LockFile)
  | godep (deps : List Godep.Dep)
  | govend (vendors : List Govend.Vendored)
  | govendor (config : Govendor.Config)
  deriving DecidableEq

namespace ForeignReading

/-- The tool whose files say it. -/
def tool : ForeignReading → ForeignTool
  | glide _ _ => .glide
  | godep _ => .godep
  | govend _ => .govend
  | govendor _ => .govendor

/-- The rows of all entries, in the order in which they are checked. -/
def rows : ForeignReading → List ForeignRow
  | glide config lock => config.wanted.map Glide.Wanted.row ++ lock.locked.map Glide.Locked.row
  | godep deps => deps.map Godep.Dep.row
  | govend vendors => vendors.map Govend.Vendored.row
  | govendor config => config.packages.map Govendor.Vendored.row

/-- The entries, if each has what it must have. -/
def entries : ForeignReading → Except ImportError (List ForeignEntry)
  | glide config lock => Glide.entries config lock
  | godep deps => deps.mapM Godep.Dep.toEntry
  | govend vendors => vendors.mapM Govend.Vendored.toEntry
  | govendor config => config.packages.mapM Govendor.Vendored.toEntry

/-- The warnings about what is read that come while it is checked. -/
def warnings : ForeignReading → Log
  | glide config _ => Glide.warnings config
  | _ => []

/-- The manifest and the lock of what is read. -/
def convert (sm : SourceManager) (root : ProjectRoot) : ForeignReading → Imported
  | glide config lock => Glide.convert sm root config lock
  | godep deps => Godep.convert sm deps
  | govend vendors => Govend.convert sm vendors
  | govendor config => Govendor.convert sm root config

/-- Whether an entry lacks a field that it must have. -/
def Incomplete (reading : ForeignReading) : Prop := ∃ row ∈ reading.rows, ∃ field, row.Lacks field

/-- Whether the roots of all entries are known. -/
def Deduced (reading : ForeignReading) (sm : SourceManager) : Prop :=
  ∀ row ∈ reading.rows, ∃ root, sm.deduceRoot row.entry.name = .ok root

end ForeignReading

/-- Entries are converted if the roots of all are known. -/
theorem Conversion.exists_addEntries_iff (sm : SourceManager) (fromLock : Bool)
    (es : List ForeignEntry) (c : Conversion) :
  (∃ added, addEntries sm fromLock es c = .ok added)
    ↔ ∀ e ∈ es, ∃ root, sm.deduceRoot e.name = .ok root
  := by
  rw [← ForeignEntry.exists_consolidate_iff sm.deduceRoot es ∅, addEntries]
  cases ForeignEntry.consolidate sm.deduceRoot es ∅ with
  | error e => simp
  | ok projects => simp

namespace ForeignReading

variable {reading : ForeignReading} {sm : SourceManager} {root : ProjectRoot}

/-- The entries are made by checking the rows. -/
theorem entries_eq (reading : ForeignReading) :
  reading.entries = reading.rows.mapM (ForeignRow.check reading.tool)
  := by
  cases reading with
  | glide config lock =>
    simp only [entries, rows, tool, Glide.entries, List.mapM_append, List.mapM_map,
      Glide.Wanted.toEntry_eq, Glide.Locked.toEntry_eq]
    rfl
  | godep deps => simp only [entries, rows, tool, List.mapM_map, Godep.Dep.toEntry_eq]
  | govend vendors => simp only [entries, rows, tool, List.mapM_map, Govend.Vendored.toEntry_eq]
  | govendor config => simp only [entries, rows, tool, List.mapM_map, Govendor.Vendored.toEntry_eq]

/-- What is read with an incomplete entry is refused, and nothing of it is converted. -/
theorem convert_of_error {e : ImportError} (h : reading.entries = .error e) :
  reading.convert sm root = ⟨.error e, reading.warnings⟩
  := by
  cases reading with
  | glide config lock =>
    simp only [entries] at h
    simp only [convert, Glide.convert, h, warnings]
  | godep deps =>
    simp only [entries] at h
    simp only [convert, Godep.convert, h, warnings]
  | govend vendors =>
    simp only [entries] at h
    simp only [convert, Govend.convert, h, warnings]
  | govendor config =>
    simp only [entries] at h
    simp only [convert, Govendor.convert, h, warnings]

/-- What is read with complete entries is converted if the roots of all are known. -/
theorem exists_convert_iff {es : List ForeignEntry} (h : reading.entries = .ok es) :
  (∃ pair, (reading.convert sm root).result = .ok pair)
    ↔ ∀ e ∈ es, ∃ root, sm.deduceRoot e.name = .ok root
  := by
  cases reading with
  | glide config lock =>
    simp only [entries] at h
    rw [← Conversion.exists_addEntries_iff sm false es {}]
    simp only [convert, Glide.convert, h]
    cases Conversion.addEntries sm false es {} <;> simp
  | godep deps =>
    simp only [entries] at h
    rw [← Conversion.exists_addEntries_iff sm true es {}]
    simp only [convert, Godep.convert, h]
    cases Conversion.addEntries sm true es {} <;> simp
  | govend vendors =>
    simp only [entries] at h
    rw [← Conversion.exists_addEntries_iff sm true es {}]
    simp only [convert, Govend.convert, h]
    cases Conversion.addEntries sm true es {} <;> simp
  | govendor config =>
    simp only [entries] at h
    rw [← Conversion.exists_addEntries_iff sm true es {}]
    simp only [convert, Govendor.convert, h]
    cases Conversion.addEntries sm true es {} <;> simp

/-- What is read and incomplete is refused with a field that is missing, whatever is known of the
projects. -/
theorem exists_convert_eq_error (h : reading.Incomplete) :
  ∃ row ∈ reading.rows, ∃ field, row.Lacks field ∧ ∀ sm root,
    reading.convert sm root = ⟨.error (.missingField reading.tool row.file field), reading.warnings⟩
  := by
  obtain ⟨row, hrow, field, hfield⟩ := h
  obtain ⟨bad, hbad, missing, hmissing, hchecked⟩ :=
    ForeignRow.exists_mapM_check_eq_error reading.tool hrow hfield
  use bad, hbad, missing, hmissing
  intro sm root
  apply convert_of_error
  rw [entries_eq, hchecked]

/-- What is read and complete is converted if the roots of all entries are known. -/
theorem exists_convert_iff_deduced (h : ¬ reading.Incomplete) :
  (∃ pair, (reading.convert sm root).result = .ok pair) ↔ reading.Deduced sm
  := by
  have hcomplete : ∀ row ∈ reading.rows, ∀ field, ¬ row.Lacks field :=
    fun row hrow field hfield => h ⟨row, hrow, field, hfield⟩
  have hchecked := ForeignRow.mapM_check_eq_ok reading.tool hcomplete
  rw [exists_convert_iff (reading.entries_eq.trans hchecked), List.forall_mem_map]
  rfl

end ForeignReading

/-! ### Files of a tool -/

/-- A computation that succeeds in two steps succeeds in each. -/
theorem exists_of_bind {ε α β : Type} {x : Except ε α} {f : α → Except ε β} {b : β}
    (h : x >>= f = .ok b) :
  ∃ a, x = .ok a ∧ f a = .ok b
  := by
  cases x with
  | error e => cases h
  | ok a => exact ⟨a, rfl, h⟩

namespace FileTree

variable {t : FileTree} {path : String}

theorem isFile_of_readForeign {text : String} (h : t.readForeign path = .ok text) :
  t.isFile path
  := by
  unfold readForeign at h
  split at h
  next hread => apply isFile_of_readText hread
  next => cases h

theorem isFile_of_readYaml {d : Yaml.Document} (h : t.readYaml path = .ok d) :
  t.isFile path
  := by
  obtain ⟨text, htext, -⟩ := exists_of_bind h
  apply isFile_of_readForeign htext

theorem isFile_of_readJson {v : Json.Value} (h : t.readJson path = .ok v) :
  t.isFile path
  := by
  obtain ⟨text, htext, -⟩ := exists_of_bind h
  apply isFile_of_readForeign htext

end FileTree

namespace ForeignTool

/-- What the files of a tool in a directory say. -/
def read (tool : ForeignTool) (files : FileTree) (directory : String) :
    Except ImportError ForeignReading := do
  match tool with
  | glide =>
    let config ← Glide.readConfig files (Glide.configPath directory)
    let lock ← Glide.readLock files (Glide.lockPath directory)
    .ok (.glide config lock)
  | godep => .ok (.godep (← Godep.readConfig files (Godep.configPath directory)))
  | govend => .ok (.govend (← Govend.readConfig files (Govend.configPath directory)))
  | govendor => .ok (.govendor (← Govendor.readConfig files (Govendor.configPath directory)))

variable {tool : ForeignTool} {files : FileTree} {sm : SourceManager} {directory : String}
  {root : ProjectRoot} {reading : ForeignReading}

/-- A tool is imported by reading its files and converting what they say. -/
theorem importFrom_eq :
  tool.importFrom files sm directory root = match tool.read files directory with
    | .error e => ⟨.error e, []⟩
    | .ok reading => reading.convert sm root
  := by
  cases tool with
  | glide =>
    unfold importFrom Glide.importFrom read
    dsimp only [bind, Except.bind]
    cases Glide.readConfig files (Glide.configPath directory) with
    | error e => rfl
    | ok config =>
      cases Glide.readLock files (Glide.lockPath directory) with
      | error e => rfl
      | ok lock => rfl
  | godep =>
    unfold importFrom Godep.importFrom read
    dsimp only [bind, Except.bind]
    cases Godep.readConfig files (Godep.configPath directory) <;> rfl
  | govend =>
    unfold importFrom Govend.importFrom read
    dsimp only [bind, Except.bind]
    cases Govend.readConfig files (Govend.configPath directory) <;> rfl
  | govendor =>
    unfold importFrom Govendor.importFrom read
    dsimp only [bind, Except.bind]
    cases Govendor.readConfig files (Govendor.configPath directory) <;> rfl

/-- Where files of a tool are read, the tool is used. -/
theorem isUsedIn_of_read (h : tool.read files directory = .ok reading) :
  tool.isUsedIn files directory ∧ reading.tool = tool
  := by
  cases tool with
  | glide =>
    obtain ⟨config, hconfig, h⟩ := exists_of_bind h
    obtain ⟨lock, -, ⟨⟩⟩ := exists_of_bind h
    obtain ⟨d, hd, -⟩ := exists_of_bind hconfig
    exact ⟨FileTree.isFile_of_readYaml hd, rfl⟩
  | godep =>
    obtain ⟨deps, hdeps, ⟨⟩⟩ := exists_of_bind h
    obtain ⟨v, hv, -⟩ := exists_of_bind hdeps
    exact ⟨FileTree.isFile_of_readJson hv, rfl⟩
  | govend =>
    obtain ⟨vendors, hvendors, ⟨⟩⟩ := exists_of_bind h
    obtain ⟨d, hd, -⟩ := exists_of_bind hvendors
    exact ⟨FileTree.isFile_of_readYaml hd, rfl⟩
  | govendor =>
    obtain ⟨config, hconfig, ⟨⟩⟩ := exists_of_bind h
    obtain ⟨v, hv, -⟩ := exists_of_bind hconfig
    exact ⟨FileTree.isFile_of_readJson hv, rfl⟩

/-- A tool is imported exactly if its files are read, no entry lacks a required field, and the roots
of all entries are known. -/
theorem exists_importFrom_iff :
  (∃ pair, (tool.importFrom files sm directory root).result = .ok pair)
    ↔ ∃ reading, tool.read files directory = .ok reading ∧ ¬ reading.Incomplete
      ∧ reading.Deduced sm
  := by
  rw [importFrom_eq]
  cases hread : tool.read files directory with
  | error e => simp
  | ok reading =>
    simp only [Except.ok.injEq, exists_eq_left']
    by_cases hincomplete : reading.Incomplete
    · obtain ⟨row, -, field, -, hconvert⟩ := reading.exists_convert_eq_error hincomplete
      simp [hconvert, hincomplete]
    · simp [ForeignReading.exists_convert_iff_deduced hincomplete, hincomplete]

/-- The files of all tools are imported exactly if those of each are that is used. -/
theorem exists_importForeign_iff {enabled : List String} :
  (∃ result, (importForeign files sm enabled directory root).result = .ok result)
    ↔ ∀ tool ∈ used files enabled directory,
      ∃ pair, (tool.importFrom files sm directory root).result = .ok pair
  := by
  rw [← exists_outputs_iff]
  constructor
  · rintro ⟨result, himport⟩
    obtain ⟨outputs, houtputs, -⟩ := importForeign_eq_ok_iff.mp himport
    use outputs
  · rintro ⟨outputs, houtputs⟩
    use composed outputs, importForeign_eq_ok_iff.mpr ⟨outputs, houtputs, rfl⟩

theorem mem_used_iff {enabled : List String} :
  tool ∈ used files enabled directory ↔ tool.name ∈ enabled ∧ tool.isUsedIn files directory
  := by
  have hall : tool ∈ all := by cases tool <;> decide
  simp [used, hall]

/-- A tool whose files are read, with an entry that lacks a required field, is refused with a field
that is missing before anything is converted, whatever is known of the projects, and so is the import
of all tools. A tool without such an entry is imported exactly if the roots of all entries are known,
and so are all tools if none has such an entry. -/
theorem validated_before_converted (files : FileTree) (directory : String) :
  (∀ (tool : ForeignTool) reading, tool.read files directory = .ok reading → reading.Incomplete →
    (∃ row ∈ reading.rows, ∃ field, row.Lacks field ∧ ∀ sm root,
      tool.importFrom files sm directory root
        = ⟨.error (.missingField tool row.file field), reading.warnings⟩)
    ∧ ∀ sm root enabled, tool.name ∈ enabled →
      ∃ e, (importForeign files sm enabled directory root).result = .error e)
  ∧ (∀ (tool : ForeignTool) reading, tool.read files directory = .ok reading →
    ¬ reading.Incomplete → ∀ sm root,
      (∃ pair, (tool.importFrom files sm directory root).result = .ok pair)
        ↔ reading.Deduced sm)
  ∧ ∀ sm root enabled, (∃ result, (importForeign files sm enabled directory root).result = .ok result)
    ↔ ∀ tool ∈ used files enabled directory, ∃ reading, tool.read files directory = .ok reading
      ∧ ¬ reading.Incomplete ∧ reading.Deduced sm
  := by
  refine ⟨?_, ?_, ?_⟩
  · intro tool reading hread hincomplete
    obtain ⟨hused, htool⟩ := isUsedIn_of_read hread
    obtain ⟨row, hrow, field, hfield, hconvert⟩ := reading.exists_convert_eq_error hincomplete
    have himport : ∀ sm root, tool.importFrom files sm directory root
        = ⟨.error (.missingField tool row.file field), reading.warnings⟩ := by
      intro sm root
      simp only [importFrom_eq, hread, hconvert, htool]
    refine ⟨⟨row, hrow, field, hfield, himport⟩, ?_⟩
    intro sm root enabled henabled
    cases hresult : (importForeign files sm enabled directory root).result with
    | error e => use e
    | ok result =>
      -- a success of all would be one of this tool too
      exfalso
      obtain ⟨pair, hpair⟩ := exists_importForeign_iff.mp ⟨result, hresult⟩ tool
        (mem_used_iff.mpr ⟨henabled, hused⟩)
      rw [himport] at hpair
      cases hpair
  · intro tool reading hread hcomplete sm root
    rw [importFrom_eq, hread]
    apply ForeignReading.exists_convert_iff_deduced hcomplete
  · intro sm root enabled
    simp only [exists_importForeign_iff, exists_importFrom_iff]

end ForeignTool

/-! ### A dependency without a name -/

namespace ForeignTool.Sample

open Conversion.Sample (manager)
open Composition.Sample (godeps home)

/-- A dependency of a project, for one operating system. -/
def named : Glide.Wanted where
  package := "x.io/pkg"
  repo := ""
  version := ""
  subpackages := []
  os := ["linux"]
  arch := []

/-- A dependency without a name. -/
def nameless : Glide.Wanted := { named with package := "", repo := "w.io/fork", os := [] }

/-- A configuration of glide with both. -/
def bothWanted : String := "import:\n- package: x.io/pkg\n  os: [linux]\n- repo: w.io/fork\n"

/-- The configuration and a file of godep. -/
def files : FileTree where
  nodes := .ofList [
    (["Godeps"], .directory), (["Godeps", "Godeps.json"], .file godeps.toUTF8),
    (["glide.yaml"], .file bothWanted.toUTF8)]

/-- What the configuration says. -/
def bothRead : ForeignReading :=
  .glide ⟨"", [], [], [named, nameless], []⟩ {}

/-- glide is refused, and with it the import of both tools, but not the import of godep alone. -/
theorem validated_before_converted_sample :
  (∃ row ∈ bothRead.rows, ∃ field, row.Lacks field
    ∧ ForeignTool.glide.importFrom files manager "/" home.projectRoot
      = ⟨.error (.missingField .glide row.file field), bothRead.warnings⟩)
  ∧ (∃ e, (importForeign files manager ["godep", "glide"] "/" home.projectRoot).result = .error e)
  ∧ ∃ result, (importForeign files manager ["godep"] "/" home.projectRoot).result = .ok result
  := by
  have hglide : ForeignTool.glide.read files "/" = .ok bothRead := by decide +kernel
  have hgodep : ForeignTool.godep.read files "/" = .ok (.godep [⟨"x.io/pkg", "1b8", ""⟩]) := by
    decide
  have hused : used files ["godep"] "/" = [.godep] := by decide
  have hincomplete : bothRead.Incomplete := by
    use nameless.row, by simp [ForeignReading.rows, bothRead, Glide.Config.wanted], "Name"
    apply List.mem_singleton_self
  obtain ⟨hbad, -, hall⟩ := validated_before_converted files "/"
  obtain ⟨⟨row, hrow, field, hfield, himport⟩, hforeign⟩ := hbad .glide bothRead hglide hincomplete
  refine ⟨⟨row, hrow, field, hfield, himport manager home.projectRoot⟩, ?_, ?_⟩
  · apply hforeign manager home.projectRoot _ (by simp [name])
  · rw [hall, hused]
    intro tool htool
    obtain rfl := List.mem_singleton.mp htool
    have hroot : manager.deduceRoot "x.io/pkg" = .ok Conversion.Sample.fork := by decide
    use .godep [⟨"x.io/pkg", "1b8", ""⟩], hgodep
    simp [ForeignReading.Incomplete, ForeignReading.Deduced, ForeignReading.rows, Godep.Dep.row,
      ForeignRow.Lacks, hroot]

end ForeignTool.Sample
end DepLock
