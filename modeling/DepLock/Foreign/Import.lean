import DepLock.Foreign.Govend
import DepLock.Foreign.Govendor

/-!
# Taking over the files of other tools

`ForeignTool.importFrom` converts the files of one tool, and `importForeign` those of every enabled
tool that has files in a directory: what a later tool says overlays what earlier ones say, and one
failure is the failure of the whole.
-/

namespace DepLock

namespace ForeignTool

/-- The path of the file that shows that a tool was used in a directory. -/
def configPath : ForeignTool → String → String
  | glide => Glide.configPath
  | godep => Godep.configPath
  | govend => Govend.configPath
  | govendor => Govendor.configPath

/-- Whether a tool has files in a directory. -/
def isUsedIn (tool : ForeignTool) (files : FileTree) (directory : String) : Bool :=
  files.isFile (tool.configPath directory)

/-- The import of the files of a tool in a directory. -/
def importFrom (tool : ForeignTool) (files : FileTree) (sm : SourceManager) (directory : String)
    (root : ProjectRoot) : Imported :=
  match tool with
  | glide => Glide.importFrom files sm directory root
  | godep => Godep.importFrom files sm directory
  | govend => Govend.importFrom files sm directory
  | govendor => Govendor.importFrom files sm directory root

/-- The message that the files of a tool are taken over. -/
def importMessage (tool : ForeignTool) : Message :=
  .status .importing s!"configuration from {tool.name}"

end ForeignTool

/-- A manifest and a lock overlaid with others, if there were any. -/
def overlayPair (base : Option (Manifest × Lock)) (overlay : Manifest × Lock) : Manifest × Lock :=
  match base with
  | none => overlay
  | some (m, l) => (m.merge overlay.1, l.merge overlay.2)

/-- How the import of the files of all tools went; without such files there is nothing. -/
structure ForeignImport where
  result : Except ImportError (Option (Manifest × Lock))
  log : Log := []

/-- The import of the files of some tools, over what was imported before. -/
def importTools (files : FileTree) (sm : SourceManager) (directory : String) (root : ProjectRoot) :
    List ForeignTool → Option (Manifest × Lock) → ForeignImport
  | [], sofar => ⟨.ok sofar, []⟩
  | tool :: tools, sofar =>
    let i := tool.importFrom files sm directory root
    let log := tool.importMessage :: i.log
    match i.result with
    | .error e => ⟨.error e, log⟩
    | .ok pair =>
      let rest := importTools files sm directory root tools (some (overlayPair sofar pair))
      ⟨rest.result, log ++ rest.log⟩

/-- The import of the files that enabled tools have in a directory. -/
def importForeign (files : FileTree) (sm : SourceManager) (enabled : List String)
    (directory : String) (root : ProjectRoot) : ForeignImport :=
  let tools := ForeignTool.all.filter fun tool =>
    tool.name ∈ enabled && tool.isUsedIn files directory
  importTools files sm directory root tools none

end DepLock
