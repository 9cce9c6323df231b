import DepLock.Config.File
import DepLock.Proofs.Files.Tree

/-!
# Which file decides a setting

The file of a project is to come before that of the user, and that before the defaults
(`Config.preferred`). Two configurations are merged when the defaults are filled in already, so a
project's file cannot bring a setting back to its default: where it tries, the user's file decides
(`FileTree.mergedConfig_decides`). That is the only exception, and the directory of the cache, which
has no default that could be set, knows none.
-/

namespace DepLock

namespace Config

/-! ### One setting -/

section Setting

variable {α : Type} {project user : Option α}

/-- The value of a setting for which the project's file comes first, and the user's file next. -/
def preferred (default : α) (project user : Option α) : α := (project.or user).getD default

/-- Whether the project's file sets to its default what the user's file sets to something else. -/
def Resets (default : α) (project user : Option α) : Prop :=
  project = some default ∧ user.getD default ≠ default

/-- Whether a setting has the value that is preferred, unless the project's file resets it, and then
that of the user's file. -/
structure Decides (default : α) (project user : Option α) (value : α) : Prop where
  preferred_iff : value = preferred default project user ↔ ¬ Resets default project user
  of_resets : Resets default project user → value = user.getD default

/-- What the project's file says gives way when it is the default. -/
theorem decides_ite [DecidableEq α] (default : α) (project user : Option α) :
  Decides default project user
    (if project.getD default = default then user.getD default else project.getD default)
  := by
  cases project with
  | none =>
    constructor
    · simp [preferred, Resets]
    · simp [Resets]
  | some v =>
    by_cases hv : v = default
    · constructor
      · simp [preferred, Resets, hv]
      · simp [hv]
    · constructor
      · simp [preferred, Resets, hv]
      · simp [Resets, hv]

end Setting

/-! ### Merging -/

/-- Over the defaults a configuration is itself. -/
theorem merge_default (c : Config) :
  ({} : Config).merge c = c
  := by
  have hpaths : (if c.searchPaths = [] then [] else c.searchPaths) = c.searchPaths := by
    split
    next h => exact h.symm
    next => rfl
  have htools : (if c.enabledTools = ({} : Config).enabledTools then ({} : Config).enabledTools
      else c.enabledTools) = c.enabledTools := by
    split
    next h => exact h.symm
    next => rfl
  have hcache : (c.cacheDirectory <|> none) = c.cacheDirectory := by
    cases c.cacheDirectory <;> rfl
  rw [merge, hpaths, htools, hcache, Bool.false_or]

/-- How the settings of a configuration file that is put over another one are decided. -/
theorem decides_merge (project user : ConfigRecord) :
  Decides [] project.searchPaths user.searchPaths
    (user.toConfig.merge project.toConfig).searchPaths
  ∧ Decides false project.isOffline user.isOffline
    (user.toConfig.merge project.toConfig).isOffline
  ∧ Decides ({} : Config).enabledTools project.enabledTools user.enabledTools
    (user.toConfig.merge project.toConfig).enabledTools
  ∧ (user.toConfig.merge project.toConfig).cacheDirectory
    = project.cacheDirectory.or user.cacheDirectory
  := by
  have hoffline : (user.isOffline.getD false || project.isOffline.getD false)
      = if project.isOffline.getD false = false then user.isOffline.getD false
        else project.isOffline.getD false := by
    cases project.isOffline.getD false <;> simp
  refine ⟨decides_ite _ _ _, ?_, decides_ite _ _ _, ?_⟩
  · change Decides false project.isOffline user.isOffline
      (user.isOffline.getD false || project.isOffline.getD false)
    rw [hoffline]
    exact decides_ite _ _ _
  · change (project.cacheDirectory <|> user.cacheDirectory) = _
    cases project.cacheDirectory <;> rfl

end Config

namespace FileTree

/-! ### Files -/

/-- What a configuration file says. A file that is missing or broken says nothing. -/
def configRecord (t : FileTree) (path : String) : ConfigRecord :=
  match t.readText path with
  | .error _ => {}
  | .ok text => ((Toml.parse? text).bind ConfigRecord.ofTable?).getD {}

theorem loadConfigOrDefault_eq (t : FileTree) (path : String) :
  t.loadConfigOrDefault path = (t.configRecord path).toConfig
  := by
  unfold loadConfigOrDefault loadConfig load configRecord Config.parse?
  cases t.readText path with
  | error fault => rfl
  | ok text =>
    simp only
    cases (Toml.parse? text).bind ConfigRecord.ofTable? with
    | none => rfl
    | some record => rfl

/-- What the user's configuration file says, if there is a home for it. -/
def userRecord (t : FileTree) (userPath : Option String) : ConfigRecord :=
  userPath.elim {} t.configRecord

theorem mergedConfig_eq (t : FileTree) (userPath : Option String) (projectPath : String) :
  t.mergedConfig userPath projectPath
    = (t.userRecord userPath).toConfig.merge (t.configRecord projectPath).toConfig
  := by
  cases userPath with
  | none =>
    rw [mergedConfig, loadConfigOrDefault_eq]
    rfl
  | some path =>
    simp only [mergedConfig, Config.merge_default, loadConfigOrDefault_eq]
    rfl

/-- The settings of a merged configuration are those of the project's file, or else those of the
user's file, or else the defaults, except that a project's file does not reset what the user's file
sets. -/
theorem mergedConfig_decides (t : FileTree) (userPath : Option String) (projectPath : String) :
  let user := t.userRecord userPath
  let project := t.configRecord projectPath
  let merged := t.mergedConfig userPath projectPath
  Config.Decides [] project.searchPaths user.searchPaths merged.searchPaths
  ∧ Config.Decides false project.isOffline user.isOffline merged.isOffline
  ∧ Config.Decides ({} : Config).enabledTools project.enabledTools user.enabledTools
    merged.enabledTools
  ∧ merged.cacheDirectory = project.cacheDirectory.or user.cacheDirectory
  := by
  intro user project merged
  have hmerged : merged = user.toConfig.merge project.toConfig :=
    t.mergedConfig_eq userPath projectPath
  rw [hmerged]
  exact Config.decides_merge project user

/-- A user who is offline, and a project that is not to be. -/
def reset : FileTree where
  nodes := .ofList [
    (["offline.toml"], .file "[net]\noffline = true\n".toUTF8),
    (["online.toml"], .file "[net]\noffline = false\n".toUTF8)]

/-- The project's file sets the setting, and the user's file decides it. -/
theorem isOffline_mergedConfig_reset :
  (reset.configRecord "/online.toml").isOffline = some false ∧
    (reset.mergedConfig (some "/offline.toml") "/online.toml").isOffline = true
  := by
  decide +kernel

end FileTree
end DepLock
