import DepLock.Foreign.Entry

/-!
# Configuration

A configuration says where checkouts are searched for, whether the network may be used, from which
tools files are taken over, and where sources are cached. `Config.merge` puts one over another, where
a setting that is as by default gives way.
-/

namespace DepLock

/-- The settings. -/
structure Config where
  searchPaths : List String := []
  isOffline : Bool := false
  enabledTools : List String := ForeignTool.all.map (·.name)
  cacheDirectory : Option String := none
  deriving DecidableEq, Repr, Inhabited

namespace Config

/-- Whether the files of a tool are taken over. -/
def enables (c : Config) (tool : String) : Bool := tool ∈ c.enabledTools

/-- The settings of the overlay, and those of the base where the overlay's are as by default. -/
def merge (base overlay : Config) : Config where
  searchPaths := if overlay.searchPaths = [] then base.searchPaths else overlay.searchPaths
  isOffline := base.isOffline || overlay.isOffline
  enabledTools :=
    if overlay.enabledTools = ({} : Config).enabledTools then base.enabledTools
    else overlay.enabledTools
  cacheDirectory := overlay.cacheDirectory <|> base.cacheDirectory

end Config
end DepLock
