import DepLock.Foreign.Conversion
import DepLock.Proofs.Manifest.Inferred
import DepLock.Proofs.Version
import DepLock.Solve.Selection

/-!
# Versions listed in another order

What is found among the versions of a project does not depend on the order in which they are listed,
as long as they are distinguished by class and name.
-/

namespace DepLock

variable {vs vs' : List Version}

namespace Inference

end Inference

namespace SourceManager

variable {sm sm' : SourceManager} {id : ProjectId}

end SourceManager

namespace Version

namespace Sample

/-- Versions of all classes, two of them of equal precedence. -/
def listing : List Version := [
  .paired (.ofTag "v1.2.0") ⟨"ff2948a2ac8f538c4ecd55962e919d1e13e74baf"⟩, .named (.ofTag "1.2.0"),
  .paired (.branch "master" true) ⟨"436f39d"⟩, .named (.branch "develop" false),
  .paired (.ofTag "stable") ⟨"436f39d"⟩, .bare ⟨"stable"⟩]

end Sample

end Version
end DepLock
