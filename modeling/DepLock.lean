import DepLock.Checkouts
import DepLock.Main
import DepLock.Proofs.Package.Reach
import DepLock.Proofs.ProjectRoot
import DepLock.Proofs.Lock.Basic
import DepLock.Proofs.Solve.Selection
import DepLock.Proofs.Solve.Step
import DepLock.Source.Table
import DepLock.Proofs.Solve.Invariant
import DepLock.Proofs.Solve.Solution
import DepLock.Proofs.Solve.Rules
import DepLock.Proofs.Solve.Imports
import DepLock.Proofs.Discovery.Sound
import DepLock.Proofs.Discovery.Coverage
import DepLock.Proofs.Discovery.Data
import DepLock.Proofs.Discovery.Consistent
import DepLock.Proofs.Discovery.Classify
import DepLock.Proofs.Discovery.Entry
import DepLock.Proofs.Discovery.Underway
import DepLock.Proofs.Discovery.Explored
import DepLock.Proofs.Discovery.Findings
import DepLock.Proofs.Discovery.Nesting
import DepLock.Proofs.Discovery.Success
import DepLock.Proofs.Discovery.Reordering
import DepLock.Proofs.Solve.Relock
import DepLock.Proofs.SemVer.Wellformed
import DepLock.Proofs.SemVer.Render
import DepLock.Proofs.Constraint
import DepLock.Proofs.Manifest.Record
import DepLock.Proofs.Manifest.Inferred
import DepLock.Proofs.Digest.InputStream
import DepLock.Proofs.Solve.Memo
import DepLock.Proofs.Files.Tree
import DepLock.Proofs.Lock.Record
import DepLock.Proofs.Foreign.Wellformed
import DepLock.Proofs.Setup.Stages
import DepLock.Proofs.Setup.Memo
import DepLock.Proofs.Lock.Operations
import DepLock.Proofs.Foreign.Consistent
import DepLock.Proofs.Manifest.Parsed
import DepLock.Proofs.Solve.Required
import DepLock.Proofs.Solve.Excluded
import DepLock.Proofs.Solve.Origin
import DepLock.Proofs.Source.Deduction
import DepLock.Proofs.Lock.Merge
import DepLock.Proofs.Lock.History
import DepLock.Proofs.Manifest.Merge
import DepLock.Proofs.Foreign.Composition
import DepLock.Proofs.Foreign.Validation
import DepLock.Proofs.Package.Search
import DepLock.Proofs.Package.Declarations
import DepLock.Proofs.Solve.Declarations
import DepLock.Proofs.SemVer.Order
import DepLock.Proofs.Version
import DepLock.Proofs.Source.Wellformed
import DepLock.Proofs.Source.Relisted
import DepLock.Proofs.Solve.Kept
import DepLock.Proofs.Solve.Preference
import DepLock.Proofs.Package.Closure
import DepLock.Proofs.Discovery.Start
import DepLock.Proofs.Setup.Failure
import DepLock.Proofs.Package.Removal
import DepLock.Proofs.Source.Revision
import DepLock.Proofs.Tag
import DepLock.Proofs.Foreign.Consolidation
import DepLock.Proofs.Setup.Reconciled
import DepLock.Proofs.Source.Ownership
import DepLock.Proofs.Foreign.Unreachable
import DepLock.Proofs.Package.SourceText
import DepLock.Proofs.Foreign.DefaultSource
import DepLock.Proofs.Foreign.IgnoreList
import DepLock.Proofs.RangeText
import DepLock.Proofs.Discovery.Dispatch
import DepLock.Proofs.Config.Precedence
import DepLock.Proofs.Digest.Headings
import DepLock.Proofs.Solve.Queueing
import DepLock.Proofs.Solve.Ending
import DepLock.Proofs.Discovery.Calls
import DepLock.Proofs.Discovery.Expansion
import DepLock.Proofs.SemVer.Precedence
import DepLock.Proofs.Upgrade
