import Fragma.Posix.PurePath
import Fragma.Replay.Mapper
import Fragma.Replay.Identity
import Fragma.Scan.Machine
import Fragma.Provenance.Comments
import Fragma.Provenance.Target
import Fragma.Python.Value
import Fragma.Python.Exn
import Fragma.Python.Text
import Fragma.Report.Goals
import Fragma.Report.Issues
import Fragma.Report.Rows
import Fragma.Report.Reviews
import Fragma.Report.Native
import Fragma.Report.Evaluate
import Fragma.Report.Gates
import Fragma.Report.Soundness
import Fragma.Report.Refutation
import Fragma.Keyed.Sweep
import Fragma.Report.Companions
import Fragma.Suite.Integrity
import Fragma.Keyed.Timeline
import Fragma.Python.Product
import Fragma.Concurrency.BoundedProgress
import Fragma.Provenance.Definition
import Fragma.Provenance.FixedPoint
import Fragma.Python.Lines
import Fragma.Replay.Linemarkers
import Fragma.Replay.Misled
import Fragma.Suite.Approval
import Fragma.Suite.Command
import Fragma.Analysis.Neutral
import Fragma.Suite.Acceptance
import Fragma.Concurrency.Comparison
import Fragma.Suite.Selection
import Fragma.Replay.Compare
import Fragma.Replay.Inventory
import Fragma.Report.Import
import Fragma.Report.Waivers
import Fragma.Python.Raises
import Fragma.Report.Diagnostics
import Fragma.Report.Aborts
import Fragma.Coverage.Models
import Fragma.Coverage.Admission
import Fragma.Suite.Merging
import Fragma.Concurrency.Ordered
import Fragma.Python.Pattern
import Fragma.Concurrency.Locksets
import Fragma.Concurrency.RaceSections
import Fragma.Concurrency.Evidence
import Fragma.Dependency.ReadBack
import Fragma.Concurrency.Herd
import Fragma.Elf.Layout
import Fragma.Common24.Policy
import Fragma.Coverage.Latest
