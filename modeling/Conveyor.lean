import Conveyor.Cache.Memory
import Conveyor.Main
import Conveyor.Pipeline.Builder
import Conveyor.Value.Whole
import Conveyor.Proofs.Cache.Naming
import Conveyor.Proofs.Cache.Scope
import Conveyor.Proofs.Effect
import Conveyor.Proofs.Files.Change
import Conveyor.Proofs.Table
import Conveyor.Proofs.Pipeline.Order
import Conveyor.Proofs.Trigger
import Conveyor.Proofs.Job.Conclusion
import Conveyor.Proofs.Run.Stages
import Conveyor.Proofs.Run.Schedule
import Conveyor.Proofs.Archive.Failure
import Conveyor.Proofs.Archive.Listing
import Conveyor.Proofs.Cache.Damage
import Conveyor.Proofs.Cache.Selection
import Conveyor.Proofs.Archive.Room
import Conveyor.Proofs.Cache.Unpack
import Conveyor.Proofs.Cache.History
import Conveyor.Proofs.Cache.Memory
import Conveyor.Proofs.Cache.LatestSave
import Conveyor.Proofs.Pipeline.Rules
import Conveyor.Proofs.Value.Merge
import Conveyor.Proofs.Pipeline.Template
import Conveyor.Proofs.Cache.Miss
import Conveyor.Proofs.Cache.Packing
import Conveyor.Proofs.Cache.SaveFailure
import Conveyor.Proofs.Cache.Overwrite
import Conveyor.Proofs.Cache.Return
import Conveyor.Proofs.Pipeline.Arrangement
import Conveyor.Proofs.Pipeline.Definition
import Conveyor.Proofs.Run.Report
import Conveyor.Proofs.Run.Retention
import Conveyor.Proofs.Job.Calls
import Conveyor.Proofs.Job.Lifecycle
import Conveyor.Proofs.Pipeline.Complaint
import Conveyor.Proofs.Pipeline.Append
import Conveyor.Proofs.Run.ExitCode
import Conveyor.Proofs.Run.Hits
import Conveyor.Proofs.Cache.Confinement
import Conveyor.Proofs.Cache.Agreement
import Conveyor.Proofs.Value.Marker
import Conveyor.Proofs.Run.Independence
import Conveyor.Proofs.Cache.Newest
import Conveyor.Proofs.Files.Growth
import Conveyor.Proofs.Job.Preparation
import Conveyor.Proofs.Job.Execution
import Conveyor.Proofs.Files.Addition
import Conveyor.Proofs.Cache.KeptName
import Conveyor.Proofs.Cache.Beside
import Conveyor.Proofs.Cache.FailedSave
import Conveyor.Proofs.Environment.Layers
import Conveyor.Proofs.Pipeline.SourceRule
import Conveyor.Proofs.Digest.Sha256
import Conveyor.Proofs.Cache.ContentKey
import Conveyor.Proofs.Pipeline.Setup
import Conveyor.Proofs.Pipeline.Commands
import Conveyor.Proofs.Pipeline.Base
