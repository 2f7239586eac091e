import Ridstore.RecordLog.SegmentScan
import Ridstore.RecordLog.QueuedBytes
import Ridstore.Mapping.Serial
import Ridstore.Mapping.RootOwners
import Ridstore.Commit.RedirectSafety
import Ridstore.Commit.OutcomeSafety
import Ridstore.StoreCatalog.ManifestSlots
import Ridstore.StoreCatalog.CatalogSafety
import Ridstore.MapStore.RotationSafety
import Ridstore.RecordCodec.GroupWire
import Ridstore.Replay.Proposals
import Ridstore.Engine.CheckpointStats
import Ridstore.Engine.Lifetimes
import Ridstore.Engine.StatusWindowSafety
import Ridstore.Engine.SpaceGate
import Ridstore.Engine.GCPacer
import Ridstore.Engine.StatusRetention
import Ridstore.Engine.Get
import Ridstore.Engine.SchedulerLeases
import Ridstore.Engine.CheckpointCoverage
