import UsageDb.Lib.Word
import UsageDb.Lib.Saturating
import UsageDb.Lib.Transition
import UsageDb.Lib.Gregorian
import UsageDb.Lib.Keyed
import UsageDb.Lib.Lines
import UsageDb.Lib.Bincode
import UsageDb.Lib.Decimal
import UsageDb.Lib.Parse
import UsageDb.Lib.Encodings
import UsageDb.Model.Event
import UsageDb.Model.Extern
import UsageDb.Storage.Manifest
import UsageDb.Storage.Generations
import UsageDb.Storage.SegmentFormat
import UsageDb.Storage.SegmentRoundTrip
import UsageDb.Storage.DedupeIndex
import UsageDb.Storage.SegmentTotal
import UsageDb.Storage.SegmentLimits
import UsageDb.Storage.Varints
import UsageDb.Ingest.Dedupe
import UsageDb.Ingest.Retention
import UsageDb.Ingest.Splitting
import UsageDb.Ingest.Memtable
import UsageDb.Ingest.Wal
import UsageDb.Ingest.WalFile
import UsageDb.Ingest.TornLog
import UsageDb.Ingest.Pieces
import UsageDb.Rollup.Builder
import UsageDb.Rollup.GroupBy
import UsageDb.Runtime.State
import UsageDb.Ingest.Ingest
import UsageDb.Ingest.Flusher
import UsageDb.Query.Executor
import UsageDb.Query.Sql
import UsageDb.Rollup.Worker
import UsageDb.Compact.Worker
import UsageDb.Api.Membership
import UsageDb.Api.Period
import UsageDb.Runtime.Recovery
import UsageDb.Runtime.System
import UsageDb.Runtime.Invariant
import UsageDb.Runtime.Preserve
import UsageDb.Runtime.Frame
import UsageDb.Runtime.Commits
import UsageDb.Runtime.Names
import UsageDb.Runtime.EvictionOrder
import UsageDb.Compact.Merge
import UsageDb.Runtime.Fault
import UsageDb.Runtime.FailedFlush
import UsageDb.Runtime.InFlight
import UsageDb.Runtime.FailedRotate
import UsageDb.Runtime.FailedSave
import UsageDb.Runtime.ByteLog
import UsageDb.Runtime.FailedAppend
import UsageDb.Runtime.RecoveredCache
import UsageDb.Runtime.Saves
import UsageDb.Runtime.Rollback
import UsageDb.Runtime.Files
import UsageDb.Compact.Reencode
import UsageDb.Runtime.Sidecars
import UsageDb.Query.Where
import UsageDb.Query.Strict
import UsageDb.Query.RollupRaw
import UsageDb.Query.Layout
import UsageDb.Query.Pruning
import UsageDb.Rollup.File
import UsageDb.Rollup.OldLayout
import UsageDb.Rollup.Coverage
import UsageDb.Rollup.Rebuild
import UsageDb.Rollup.Lineage
import UsageDb.Rollup.Reference
import UsageDb.Rollup.Progress
import UsageDb.Compact.Garbage
import UsageDb.Query.Adjacent
import UsageDb.Api.Audit
import UsageDb.Api.NetTotal
import UsageDb.Concurrent.Machine
import UsageDb.Concurrent.Durability
import UsageDb.Concurrent.Watermark
import UsageDb.Concurrent.Close
import UsageDb.Concurrent.Workers
import UsageDb.Concurrent.Shutdown
import UsageDb.Concurrent.CompactionSafety
import UsageDb.Concurrent.Accounting
import UsageDb.Concurrent.Visibility
import UsageDb.Concurrent.Grace
import UsageDb.Concurrent.Snapshot
import UsageDb.Concurrent.Periods
import UsageDb.Refine.Ledger
import UsageDb.Refine.Classify
import UsageDb.Refine.Store
import UsageDb.Refine.Retry
