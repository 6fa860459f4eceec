import HugeGraphValidation.Lib.Counts
import HugeGraphValidation.Lib.Cursor
import HugeGraphValidation.Lib.Dict
import HugeGraphValidation.Lib.Generator
import HugeGraphValidation.Lib.Keyed
import HugeGraphValidation.Lib.Lines
import HugeGraphValidation.Lib.Numerals
import HugeGraphValidation.Lib.Orders
import HugeGraphValidation.Lib.Rounds
import HugeGraphValidation.Lib.Runs
import HugeGraphValidation.Lib.Scan
import HugeGraphValidation.Lib.Slices
import HugeGraphValidation.Lib.Text
import HugeGraphValidation.Lib.Threads
import HugeGraphValidation.Lib.Windows
import HugeGraphValidation.Lib.WorkQueue
import HugeGraphValidation.Lib.Worst
import HugeGraphValidation.Paging.Fetch
import HugeGraphValidation.Paging.Probe
import HugeGraphValidation.Paging.Tiling
import HugeGraphValidation.Paging.Unpatched
import HugeGraphValidation.StoreClient.Commit
import HugeGraphValidation.StoreClient.CommitSessions
import HugeGraphValidation.StoreClient.Interrupt
import HugeGraphValidation.StoreClient.ParallelCommit
import HugeGraphValidation.StoreClient.Retry
import HugeGraphValidation.StoreClient.RetryPolicy
import HugeGraphValidation.StoreClient.RetryUnpatched
import HugeGraphValidation.StoreClient.Throwable
import HugeGraphValidation.Suite.Compare
import HugeGraphValidation.Suite.Derived
import HugeGraphValidation.Suite.Expect
import HugeGraphValidation.Suite.Plan
import HugeGraphValidation.Suite.Record
import HugeGraphValidation.Suite.Report
import HugeGraphValidation.Suite.Verdict
import HugeGraphValidation.Suite.Walk
import HugeGraphValidation.Faults.Battery
import HugeGraphValidation.Faults.DiskFull
import HugeGraphValidation.Faults.Load
import HugeGraphValidation.Faults.LoadSummary
import HugeGraphValidation.Faults.RatePosts
import HugeGraphValidation.Faults.Readiness
import HugeGraphValidation.Faults.ReproRate
import HugeGraphValidation.Faults.Setup
import HugeGraphValidation.Faults.SnapshotRace
import HugeGraphValidation.Faults.StoresZero
import HugeGraphValidation.Faults.Transitions
import HugeGraphValidation.Faults.Verify
import HugeGraphValidation.Faults.Writers
import HugeGraphValidation.Bench.Decimal
import HugeGraphValidation.Bench.DecimalText
import HugeGraphValidation.Bench.DiskSplit
import HugeGraphValidation.Bench.GraphSON
import HugeGraphValidation.Bench.GremlinChecks
import HugeGraphValidation.Bench.Index
import HugeGraphValidation.Bench.Losses
import HugeGraphValidation.Bench.Precision
import HugeGraphValidation.Bench.ReadBack
import HugeGraphValidation.Bench.SameChunk
