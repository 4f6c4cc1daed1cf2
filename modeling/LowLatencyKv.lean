import LowLatencyKv.Rust.Outcome
import LowLatencyKv.Rust.Bytes
import LowLatencyKv.Store.Record
import LowLatencyKv.Tables.SlotTable
import LowLatencyKv.Store.Header
import LowLatencyKv.Store.Mphf
import LowLatencyKv.Store.KvStore
import LowLatencyKv.Store.Contents
import LowLatencyKv.Store.ListIndex
import LowLatencyKv.Store.Safety
import LowLatencyKv.Store.Footprint
import LowLatencyKv.Builder.Build
import LowLatencyKv.Builder.Layout
import LowLatencyKv.Builder.ReadBack
import LowLatencyKv.Builder.Failure
import LowLatencyKv.Builder.RoundTrip
import LowLatencyKv.Builder.Import
import LowLatencyKv.Builder.Damage
import LowLatencyKv.Builder.HeaderDamage
import LowLatencyKv.Builder.Truncation
import LowLatencyKv.Builder.RecordDamage
import LowLatencyKv.Tables.LastWins
import LowLatencyKv.Builder.Additions
import LowLatencyKv.Builder.Random
import LowLatencyKv.Builder.Rebuild
import LowLatencyKv.Builder.Info
import LowLatencyKv.Concurrency.Pool
import LowLatencyKv.Server.Service
import LowLatencyKv.Server.Reload
import LowLatencyKv.Builder.AnyIndex
import LowLatencyKv.Builder.Checksum
import LowLatencyKv.Concurrency.Totals
import LowLatencyKv.Concurrency.Shared
import LowLatencyKv.Concurrency.Atomic
import LowLatencyKv.Concurrency.Progress
import LowLatencyKv.Concurrency.Isolation
import LowLatencyKv.Server.Counters
import LowLatencyKv.Server.Hits
import LowLatencyKv.Server.Batch
import LowLatencyKv.Builder.Csv
import LowLatencyKv.Builder.TestSnapshot
import LowLatencyKv.Rust.Tiles
import LowLatencyKv.Builder.Scatter
import LowLatencyKv.Rust.Str
import LowLatencyKv.Validator.Hex
import LowLatencyKv.Validator.Verify
import LowLatencyKv.Validator.Check
import LowLatencyKv.Validator.Bench
import LowLatencyKv.Tables.MapDiff
import LowLatencyKv.Validator.Diff
import LowLatencyKv.Validator.DiffDamage
import LowLatencyKv.Validator.DiffListing
import LowLatencyKv.Validator.HexGrammar
import LowLatencyKv.Builder.Validate
import LowLatencyKv.Validator.Tools
import LowLatencyKv.Server.Scrape
import LowLatencyKv.Server.Versions
import LowLatencyKv.Server.Drain
import LowLatencyKv.Server.Startup
import LowLatencyKv.Server.Panics
