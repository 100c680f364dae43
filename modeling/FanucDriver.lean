import FanucDriver.Lib.Overlay
import FanucDriver.Lib.Json
import FanucDriver.Lib.Record
import FanucDriver.Lib.Transducer
import FanucDriver.Driver.DeltaStreams
import FanucDriver.Driver.Programs
import FanucDriver.Driver.Delivery
import FanucDriver.Driver.Serialize
import FanucDriver.Driver.Ownership
import FanucDriver.Driver.Triggers
import FanucDriver.Driver.Numbers
import FanucDriver.Driver.Uploads
import FanucDriver.Driver.Freshness
import FanucDriver.Streams.Acceptance
import FanucDriver.Streams.Convert
import FanucDriver.Streams.Staging
import FanucDriver.Streams.Parts
import FanucDriver.Queries.Executions
import FanucDriver.Monitor.Converge
import FanucDriver.Monitor.Doomed
import FanucDriver.Monitor.Table
import FanucDriver.Monitor.Notify
import FanucDriver.Monitor.Shutdown
import FanucDriver.Monitor.StatusTrace
import FanucDriver.Driver.Memory.Contents
import FanucDriver.Driver.Memory.Header
import FanucDriver.Driver.Memory.Block
import FanucDriver.Driver.Messages
import FanucDriver.Streams.Dedup
import FanucDriver.Streams.Sessions
import FanucDriver.Monitor.StatusTable
import FanucDriver.Lib.Buckets
import FanucDriver.Queries.Distribution
import FanucDriver.Queries.Durations
import FanucDriver.Driver.Pacing
import FanucDriver.Driver.Failures
import FanucDriver.Driver.InfoStream
import FanucDriver.Queries.HalfHours
import FanucDriver.Queries.History
import FanucDriver.Queries.Totals
import FanucDriver.Queries.ProgramParts
import FanucDriver.Queries.ActiveTime
import FanucDriver.Queries.RecentActivity
import FanucDriver.Queries.MachineCounts
import FanucDriver.Driver.Config
import FanucDriver.Debug.Loaders
import FanucDriver.Monitor.Probes
import FanucDriver.Monitor.Updates
import FanucDriver.Debug.Batches
import FanucDriver.Debug.Checks
import FanucDriver.Debug.Dump
import FanucDriver.Driver.Lives
import FanucDriver.Streams.Pipeline
import FanucDriver.Monitor.Supervised
import FanucDriver.Driver.Memory.Records
import FanucDriver.Monitor.Devices
