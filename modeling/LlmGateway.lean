import LlmGateway.Lib.Run
import LlmGateway.Lib.Table
import LlmGateway.Lib.JsMap
import LlmGateway.Lib.IsoTime
import LlmGateway.Limiter.Model
import LlmGateway.Limiter.Accounting
import LlmGateway.Limiter.Fairness
import LlmGateway.Recorder.Model
import LlmGateway.Recorder.Thinking
import LlmGateway.Recorder.MergeFence
import LlmGateway.Lib.JsText
import LlmGateway.Lib.Json
import LlmGateway.JobStore.Sqlite
import LlmGateway.JobStore.JobRows
import LlmGateway.JobStore.Lifecycle
import LlmGateway.JobStore.Lease
import LlmGateway.JobStore.KitFence
import LlmGateway.JobStore.ValidationRows
import LlmGateway.JobStore.ReverseIndex
import LlmGateway.JobStore.Retention
import LlmGateway.JobStore.Memory
import LlmGateway.JobStore.Refinement
import LlmGateway.Lib.Substring
import LlmGateway.Manager.ResultPage
import LlmGateway.JobStore.Capture
import LlmGateway.Manager.RequestKey
import LlmGateway.Manager.OutputChains
import LlmGateway.Lib.Utf16
import LlmGateway.Sessions.Lock
import LlmGateway.Sessions.LockInvariant
import LlmGateway.Sessions.LockSafety
import LlmGateway.Limiter.Callers
import LlmGateway.Manager.JobSlots
import LlmGateway.Manager.SlotOwners
import LlmGateway.Manager.Admission
import LlmGateway.Manager.JobLife
import LlmGateway.Manager.SlotReturn
import LlmGateway.Sessions.Kit
import LlmGateway.Sessions.Rows
import LlmGateway.Sessions.FileStore
import LlmGateway.Sessions.FileMoves
import LlmGateway.Sessions.AttemptLease
import LlmGateway.Sessions.FileReadable
import LlmGateway.Router.Pricing
import LlmGateway.Router.Selector
import LlmGateway.Router.Selection
import LlmGateway.Storage.PgTransaction
import LlmGateway.Acp.Transport
import LlmGateway.Lib.Lines
import LlmGateway.Acp.Protocol
import LlmGateway.Storage.SqliteEngine
import LlmGateway.Storage.SqliteDriver
import LlmGateway.Storage.SqliteQueue
import LlmGateway.Storage.SqliteTransaction
import LlmGateway.Storage.SqliteHandles
import LlmGateway.Lib.Regex
import LlmGateway.Lib.JsString
import LlmGateway.Validation.Normalizer
import LlmGateway.Validation.Report
import LlmGateway.Validation.ReportSchema
import LlmGateway.Validation.Receipt
import LlmGateway.Validation.Evidence
import LlmGateway.Validation.Envelope
import LlmGateway.Validation.Mints
import LlmGateway.Lib.Schema
import LlmGateway.Retry
import LlmGateway.Acp.Process
import LlmGateway.OAuth.Server
import LlmGateway.OAuth.Flow
import LlmGateway.JobStore.Reaper
import LlmGateway.JobStore.ReaperSafety
import LlmGateway.Kit.Lock
import LlmGateway.Kit.Freshness
import LlmGateway.Worktrees.Adoption
import LlmGateway.Worktrees.AdoptionSafety
import LlmGateway.Compressor.Fences
import LlmGateway.Compressor.Json
import LlmGateway.Compressor.Ansi
import LlmGateway.Compressor.Compact
import LlmGateway.Compressor.Decode
import LlmGateway.Compressor.Lines
import LlmGateway.Compressor.Markers
import LlmGateway.Router.CostLaws
import LlmGateway.Lib.StableSort
import LlmGateway.Router.PerTier
import LlmGateway.Router.OrderFree
import LlmGateway.JobStore.KitFinalization
import LlmGateway.Lib.Grouping
import LlmGateway.Lib.Percentile
import LlmGateway.Router.Priors
import LlmGateway.Router.PriorsScope
import LlmGateway.Surface.Laws
import LlmGateway.Surface.Resolution
import LlmGateway.Lib.History
import LlmGateway.Lib.Counting
import LlmGateway.Http.Sessions
import LlmGateway.Acp.Client
import LlmGateway.Acp.ClientSafety
import LlmGateway.Surface.Merge
import LlmGateway.Http.SessionSafety
import LlmGateway.Lib.PosixPath
import LlmGateway.Lib.FileTree
import LlmGateway.Storage.Placeholders
import LlmGateway.Lib.CodePoint
import LlmGateway.Storage.LogField
import LlmGateway.Lib.JsonText
import LlmGateway.Compressor.JsonGrammar
import LlmGateway.Executor.RunOnce
import LlmGateway.Executor.RunOnceSafety
import LlmGateway.Compressor.Sequences
import LlmGateway.Compressor.Terminal
import LlmGateway.Review.Markup
import LlmGateway.Review.Spans
import LlmGateway.Review.Sentences
import LlmGateway.JobStore.Types
import LlmGateway.JobStore.Validation
import LlmGateway.Lib.ByteLength
import LlmGateway.Lib.JsNumber
import LlmGateway.Lib.JsValue
import LlmGateway.Lib.Latest
import LlmGateway.Lib.Numeral
import LlmGateway.Lib.Utf8
import LlmGateway.Progress.Chunks
import LlmGateway.Progress.Messages
import LlmGateway.Progress.ReadBack
import LlmGateway.Progress.Signals
import LlmGateway.Progress.Stored
import LlmGateway.Progress.Tracker
import LlmGateway.Lib.CommandLine
import LlmGateway.Lib.JsWidth
import LlmGateway.Executor.WindowsCmd
import LlmGateway.Executor.InputLimits
import LlmGateway.Executor.InputLimitsSafety
import LlmGateway.Workspace.Registry
import LlmGateway.Workspace.Confinement
import LlmGateway.Kit.Context
import LlmGateway.Kit.ContextSafety
import LlmGateway.Kit.Release
import LlmGateway.Kit.ReleaseSafety
import LlmGateway.Review.SpecialEntries
import LlmGateway.Review.SpecialEntriesSafety
import LlmGateway.Review.Status
import LlmGateway.Review.ScopePlan
import LlmGateway.Review.ScopePlanSafety
import LlmGateway.Replay.Context
import LlmGateway.Replay.ReadBack
import LlmGateway.Upstream.Contracts
import LlmGateway.Upstream.ArgsGate
import LlmGateway.Upstream.ArgsGrammar
import LlmGateway.Upstream.ArgsGateSafety
import LlmGateway.Lib.PromiseChain
import LlmGateway.Storage.RetentionSweeper
import LlmGateway.Lib.JsOrder
import LlmGateway.Validation.Canonical
import LlmGateway.Recorder.FlightOwnership
import LlmGateway.Lib.Utf8Chunks
import LlmGateway.Manager.OutputCapture
import LlmGateway.Manager.DurableAdmission
import LlmGateway.Http.PostJson
import LlmGateway.Lib.Trim
import LlmGateway.Help.Parser
import LlmGateway.Help.Declared
import LlmGateway.Help.Values
import LlmGateway.Help.ParserSafety
import LlmGateway.Lib.Replace
import LlmGateway.Acp.Redaction
import LlmGateway.Acp.RedactionSafety
import LlmGateway.OAuth.Bearer
import LlmGateway.JobStore.Provenance
import LlmGateway.Storage.Migrate
import LlmGateway.Sessions.Tombstones
