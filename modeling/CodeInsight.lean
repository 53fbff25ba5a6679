import CodeInsight.Analysis.Encoding
import CodeInsight.Analysis.Intent
import CodeInsight.Analysis.Measure
import CodeInsight.Analysis.Pipeline
import CodeInsight.Analysis.Thresholds
import CodeInsight.Bus.Channel
import CodeInsight.Bus.Encoding
import CodeInsight.Bus.Event
import CodeInsight.Bus.Registry
import CodeInsight.Command.Arguments
import CodeInsight.Command.Printing
import CodeInsight.Command.Run
import CodeInsight.Config.Load
import CodeInsight.Config.Settings
import CodeInsight.Config.Toml
import CodeInsight.Config.TomlReader
import CodeInsight.Engine.Cache
import CodeInsight.Engine.Calls
import CodeInsight.Engine.Fault
import CodeInsight.Engine.Queue
import CodeInsight.Engine.State
import CodeInsight.Engine.Step
import CodeInsight.Engine.Task
import CodeInsight.Engine.Timetable
import CodeInsight.Engine.Worker
import CodeInsight.Files.Access
import CodeInsight.Files.Fault
import CodeInsight.Files.FileStore
import CodeInsight.Files.Resolve
import CodeInsight.Files.Sources
import CodeInsight.Files.Tree
import CodeInsight.Ignore.Glob
import CodeInsight.Ignore.Levels
import CodeInsight.Ignore.Rules
import CodeInsight.Ignore.Walk
import CodeInsight.Insight.Encoding
import CodeInsight.Insight.Finding
import CodeInsight.Insight.Identity
import CodeInsight.Insight.Insight
import CodeInsight.Json.Basic
import CodeInsight.Json.Decode
import CodeInsight.Json.Printer
import CodeInsight.Json.Reader
import CodeInsight.Json.Text
import CodeInsight.Log
import CodeInsight.Main
import CodeInsight.Number.Binary
import CodeInsight.Number.Literal
import CodeInsight.Number.Power
import CodeInsight.Number.Shortest
import CodeInsight.Path
import CodeInsight.Source.Declaration
import CodeInsight.Source.Encoding
import CodeInsight.Source.Extent
import CodeInsight.Source.Import
import CodeInsight.Source.Language
import CodeInsight.Source.Outline
import CodeInsight.Source.Symbol
import CodeInsight.Store.DataDirectory
import CodeInsight.Store.Digest
import CodeInsight.Store.Fault
import CodeInsight.Store.InsightStore
import CodeInsight.Store.Record
import CodeInsight.Store.RecordStore
import CodeInsight.Table
import CodeInsight.Text.Blank
import CodeInsight.Text.Cursor
import CodeInsight.Text.Graphic
import CodeInsight.Text.Lines
import CodeInsight.Text.Pattern
import CodeInsight.Text.Pieces
import CodeInsight.Text.Quoted
import CodeInsight.Text.Ranges
import CodeInsight.Text.Uppercase
import CodeInsight.Text.Word
import CodeInsight.Time.Calendar
import CodeInsight.Time.Format
import CodeInsight.Time.Instant
import CodeInsight.Time.Reader
import CodeInsight.Time.Span
import CodeInsight.Proofs.Engine.Run
import CodeInsight.Proofs.Engine.Effect
import CodeInsight.Proofs.Engine.Asides
import CodeInsight.Proofs.Engine.Hands
import CodeInsight.Proofs.Time.Order
import CodeInsight.Proofs.Time.Calendar
import CodeInsight.Proofs.Time.Text
import CodeInsight.Proofs.Number.Digits
import CodeInsight.Proofs.Json.Reading
import CodeInsight.Proofs.Json.Decoding
import CodeInsight.Proofs.Files.Encoding
import CodeInsight.Proofs.Insight.Encoding
import CodeInsight.Proofs.Store.Kept
import CodeInsight.Proofs.Queue.History
import CodeInsight.Proofs.Queue.Identities
import CodeInsight.Proofs.Engine.Accounts
import CodeInsight.Proofs.Engine.Telling
import CodeInsight.Proofs.Engine.Stream
import CodeInsight.Proofs.Engine.Situations
import CodeInsight.Proofs.Engine.Entries
import CodeInsight.Proofs.Engine.Course
import CodeInsight.Proofs.Engine.Barrier
import CodeInsight.Proofs.Engine.LoadOrder
import CodeInsight.Proofs.Engine.Latest
import CodeInsight.Proofs.Bus.Channel
import CodeInsight.Proofs.Engine.Outward
import CodeInsight.Proofs.Engine.Files
import CodeInsight.Proofs.Command.Progress
import CodeInsight.Proofs.Command.Start
import CodeInsight.Proofs.Command.Printing
import CodeInsight.Proofs.Command.Lagging
import CodeInsight.Proofs.Bus.Delivery
import CodeInsight.Proofs.Text.Matching
import CodeInsight.Proofs.Text.Lines
import CodeInsight.Proofs.Source.Declared
import CodeInsight.Proofs.Source.Extents
import CodeInsight.Proofs.Source.Signatures
import CodeInsight.Proofs.Analysis.Parameters
import CodeInsight.Proofs.Analysis.Messages
import CodeInsight.Proofs.Analysis.Lengths
import CodeInsight.Proofs.Json.Formats
import CodeInsight.Proofs.Store.Filing
import CodeInsight.Proofs.Store.Histories
import CodeInsight.Proofs.Engine.Shutdown
import CodeInsight.Proofs.Engine.Concluding
import CodeInsight.Proofs.Engine.Status
import CodeInsight.Proofs.Engine.Lives
import CodeInsight.Proofs.Engine.Stopping
import CodeInsight.Proofs.Engine.Breakdown
import CodeInsight.Proofs.Command.ReadBack
import CodeInsight.Proofs.Engine.Jobs
import CodeInsight.Proofs.Store.Steps
import CodeInsight.Proofs.Store.Unfinished
import CodeInsight.Proofs.Store.Overlapping
import CodeInsight.Proofs.Source.Openings
import CodeInsight.Proofs.Source.Locations
import CodeInsight.Proofs.Text.Returns
import CodeInsight.Proofs.Source.LineEnds
import CodeInsight.Proofs.Analysis.LineEnds
import CodeInsight.Proofs.Source.Names
import CodeInsight.Proofs.Bus.Registrations
import CodeInsight.Proofs.Engine.Waking
import CodeInsight.Proofs.Engine.Findings
import CodeInsight.Proofs.Engine.AnyOrder
import CodeInsight.Proofs.Text.Slices
import CodeInsight.Proofs.Text.Runs
import CodeInsight.Proofs.Source.Counters
import CodeInsight.Proofs.Source.Blocks
import CodeInsight.Proofs.Analysis.Nesting
import CodeInsight.Proofs.Analysis.Complexity
import CodeInsight.Proofs.Text.Windows
import CodeInsight.Proofs.Analysis.Intents
import CodeInsight.Proofs.Analysis.Spans
import CodeInsight.Proofs.Analysis.ParameterLists
import CodeInsight.Proofs.Files.Canonical
import CodeInsight.Proofs.Files.Collected
import CodeInsight.Proofs.Text.Searches
import CodeInsight.Proofs.Source.Imports
