import StyleBatch.Address
import StyleBatch.Batch
import StyleBatch.Bytes
import StyleBatch.Cache
import StyleBatch.Command
import StyleBatch.CommandLine
import StyleBatch.CommandLine.Arguments
import StyleBatch.Compiler
import StyleBatch.Config
import StyleBatch.Config.File
import StyleBatch.Config.Sources
import StyleBatch.Digest
import StyleBatch.Directive
import StyleBatch.Directive.Bytewise
import StyleBatch.Directive.Splice
import StyleBatch.Disk
import StyleBatch.Entries
import StyleBatch.Event
import StyleBatch.Event.Log
import StyleBatch.Event.Trace
import StyleBatch.Fault
import StyleBatch.Ignore.Glob
import StyleBatch.Ignore.Glob.Reader
import StyleBatch.Ignore.Levels
import StyleBatch.Ignore.Repository
import StyleBatch.Ignore.Rules
import StyleBatch.Invocation
import StyleBatch.Json
import StyleBatch.Json.Reader
import StyleBatch.Json.Record
import StyleBatch.Key
import StyleBatch.Listing
import StyleBatch.Load
import StyleBatch.Loader
import StyleBatch.Main
import StyleBatch.Paint
import StyleBatch.Path
import StyleBatch.Path.Collapse
import StyleBatch.Pipeline
import StyleBatch.Program
import StyleBatch.Program.Arithmetic
import StyleBatch.Program.Base64
import StyleBatch.Program.Decimal
import StyleBatch.Program.Directories
import StyleBatch.Program.Editor
import StyleBatch.Program.Editor.Reader
import StyleBatch.Program.Editor.Run
import StyleBatch.Program.Files
import StyleBatch.Program.Lines
import StyleBatch.Program.Options
import StyleBatch.Program.Pattern
import StyleBatch.Program.Print
import StyleBatch.Program.Reading
import StyleBatch.Program.Records
import StyleBatch.Program.Records.Reader
import StyleBatch.Program.Records.Run
import StyleBatch.Program.Records.State
import StyleBatch.Program.Records.Token
import StyleBatch.Program.Records.Value
import StyleBatch.Program.Regex
import StyleBatch.Program.Regex.Reader
import StyleBatch.Program.Replace
import StyleBatch.Program.Runners
import StyleBatch.Program.Script
import StyleBatch.Program.Script.Reader
import StyleBatch.Program.Script.Token
import StyleBatch.Program.Script.Word
import StyleBatch.Program.Search
import StyleBatch.Program.Shell
import StyleBatch.Program.Shell.Builtin
import StyleBatch.Program.Shell.Condition
import StyleBatch.Program.Shell.Expansion
import StyleBatch.Program.Shell.Signal
import StyleBatch.Program.Shell.State
import StyleBatch.Program.Shell.Streams
import StyleBatch.Program.Sort
import StyleBatch.Program.Start
import StyleBatch.Report
import StyleBatch.Resolution
import StyleBatch.Schedule
import StyleBatch.Specifier
import StyleBatch.Table
import StyleBatch.Text
import StyleBatch.Text.Alphanumeric
import StyleBatch.Text.Blank
import StyleBatch.Text.Utf8
import StyleBatch.Toml.Document
import StyleBatch.Toml.Number
import StyleBatch.Toml.Quoted
import StyleBatch.Toml.Reader
import StyleBatch.Toml.Writer
import StyleBatch.Variables
import StyleBatch.Variables.File
import StyleBatch.World
import StyleBatch.Proofs.Library
import StyleBatch.Proofs.Table
import StyleBatch.Proofs.Resolution.Run
import StyleBatch.Proofs.Resolution.Transition
import StyleBatch.Proofs.Resolution.Later
import StyleBatch.Proofs.Resolution.Sound
import StyleBatch.Proofs.Resolution.Standing
import StyleBatch.Proofs.Resolution.Fetches
import StyleBatch.Proofs.Acyclic
import StyleBatch.Proofs.Reference
import StyleBatch.Proofs.Resolution.Outcome
import StyleBatch.Proofs.Resolution.Rank
import StyleBatch.Proofs.Resolution.Rest
import StyleBatch.Proofs.Resolution.Refinement
import StyleBatch.Proofs.Resolution.Settling
import StyleBatch.Proofs.Resolution.Hang
import StyleBatch.Proofs.Resolution.Tangling
import StyleBatch.Proofs.Resolution.Deadlock
import StyleBatch.Proofs.Expansion
import StyleBatch.Proofs.Resolution.Debt
import StyleBatch.Proofs.Clean
import StyleBatch.Proofs.Resolution.Faultless
import StyleBatch.Proofs.Resolution.Effect
import StyleBatch.Proofs.Resolution.Drawn
import StyleBatch.Proofs.Resolution.Inlined
import StyleBatch.Proofs.Resolution.Onward
import StyleBatch.Proofs.Pipeline.Notes
import StyleBatch.Proofs.Pipeline.Ledger
import StyleBatch.Proofs.Pipeline.Run
import StyleBatch.Proofs.Pipeline.Course
import StyleBatch.Proofs.Pipeline.Link
import StyleBatch.Proofs.Pipeline.Epochs
import StyleBatch.Proofs.Pipeline.Delivery
import StyleBatch.Proofs.Stations
import StyleBatch.Proofs.Anchor
import StyleBatch.Proofs.Resolution.Arranged
import StyleBatch.Proofs.Walk
import StyleBatch.Proofs.Resolution.InOrder
import StyleBatch.Proofs.Pipeline.Precedence
import StyleBatch.Proofs.Resolution.Aloof
import StyleBatch.Proofs.Pipeline.Acts
import StyleBatch.Proofs.Pipeline.Leaving
import StyleBatch.Proofs.Pipeline.Closings
import StyleBatch.Proofs.Pipeline.Turns
import StyleBatch.Proofs.Pipeline.Fate
import StyleBatch.Proofs.Pipeline.Output
import StyleBatch.Proofs.Pipeline.Bookings
import StyleBatch.Proofs.Pipeline.Given
import StyleBatch.Proofs.Pipeline.Admissions
import StyleBatch.Proofs.Pipeline.Accounting
import StyleBatch.Proofs.Disk
import StyleBatch.Proofs.Pipeline.Writes
import StyleBatch.Proofs.Pipeline.Artifact
import StyleBatch.Proofs.Polling
import StyleBatch.Proofs.Pipeline.Sweep
import StyleBatch.Proofs.Pipeline.Together
import StyleBatch.Proofs.Chain
import StyleBatch.Proofs.Resolution.Circular
import StyleBatch.Proofs.Stretches
import StyleBatch.Proofs.Json
import StyleBatch.Proofs.Trace
import StyleBatch.Proofs.Resolution.Claims
import StyleBatch.Proofs.Resolution.Asking
import StyleBatch.Proofs.Resolution.Attachment
import StyleBatch.Proofs.Resolution.Audit
import StyleBatch.Proofs.Pipeline.Imports
import StyleBatch.Proofs.Strip
import StyleBatch.Proofs.Path
import StyleBatch.Proofs.Normal
import StyleBatch.Proofs.Directories
import StyleBatch.Proofs.Bytewise
import StyleBatch.Proofs.Spans
import StyleBatch.Proofs.Resolution.Stakes
import StyleBatch.Proofs.Resolution.Leftover
import StyleBatch.Proofs.Resolution.Retry
import StyleBatch.Proofs.Comments
import StyleBatch.Proofs.Listing
import StyleBatch.Proofs.Keys
import StyleBatch.Proofs.Lookups
import StyleBatch.Proofs.Spellings
import StyleBatch.Proofs.Unquoted
import StyleBatch.Proofs.LineEnds
import StyleBatch.Proofs.Canonical
import StyleBatch.Proofs.Joining
import StyleBatch.Proofs.Origins
import StyleBatch.Proofs.Pipeline.Calls
import StyleBatch.Proofs.Sharing
import StyleBatch.Proofs.Resolution.Quiet
