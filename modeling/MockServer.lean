import MockServer.Http.Count
import MockServer.Http.MediaType
import MockServer.Http.Message
import MockServer.Http.Route
import MockServer.Http.Service
import MockServer.Interface.Bracket
import MockServer.Interface.Comment
import MockServer.Interface.Declaration
import MockServer.Interface.Entry
import MockServer.Interface.Format
import MockServer.Interface.Json
import MockServer.Interface.Model
import MockServer.Interface.Parse
import MockServer.Json.Decode
import MockServer.Json.Numeral
import MockServer.Json.Read
import MockServer.Json.Tree
import MockServer.Json.Value
import MockServer.Main
import MockServer.Mock.Generate
import MockServer.Mock.Sample
import MockServer.Mock.Value
import MockServer.Number.Binary64
import MockServer.Number.Decimal
import MockServer.Number.Digits
import MockServer.Number.DigitsLemmas
import MockServer.Number.Shortest
import MockServer.Project.Basic
import MockServer.Project.CleanupTimer
import MockServer.Project.Error
import MockServer.Project.Json
import MockServer.Project.Registry
import MockServer.Random.Draw
import MockServer.Random.Uuid
import MockServer.Settings.Basic
import MockServer.Settings.Check
import MockServer.Settings.CommandLine
import MockServer.Settings.ConfigValue
import MockServer.Settings.Json
import MockServer.Settings.KeyPath
import MockServer.Settings.Load
import MockServer.Settings.Toml.DateTime
import MockServer.Settings.Toml.Document
import MockServer.Settings.Toml.Outline
import MockServer.Settings.Toml.Quoted
import MockServer.Settings.Toml.Scalar
import MockServer.Text.Blank
import MockServer.Text.Percent
import MockServer.Text.Search
import MockServer.Text.Utf8
import MockServer.Text.Word
import MockServer.Text.WordBounds
import MockServer.Time.Calendar
import MockServer.Time.Instant
import MockServer.Time.Rfc3339
import MockServer.Proofs.Project.LiveLimit
import MockServer.Proofs.Interface.CommentPasses
import MockServer.Proofs.Mock.Conformance
import MockServer.Proofs.Interface.Grouping
import MockServer.Proofs.Interface.Nesting
import MockServer.Proofs.Interface.WellFormed
import MockServer.Proofs.Interface.Print
import MockServer.Proofs.Interface.FormatRank
import MockServer.Proofs.Interface.Reading
import MockServer.Proofs.Interface.RoundTrip
import MockServer.Proofs.Interface.Insertion
import MockServer.Proofs.Interface.InsertionReading
import MockServer.Proofs.Interface.LineBreak
import MockServer.Proofs.Interface.Header
import MockServer.Proofs.Interface.BrokenType
import MockServer.Proofs.Interface.Padding
import MockServer.Proofs.Interface.LiteralLayout
import MockServer.Proofs.Interface.Spacing
import MockServer.Proofs.Interface.LineSpacing
import MockServer.Proofs.Interface.Composition
import MockServer.Proofs.Interface.ModelJson
import MockServer.Proofs.Random.Completion
import MockServer.Proofs.Mock.Completion
import MockServer.Proofs.Project.LastWrite
import MockServer.Proofs.Project.Consistency
import MockServer.Proofs.Http.Routing
import MockServer.Proofs.Http.Untouched
import MockServer.Proofs.Project.Part
import MockServer.Proofs.Project.Isolation
import MockServer.Proofs.Project.Deactivation
import MockServer.Proofs.Project.Cleanup
import MockServer.Proofs.Project.Concurrency
import MockServer.Proofs.Project.Conservation
import MockServer.Proofs.Http.Envelope
import MockServer.Proofs.Interface.FieldForm
import MockServer.Proofs.Interface.Parts
import MockServer.Proofs.Interface.Trailing
import MockServer.Proofs.Interface.Bounds
import MockServer.Proofs.Interface.Offsets
import MockServer.Proofs.Interface.StrayLine
import MockServer.Proofs.Project.Expiry
import MockServer.Proofs.Project.RevisionComposition
import MockServer.Proofs.Project.Reachable
import MockServer.Proofs.Project.Listing
import MockServer.Proofs.Http.LiveReads
import MockServer.Proofs.Time.Hours
import MockServer.Proofs.Project.Lifetime
import MockServer.Proofs.Random.Reach
import MockServer.Proofs.Number.Order
import MockServer.Proofs.Mock.Reach
import MockServer.Proofs.Mock.Keys
import MockServer.Proofs.Number.Rounding
import MockServer.Proofs.Number.DecimalText
import MockServer.Proofs.Json.Number
import MockServer.Proofs.Http.Counts
import MockServer.Proofs.Time.Calendar
import MockServer.Proofs.Outcome
import MockServer.Proofs.Time.Rfc3339
import MockServer.Proofs.Project.Json
import MockServer.Proofs.Interface.Partition
import MockServer.Proofs.Settings.File
import MockServer.Proofs.Settings.CommandLine
import MockServer.Proofs.Settings.Override
import MockServer.Proofs.Settings.Port
import MockServer.Proofs.Text.LowerCase
import MockServer.Proofs.Interface.FormatInference
