import QuadIndex.Bytes
import QuadIndex.Bytes.Hex
import QuadIndex.Bytes.Range
import QuadIndex.Bytes.Word
import QuadIndex.Digest.Blake3
import QuadIndex.Digest.Fingerprint
import QuadIndex.Error
import QuadIndex.Index.Basic
import QuadIndex.Join.Basic
import QuadIndex.Join.Hash
import QuadIndex.Join.Iterative
import QuadIndex.Key.Cell
import QuadIndex.Key.Codec
import QuadIndex.Key.Component
import QuadIndex.Key.Layout
import QuadIndex.Key.Plain
import QuadIndex.Literal.Coding
import QuadIndex.Literal.Registry
import QuadIndex.Literal.Standard
import QuadIndex.Model.Pattern
import QuadIndex.Model.Quad
import QuadIndex.Model.Value
import QuadIndex.Number.Binary64
import QuadIndex.Number.Numeral
import QuadIndex.Number.Shortest
import QuadIndex.Path.Access
import QuadIndex.Path.KeyExpression
import QuadIndex.Plan.Basic
import QuadIndex.Plan.Estimate
import QuadIndex.Plan.Optimize
import QuadIndex.Proofs.Bytes.Order
import QuadIndex.Proofs.Bytes.Range
import QuadIndex.Proofs.Index.Isolation
import QuadIndex.Proofs.Index.Run
import QuadIndex.Proofs.Index.TableNames
import QuadIndex.Proofs.Index.WriteBack
import QuadIndex.Proofs.Join.Agreement
import QuadIndex.Proofs.Join.Discipline
import QuadIndex.Proofs.Join.Hash
import QuadIndex.Proofs.Join.Order
import QuadIndex.Proofs.Join.Probe
import QuadIndex.Proofs.Join.Subjects
import QuadIndex.Proofs.Key.Component
import QuadIndex.Proofs.Key.Dispatch
import QuadIndex.Proofs.Key.Grammar
import QuadIndex.Proofs.Key.Order
import QuadIndex.Proofs.Key.Quad
import QuadIndex.Proofs.Key.Registered
import QuadIndex.Proofs.Key.RoundTrip
import QuadIndex.Proofs.Key.Text
import QuadIndex.Proofs.Key.WriteBack
import QuadIndex.Proofs.Literal.Lawful
import QuadIndex.Proofs.Literal.Meaning
import QuadIndex.Proofs.Literal.Order
import QuadIndex.Proofs.Literal.Payload
import QuadIndex.Proofs.Number.DecimalText
import QuadIndex.Proofs.Number.FloatCount
import QuadIndex.Proofs.Number.FloatOrder
import QuadIndex.Proofs.Number.FloatPlace
import QuadIndex.Proofs.Number.Nearest
import QuadIndex.Proofs.Number.Numeral
import QuadIndex.Proofs.Number.Shortest
import QuadIndex.Proofs.Number.WordOrder
import QuadIndex.Proofs.Order.Beginning
import QuadIndex.Proofs.Path.Coverage
import QuadIndex.Proofs.Path.KeyExpression
import QuadIndex.Proofs.Path.Marker
import QuadIndex.Proofs.Path.Match
import QuadIndex.Proofs.Path.Verbatim
import QuadIndex.Proofs.Plan.Estimate
import QuadIndex.Proofs.Plan.Greedy
import QuadIndex.Proofs.Plan.Idempotent
import QuadIndex.Proofs.Plan.LeftDeep
import QuadIndex.Proofs.Plan.Normal
import QuadIndex.Proofs.Plan.Reorder
import QuadIndex.Proofs.Plan.Selectivity
import QuadIndex.Proofs.Plan.Scope
import QuadIndex.Proofs.Query.Answer
import QuadIndex.Proofs.Query.Filtered
import QuadIndex.Proofs.Query.FloatRange
import QuadIndex.Proofs.Query.IriRange
import QuadIndex.Proofs.Query.NamedGraph
import QuadIndex.Proofs.Query.Scan
import QuadIndex.Proofs.Query.ValueRange
import QuadIndex.Proofs.Regex.Compiled
import QuadIndex.Proofs.Regex.Enclosed
import QuadIndex.Proofs.Regex.Language
import QuadIndex.Proofs.Regex.Local
import QuadIndex.Proofs.Regex.Room
import QuadIndex.Proofs.Regex.Written
import QuadIndex.Proofs.Result
import QuadIndex.Proofs.Statistics.Collected
import QuadIndex.Proofs.Statistics.Count
import QuadIndex.Proofs.Statistics.Entries
import QuadIndex.Proofs.Statistics.Refresh
import QuadIndex.Proofs.Statistics.Replaced
import QuadIndex.Proofs.Statistics.Steady
import QuadIndex.Proofs.Statistics.Stored
import QuadIndex.Proofs.Statistics.Tally
import QuadIndex.Proofs.Store.Frame
import QuadIndex.Proofs.Store.Keys
import QuadIndex.Proofs.Store.Reading
import QuadIndex.Proofs.Store.Scan
import QuadIndex.Proofs.Store.Sequential
import QuadIndex.Proofs.Text.Order
import QuadIndex.Proofs.Text.Utf8
import QuadIndex.Proofs.Time.Calendar
import QuadIndex.Proofs.Time.Exact
import QuadIndex.Proofs.Time.Text
import QuadIndex.Query.Scan
import QuadIndex.Regex.Bracket
import QuadIndex.Regex.CharSet
import QuadIndex.Regex.NamedSet
import QuadIndex.Regex.Notation
import QuadIndex.Regex.Program.ByteRanges
import QuadIndex.Regex.Program.Draft
import QuadIndex.Regex.Program.Layout
import QuadIndex.Regex.Program.LiteralStates
import QuadIndex.Regex.Program.SetStates
import QuadIndex.Regex.Property
import QuadIndex.Regex.Reader
import QuadIndex.Regex.Search
import QuadIndex.Regex.Shape
import QuadIndex.Regex.Syntax
import QuadIndex.Settings
import QuadIndex.Statistics.Collector
import QuadIndex.Statistics.Entries
import QuadIndex.Statistics.Kind
import QuadIndex.Statistics.Source
import QuadIndex.Statistics.Stored
import QuadIndex.Store.Basic
import QuadIndex.Store.Collected
import QuadIndex.Store.Cursor
import QuadIndex.Store.Table
import QuadIndex.Store.Writes
import QuadIndex.Text.Folding
import QuadIndex.Text.Hidden
import QuadIndex.Text.Letter
import QuadIndex.Text.Quoted
import QuadIndex.Text.Utf8
import QuadIndex.Text.Word
import QuadIndex.Time.Instant
