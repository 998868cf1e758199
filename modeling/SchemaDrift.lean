import SchemaDrift.Collection.SortedMap
import SchemaDrift.Collection.SortedSet
import SchemaDrift.Command.Arguments
import SchemaDrift.Command.Given
import SchemaDrift.Command.Run
import SchemaDrift.Digest.Sha256
import SchemaDrift.Drift.Analysis
import SchemaDrift.Drift.Check
import SchemaDrift.Drift.JsonReport
import SchemaDrift.Drift.Report
import SchemaDrift.Drift.TableFilter
import SchemaDrift.Drift.TextReport
import SchemaDrift.Extraction
import SchemaDrift.Fault
import SchemaDrift.Files.Load
import SchemaDrift.Files.Path
import SchemaDrift.Files.Search
import SchemaDrift.Files.Tree
import SchemaDrift.Json.Basic
import SchemaDrift.Json.Decode
import SchemaDrift.Json.Reader
import SchemaDrift.Json.Token
import SchemaDrift.Json.Writer
import SchemaDrift.Log
import SchemaDrift.Main
import SchemaDrift.Migration.Extract
import SchemaDrift.Migration.Fact
import SchemaDrift.Migration.Identifier
import SchemaDrift.Migration.Statement
import SchemaDrift.Number.Rounding
import SchemaDrift.Proofs.Collection.Lookup
import SchemaDrift.Proofs.Collection.Union
import SchemaDrift.Proofs.Drift.Coverage
import SchemaDrift.Proofs.Drift.Difference
import SchemaDrift.Proofs.Drift.Findings
import SchemaDrift.Proofs.Drift.Presentation
import SchemaDrift.Proofs.Drift.Reduction
import SchemaDrift.Proofs.Drift.Selection
import SchemaDrift.Proofs.Drift.Verdict
import SchemaDrift.Proofs.Files.Agreement
import SchemaDrift.Proofs.Files.Load
import SchemaDrift.Proofs.Files.Places
import SchemaDrift.Proofs.Json.RoundTrip
import SchemaDrift.Proofs.Migration.Clauses
import SchemaDrift.Proofs.Migration.Exact
import SchemaDrift.Proofs.Migration.History
import SchemaDrift.Proofs.Migration.Inline
import SchemaDrift.Proofs.Migration.Passes
import SchemaDrift.Proofs.Migration.Phrases
import SchemaDrift.Proofs.Migration.Script
import SchemaDrift.Proofs.Migration.Words
import SchemaDrift.Proofs.Query.Calls
import SchemaDrift.Proofs.Query.Candidates
import SchemaDrift.Proofs.Query.Chain
import SchemaDrift.Proofs.Query.CrossProduct
import SchemaDrift.Proofs.Query.Exact
import SchemaDrift.Proofs.Query.Modules
import SchemaDrift.Proofs.Query.Order
import SchemaDrift.Proofs.Query.Relations
import SchemaDrift.Proofs.RowType.Declaration
import SchemaDrift.Proofs.RowType.Exact
import SchemaDrift.Proofs.RowType.Heads
import SchemaDrift.Proofs.RowType.Members
import SchemaDrift.Proofs.Scan.Balanced
import SchemaDrift.Proofs.Scan.Comments
import SchemaDrift.Proofs.Scan.Literals
import SchemaDrift.Proofs.Scan.Nested
import SchemaDrift.Proofs.Scan.Pieces
import SchemaDrift.Proofs.Snapshot.Columns
import SchemaDrift.Proofs.Snapshot.Fingerprint
import SchemaDrift.Proofs.Text.Runs
import SchemaDrift.Proofs.Text.Search
import SchemaDrift.Proofs.Verify.Inputs
import SchemaDrift.Proofs.Verify.SingleChecks
import SchemaDrift.Proofs.Wildcard.Escape
import SchemaDrift.Query.Call
import SchemaDrift.Query.Event
import SchemaDrift.Query.Extract
import SchemaDrift.RowType.Extract
import SchemaDrift.RowType.Member
import SchemaDrift.Scan.Bracket
import SchemaDrift.Scan.Literal
import SchemaDrift.Scan.Offset
import SchemaDrift.Scan.Piece
import SchemaDrift.Snapshot.Basic
import SchemaDrift.Snapshot.ColumnSet
import SchemaDrift.Snapshot.Json
import SchemaDrift.Text.CharClass
import SchemaDrift.Text.Phrase
import SchemaDrift.Text.Quoted
import SchemaDrift.Text.Utf8
import SchemaDrift.Verify.Options
import SchemaDrift.Verify.Run
import SchemaDrift.Verify.RunLog
import SchemaDrift.Wildcard.Match
import SchemaDrift.Wildcard.Pattern
import SchemaDrift.Proofs.Scan.Settled
import SchemaDrift.Proofs.Migration.Steady
import SchemaDrift.Proofs.Migration.Around
import SchemaDrift.Proofs.Migration.LiteralFacts
import SchemaDrift.Proofs.Migration.LiteralReferences
import SchemaDrift.Proofs.Migration.LiteralText
import SchemaDrift.Proofs.Drift.Lines
import SchemaDrift.Proofs.Drift.Legible
import SchemaDrift.Proofs.Text.Decoding
import SchemaDrift.Proofs.Scan.Symbols
import SchemaDrift.Proofs.Scan.Closed
import SchemaDrift.Proofs.Scan.Parts
import SchemaDrift.Proofs.Scan.Matching
import SchemaDrift.Proofs.Scan.Encoded
import SchemaDrift.Proofs.Scan.Layout
import SchemaDrift.Proofs.Scan.Stripped
import SchemaDrift.Proofs.Migration.Names
import SchemaDrift.Proofs.Migration.Body
import SchemaDrift.Proofs.Migration.ClauseReferences
import SchemaDrift.Proofs.Collection.Totals
import SchemaDrift.Proofs.Query.Attribution
import SchemaDrift.Proofs.Drift.Declared
import SchemaDrift.Proofs.Scan.Statements
import SchemaDrift.Proofs.Drift.Grouping
import SchemaDrift.Proofs.Text.ByteOrder
import SchemaDrift.Proofs.Snapshot.Insertions
import SchemaDrift.Proofs.RowType.Slices
import SchemaDrift.Proofs.RowType.Nesting
import SchemaDrift.Proofs.Wildcard.Accept
import SchemaDrift.Proofs.Files.Parts
import SchemaDrift.Proofs.Files.Selection
import SchemaDrift.Proofs.Text.Slices
import SchemaDrift.Proofs.Text.Fragments
import SchemaDrift.Proofs.Scan.Offsets
import SchemaDrift.Proofs.Scan.ByteSplits
import SchemaDrift.Proofs.Scan.Checked
import SchemaDrift.Proofs.Migration.Checked
import SchemaDrift.Proofs.RowType.Checked
import SchemaDrift.Proofs.Query.Checked
import SchemaDrift.Proofs.Extraction.Boundaries
import SchemaDrift.Proofs.Query.Predicates
import SchemaDrift.Proofs.Extraction.Progress
