import Retrieval.Chat.Basic
import Retrieval.Chat.Compose
import Retrieval.Chat.Remote
import Retrieval.Chat.Service
import Retrieval.Command.Request
import Retrieval.Command.Rule
import Retrieval.Command.Session
import Retrieval.Command.Usage
import Retrieval.Command.Word
import Retrieval.Config.Deployment
import Retrieval.Config.Flow
import Retrieval.Config.Layers
import Retrieval.Config.Quoted
import Retrieval.Config.Roster
import Retrieval.Config.Scalar
import Retrieval.Config.Settings
import Retrieval.Document.Basic
import Retrieval.Document.Extract
import Retrieval.Document.FileTree
import Retrieval.Document.Loader
import Retrieval.Document.Web
import Retrieval.Effect.Action
import Retrieval.Effect.Remote
import Retrieval.Embedding.Basic
import Retrieval.Embedding.Remote
import Retrieval.Fault
import Retrieval.Filter.Basic
import Retrieval.Filter.Builder
import Retrieval.Filter.Clause
import Retrieval.Filter.Form
import Retrieval.Filter.Where
import Retrieval.Index.Basic
import Retrieval.Index.Enrich
import Retrieval.Index.Indexer
import Retrieval.Ingest.Batch
import Retrieval.Ingest.Pipeline
import Retrieval.Ingest.Site
import Retrieval.Main
import Retrieval.Metadata
import Retrieval.Number.Binary
import Retrieval.Number.Numeral
import Retrieval.Number.RealText
import Retrieval.Number.Shortest
import Retrieval.Passage.Chunk
import Retrieval.Passage.Packing
import Retrieval.Passage.Paragraph
import Retrieval.Passage.Range
import Retrieval.Passage.Run
import Retrieval.Passage.Section
import Retrieval.Passage.Sentence
import Retrieval.Passage.Span
import Retrieval.Passage.Strategy
import Retrieval.Passage.Window
import Retrieval.Proofs.Chat.Answering
import Retrieval.Proofs.Chat.Limit
import Retrieval.Proofs.Config.Layers
import Retrieval.Proofs.Config.Roster
import Retrieval.Proofs.Effect.Keeping
import Retrieval.Proofs.Effect.Reading
import Retrieval.Proofs.Effect.Traversing
import Retrieval.Proofs.Embedding.Alignment
import Retrieval.Proofs.Embedding.Exchange
import Retrieval.Proofs.Filter.Building
import Retrieval.Proofs.Filter.Chronology
import Retrieval.Proofs.Filter.Clause
import Retrieval.Proofs.Filter.Legible
import Retrieval.Proofs.Filter.Program
import Retrieval.Proofs.Filter.Pushdown
import Retrieval.Proofs.Index.Failure
import Retrieval.Proofs.Index.Filled
import Retrieval.Proofs.Index.Identity
import Retrieval.Proofs.Index.Indexing
import Retrieval.Proofs.Index.Precedence
import Retrieval.Proofs.Index.Superseding
import Retrieval.Proofs.Ingest.Bookkeeping
import Retrieval.Proofs.Ingest.Books
import Retrieval.Proofs.Ingest.Course
import Retrieval.Proofs.Ingest.Displacing
import Retrieval.Proofs.Ingest.Interleaving
import Retrieval.Proofs.Ingest.Overrun
import Retrieval.Proofs.Ingest.Serials
import Retrieval.Proofs.Ingest.Steps
import Retrieval.Proofs.Ingest.Tally
import Retrieval.Proofs.Ingest.Turns
import Retrieval.Proofs.Ingest.Writing
import Retrieval.Proofs.Number.Order
import Retrieval.Proofs.Number.Rounding
import Retrieval.Proofs.Number.Worth
import Retrieval.Proofs.Passage.Between
import Retrieval.Proofs.Passage.Cutting
import Retrieval.Proofs.Passage.Fewest
import Retrieval.Proofs.Passage.Heading
import Retrieval.Proofs.Passage.Joining
import Retrieval.Proofs.Passage.Lending
import Retrieval.Proofs.Passage.Masking
import Retrieval.Proofs.Passage.Packing
import Retrieval.Proofs.Passage.Paragraph
import Retrieval.Proofs.Passage.Parting
import Retrieval.Proofs.Passage.Progress
import Retrieval.Proofs.Passage.Section
import Retrieval.Proofs.Passage.Sentence
import Retrieval.Proofs.Passage.Sliding
import Retrieval.Proofs.Passage.Snap
import Retrieval.Proofs.Passage.Titles
import Retrieval.Proofs.Passage.Tracing
import Retrieval.Proofs.Passage.Units
import Retrieval.Proofs.Passage.Visible
import Retrieval.Proofs.Passage.Window
import Retrieval.Proofs.Passage.Whole
import Retrieval.Proofs.Schedule.Attending
import Retrieval.Proofs.Schedule.Conserving
import Retrieval.Proofs.Schedule.Fanout
import Retrieval.Proofs.Schedule.Gathering
import Retrieval.Proofs.Schedule.Lining
import Retrieval.Proofs.Schedule.Moves
import Retrieval.Proofs.Schedule.Noting
import Retrieval.Proofs.Schedule.Starting
import Retrieval.Proofs.Search.Finding
import Retrieval.Proofs.Search.Positions
import Retrieval.Proofs.Store.Agreement
import Retrieval.Proofs.Store.Client
import Retrieval.Proofs.Store.Deletion
import Retrieval.Proofs.Store.Ideal
import Retrieval.Proofs.Store.Item
import Retrieval.Proofs.Store.Kept
import Retrieval.Proofs.Store.Memory
import Retrieval.Proofs.Store.Ownership
import Retrieval.Proofs.Store.Page
import Retrieval.Proofs.Store.Score
import Retrieval.Proofs.Store.Split
import Retrieval.Proofs.Store.View
import Retrieval.Proofs.Table.Keyed
import Retrieval.Proofs.Table.Part
import Retrieval.Proofs.Tenant.Accounting
import Retrieval.Proofs.Tenant.Isolation
import Retrieval.Proofs.Text.Pattern
import Retrieval.Proofs.Text.Serial
import Retrieval.Proofs.Text.Trim
import Retrieval.Proofs.Time.Calendar
import Retrieval.Proofs.Time.IsoText
import Retrieval.Proofs.Time.TextOrder
import Retrieval.Proofs.Value.Stored
import Retrieval.Proofs.Version.Agreement
import Retrieval.Proofs.Version.Groups
import Retrieval.Record
import Retrieval.Schedule.Fanout
import Retrieval.Schedule.Work
import Retrieval.Schedule.Worker
import Retrieval.Schema.Checked
import Retrieval.Schema.Day
import Retrieval.Schema.Issue
import Retrieval.Schema.Numeral
import Retrieval.Schema.Reader
import Retrieval.Search.Basic
import Retrieval.Search.Retriever
import Retrieval.Service
import Retrieval.Store.Basic
import Retrieval.Store.Client
import Retrieval.Store.Cosine
import Retrieval.Store.Memory
import Retrieval.Store.Page
import Retrieval.Store.Remote
import Retrieval.Table
import Retrieval.Tenant.Id
import Retrieval.Tenant.Ledger
import Retrieval.Tenant.Quota
import Retrieval.Tenant.Registry
import Retrieval.Text.Base64
import Retrieval.Text.Blank
import Retrieval.Text.Digit
import Retrieval.Text.Host
import Retrieval.Text.Printable
import Retrieval.Text.Quoted
import Retrieval.Text.Search
import Retrieval.Text.Url
import Retrieval.Text.Utf8
import Retrieval.Text.Word
import Retrieval.Time.Calendar
import Retrieval.Time.Epoch
import Retrieval.Time.IsoText
import Retrieval.Time.Moment
import Retrieval.Value.Basic
import Retrieval.Value.Equality
import Retrieval.Value.Json
import Retrieval.Value.Order
import Retrieval.Value.Print
import Retrieval.Value.Tagged
import Retrieval.Value.Timestamp
import Retrieval.Version.History
import Retrieval.World
