import HtmlIds.Text.Blank
import HtmlIds.Text.Position
import HtmlIds.Text.Search
import HtmlIds.Text.LineTable
import HtmlIds.Severity
import HtmlIds.OrderedMap
import HtmlIds.Json.Reading
import HtmlIds.Json.Decoder
import HtmlIds.Path
import HtmlIds.FileSystem
import HtmlIds.Uri
import HtmlIds.Language
import HtmlIds.Markup.IdAttribute
import HtmlIds.Markup.ScriptRegion
import HtmlIds.Editor.Cursor
import HtmlIds.Dom.ElementType
import HtmlIds.Dom.Artifact
import HtmlIds.Dom.Bundled
import HtmlIds.Index
import HtmlIds.Editor.Host
import HtmlIds.Editor.Fixture
import HtmlIds.Yaml.Reading
import HtmlIds.Config.Format
import HtmlIds.Session.Basic
import HtmlIds.Server.Basic
import HtmlIds.Check.Basic
import HtmlIds.Generator.Basic
import HtmlIds.Main
import HtmlIds.Proofs.Session.Publication
import HtmlIds.Proofs.Markup.TagStart
import HtmlIds.Proofs.Session.Freshness
import HtmlIds.Proofs.Markup.IdDeclarations
import HtmlIds.Proofs.Json.Number
import HtmlIds.Proofs.Json.Numeral
import HtmlIds.Proofs.Json.Grammar
import HtmlIds.Proofs.Json.Reading
import HtmlIds.Proofs.Json.Soundness
import HtmlIds.Proofs.Json.RoundTrip
import HtmlIds.Proofs.Json.Decoder
import HtmlIds.Proofs.Dom.Artifact
import HtmlIds.Proofs.Dom.Acceptance
import HtmlIds.Proofs.Index
import HtmlIds.Proofs.Index.Grouping
import HtmlIds.Proofs.Editor.DuplicateIds
import HtmlIds.Proofs.Text.Search
import HtmlIds.Proofs.Text.Place
import HtmlIds.Proofs.Text.LineTable
import HtmlIds.Proofs.Text.Run
import HtmlIds.Proofs.Editor.Cursor
import HtmlIds.Proofs.Editor.SitePositions
import HtmlIds.Proofs.Editor.MemberCache
import HtmlIds.Proofs.Markup.ScriptRegion
import HtmlIds.Proofs.Editor.Completions
import HtmlIds.Proofs.Session.Convergence
import HtmlIds.Proofs.Session.Agreement
import HtmlIds.Proofs.Session.Interference
import HtmlIds.Proofs.Check.Concurrence
import HtmlIds.Proofs.Sorting
import HtmlIds.Proofs.Text.Pieces
import HtmlIds.Proofs.Path
import HtmlIds.Proofs.FileSystem
import HtmlIds.Proofs.Check.Discovery
import HtmlIds.Proofs.Check.Coherence
import HtmlIds.Proofs.Check.ArgumentOrder
import HtmlIds.Proofs.Server.Conversation
import HtmlIds.Proofs.Text.RoundTrip
import HtmlIds.Proofs.Session.Queries
import HtmlIds.Proofs.Json.Interruption
import HtmlIds.Proofs.Dom.Truncation
import HtmlIds.Proofs.Json.Document
import HtmlIds.Proofs.Text.Bytes
import HtmlIds.Proofs.Generator.Header
import HtmlIds.Proofs.Generator.Stream
import HtmlIds.Proofs.Text.Counting
import HtmlIds.Proofs.Text.Rounding
import HtmlIds.Proofs.Editor.CursorCut
import HtmlIds.Proofs.Markup.ScriptTag
import HtmlIds.Proofs.Markup.ScriptScan
import HtmlIds.Proofs.Text.MaximalRun
import HtmlIds.Proofs.Editor.WordAtCursor
import HtmlIds.Proofs.Editor.DotContext
import HtmlIds.Proofs.Editor.References
import HtmlIds.Proofs.Editor.TagStem
import HtmlIds.Proofs.Markup.ScriptBlocks
import HtmlIds.Proofs.Markup.ScriptGrowth
import HtmlIds.Proofs.Markup.QuotedValue
import HtmlIds.Proofs.Editor.DuplicateRanges
import HtmlIds.Proofs.Path.Ancestors
import HtmlIds.Proofs.Config.Search
import HtmlIds.Proofs.Config.Decoding
import HtmlIds.Proofs.Config.Loading
import HtmlIds.Proofs.Server.Configuration
import HtmlIds.Proofs.Server.EmptyPath
import HtmlIds.Proofs.Generator.Correlation
import HtmlIds.Proofs.Generator.Members
import HtmlIds.Proofs.Generator.Batch
import HtmlIds.Proofs.Config.RoundTrip
import HtmlIds.Proofs.Text.LinePartition
import HtmlIds.Proofs.Text.WordSums
import HtmlIds.Proofs.Editor.Coordinates
import HtmlIds.Proofs.Json.Compact
import HtmlIds.Proofs.Generator.Requests
import HtmlIds.Proofs.Text.Occurrence
import HtmlIds.Proofs.Text.Wrapping
import HtmlIds.Proofs.Editor.Fixture
