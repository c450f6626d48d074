import ArticleAudit.Audit.Diagnostic
import ArticleAudit.Audit.SourceDocument
import ArticleAudit.Audit.Verify
import ArticleAudit.Block.Basic
import ArticleAudit.Block.Geometry
import ArticleAudit.Block.Kind
import ArticleAudit.Block.Outline
import ArticleAudit.Block.Region
import ArticleAudit.Block.Walk
import ArticleAudit.CommandLine.Arguments
import ArticleAudit.CommandLine.Demand
import ArticleAudit.CommandLine.Run
import ArticleAudit.Decimal.Notation
import ArticleAudit.Decimal.Reading
import ArticleAudit.Decimal.Shortest
import ArticleAudit.Document
import ArticleAudit.Files.FileTree
import ArticleAudit.Files.Path
import ArticleAudit.Json.Number
import ArticleAudit.Json.Reader
import ArticleAudit.Json.Tree
import ArticleAudit.Json.Writer
import ArticleAudit.Main
import ArticleAudit.Markdown.Blocks
import ArticleAudit.Markdown.Fence
import ArticleAudit.Markdown.Field
import ArticleAudit.Markdown.Heading
import ArticleAudit.Markdown.Inline
import ArticleAudit.Markdown.InlineBytes
import ArticleAudit.Markdown.Leaf
import ArticleAudit.Markdown.LineFacts
import ArticleAudit.Markdown.Link
import ArticleAudit.Markdown.ListBlock
import ArticleAudit.Markdown.ListMarker
import ArticleAudit.Markdown.Opener
import ArticleAudit.Markdown.Quote
import ArticleAudit.Markdown.ResourceName
import ArticleAudit.Markdown.TableRow
import ArticleAudit.Markdown.ZonePivot
import ArticleAudit.Metadata.Basic
import ArticleAudit.Metadata.Flatten
import ArticleAudit.Metadata.History
import ArticleAudit.Metadata.Override
import ArticleAudit.Metadata.Resolve
import ArticleAudit.Metadata.Scan
import ArticleAudit.Metadata.Section
import ArticleAudit.Metadata.SiteDefaults
import ArticleAudit.Pattern.CharSet
import ArticleAudit.Pattern.Engine
import ArticleAudit.Pattern.Expr
import ArticleAudit.Pattern.Program
import ArticleAudit.Pattern.Reader
import ArticleAudit.Pattern.Search
import ArticleAudit.Pattern.Syntax
import ArticleAudit.Proofs.Audit.Merging
import ArticleAudit.Proofs.Audit.Publishing
import ArticleAudit.Proofs.Audit.Sorting
import ArticleAudit.Proofs.Block.Addresses
import ArticleAudit.Proofs.Block.Demotion
import ArticleAudit.Proofs.Block.LineEnds
import ArticleAudit.Proofs.Block.Flaws
import ArticleAudit.Proofs.Block.Lineage
import ArticleAudit.Proofs.Block.Nesting
import ArticleAudit.Proofs.Block.Rising
import ArticleAudit.Proofs.Block.SectionFamily
import ArticleAudit.Proofs.Block.Sections
import ArticleAudit.Proofs.CommandLine.Runs
import ArticleAudit.Proofs.Document.Coverage
import ArticleAudit.Proofs.Document.Fields
import ArticleAudit.Proofs.Document.FlatFields
import ArticleAudit.Proofs.Document.FlatFrontMatter
import ArticleAudit.Proofs.Document.FrontMatter
import ArticleAudit.Proofs.Document.Geometry
import ArticleAudit.Proofs.Document.InnerSpans
import ArticleAudit.Proofs.Document.LineEnds
import ArticleAudit.Proofs.Document.Lists
import ArticleAudit.Proofs.Document.Origins
import ArticleAudit.Proofs.Document.Positions
import ArticleAudit.Proofs.Document.Rising
import ArticleAudit.Proofs.Document.Sections
import ArticleAudit.Proofs.Document.Strictness
import ArticleAudit.Proofs.Document.Zones
import ArticleAudit.Proofs.Files.Saving
import ArticleAudit.Proofs.Json.Inverse
import ArticleAudit.Proofs.Json.Reordering
import ArticleAudit.Proofs.Markdown.Brackets
import ArticleAudit.Proofs.Markdown.Building
import ArticleAudit.Proofs.Markdown.Cells
import ArticleAudit.Proofs.Markdown.Code
import ArticleAudit.Proofs.Markdown.Coverage
import ArticleAudit.Proofs.Markdown.Extension
import ArticleAudit.Proofs.Markdown.Fences
import ArticleAudit.Proofs.Markdown.Fields
import ArticleAudit.Proofs.Markdown.Headings
import ArticleAudit.Proofs.Markdown.InlineBytes
import ArticleAudit.Proofs.Markdown.InlineLineEnds
import ArticleAudit.Proofs.Markdown.Items
import ArticleAudit.Proofs.Markdown.Layout
import ArticleAudit.Proofs.Markdown.LeafLineEnds
import ArticleAudit.Proofs.Markdown.Leaves
import ArticleAudit.Proofs.Markdown.LineEnds
import ArticleAudit.Proofs.Markdown.Lines
import ArticleAudit.Proofs.Markdown.LinkGrammar
import ArticleAudit.Proofs.Markdown.LinkNodes
import ArticleAudit.Proofs.Markdown.Links
import ArticleAudit.Proofs.Markdown.ListShape
import ArticleAudit.Proofs.Markdown.ListSteps
import ArticleAudit.Proofs.Markdown.Mapping
import ArticleAudit.Proofs.Markdown.Marks
import ArticleAudit.Proofs.Markdown.Origins
import ArticleAudit.Proofs.Markdown.Precedence
import ArticleAudit.Proofs.Markdown.Progress
import ArticleAudit.Proofs.Markdown.ResourceNames
import ArticleAudit.Proofs.Markdown.Rising
import ArticleAudit.Proofs.Markdown.RowSegments
import ArticleAudit.Proofs.Markdown.Runs
import ArticleAudit.Proofs.Markdown.Scanning
import ArticleAudit.Proofs.Markdown.Strictness
import ArticleAudit.Proofs.Markdown.Tabs
import ArticleAudit.Proofs.Markdown.TickRuns
import ArticleAudit.Proofs.Markdown.Tiling
import ArticleAudit.Proofs.Markdown.Unheaded
import ArticleAudit.Proofs.Markdown.Zones
import ArticleAudit.Proofs.Metadata.Dedent
import ArticleAudit.Proofs.Metadata.FlatFields
import ArticleAudit.Proofs.Metadata.History
import ArticleAudit.Proofs.Metadata.Layers
import ArticleAudit.Proofs.Metadata.Leaves
import ArticleAudit.Proofs.Metadata.Operations
import ArticleAudit.Proofs.Metadata.Overrides
import ArticleAudit.Proofs.Metadata.Scan
import ArticleAudit.Proofs.Metadata.SiteDefaults
import ArticleAudit.Proofs.Metadata.SiteTexts
import ArticleAudit.Proofs.Pattern.Matches
import ArticleAudit.Proofs.Rule.Bounds
import ArticleAudit.Proofs.Rule.FieldSpans
import ArticleAudit.Proofs.Rule.Hierarchy
import ArticleAudit.Proofs.Rule.Loading
import ArticleAudit.Proofs.Rule.Order
import ArticleAudit.Proofs.Rule.Reports
import ArticleAudit.Proofs.Rule.RoundTrip
import ArticleAudit.Proofs.Rule.Targets
import ArticleAudit.Proofs.Settings.Saved
import ArticleAudit.Proofs.Text.Bytes
import ArticleAudit.Proofs.Text.LineEnds
import ArticleAudit.Proofs.Text.Positions
import ArticleAudit.Proofs.Text.Runs
import ArticleAudit.Proofs.Text.SmallLetters
import ArticleAudit.Proofs.Text.Standing
import ArticleAudit.Proofs.Text.Trimming
import ArticleAudit.Proofs.Text.WrittenLines
import ArticleAudit.Proofs.Toc.Forest
import ArticleAudit.Proofs.Toc.Items
import ArticleAudit.Proofs.Toc.Listing
import ArticleAudit.Proofs.Toc.Mapping
import ArticleAudit.Proofs.Toc.Outline
import ArticleAudit.Proofs.Toc.Progress
import ArticleAudit.Proofs.Toc.Properties
import ArticleAudit.Proofs.Toc.Steps
import ArticleAudit.Proofs.Toml.Inverse
import ArticleAudit.Proofs.Yaml.Blank
import ArticleAudit.Rule.Basic
import ArticleAudit.Rule.Bundled
import ArticleAudit.Rule.Check
import ArticleAudit.Rule.Encoding
import ArticleAudit.Rule.Registry
import ArticleAudit.Rule.Strategy
import ArticleAudit.Settings.Basic
import ArticleAudit.Settings.Expansion
import ArticleAudit.Settings.Store
import ArticleAudit.Text.Blank
import ArticleAudit.Text.Case
import ArticleAudit.Text.Cursor
import ArticleAudit.Text.Line
import ArticleAudit.Text.Position
import ArticleAudit.Text.Quoted
import ArticleAudit.Text.Slice
import ArticleAudit.Text.Span
import ArticleAudit.Toc.Detect
import ArticleAudit.Toc.Items
import ArticleAudit.Toml.Reader
import ArticleAudit.Toml.Scalar
import ArticleAudit.Toml.Text
import ArticleAudit.Toml.Value
import ArticleAudit.Toml.Writer
import ArticleAudit.Unicode.CaseTable
import ArticleAudit.Unicode.Category
import ArticleAudit.Unicode.Property
import ArticleAudit.Unicode.Ranges
import ArticleAudit.Unicode.Script
import ArticleAudit.Unicode.Word
import ArticleAudit.Yaml.Char
import ArticleAudit.Yaml.Meaning
import ArticleAudit.Yaml.Node
import ArticleAudit.Yaml.Printer
import ArticleAudit.Yaml.ScalarText
import ArticleAudit.Yaml.Token
import ArticleAudit.Yaml.Tokens
import ArticleAudit.Yaml.Value
