import SourceAtlas.Atlas
import SourceAtlas.CSource.Declaration
import SourceAtlas.CSource.Directive
import SourceAtlas.CSource.Function
import SourceAtlas.CSource.Phrase
import SourceAtlas.CSource.Struct
import SourceAtlas.CSource.Summary
import SourceAtlas.Cli.Arguments
import SourceAtlas.Cli.Command
import SourceAtlas.Cli.Report
import SourceAtlas.Cli.Run
import SourceAtlas.Config.Basic
import SourceAtlas.Config.Load
import SourceAtlas.Decimal.Binary
import SourceAtlas.Decimal.Fixed
import SourceAtlas.Decimal.Shortest
import SourceAtlas.Diagram.Arc
import SourceAtlas.Diagram.Dimensions
import SourceAtlas.Diagram.Legend
import SourceAtlas.Diagram.Render
import SourceAtlas.Diagram.Renderer
import SourceAtlas.Diagram.TreeDrawing
import SourceAtlas.Diagram.TreeState
import SourceAtlas.Diagram.TreeView
import SourceAtlas.Diagram.Treemap
import SourceAtlas.Diagram.TreemapDrawing
import SourceAtlas.Files.Disk
import SourceAtlas.Files.Fault
import SourceAtlas.Files.Item
import SourceAtlas.Files.Path
import SourceAtlas.Geometry.Rect
import SourceAtlas.Geometry.Scalar
import SourceAtlas.Json.Basic
import SourceAtlas.Json.Numeral
import SourceAtlas.Json.Printer
import SourceAtlas.Json.Reader
import SourceAtlas.Layout.PointScale
import SourceAtlas.Layout.Squarify
import SourceAtlas.Layout.Tidy
import SourceAtlas.Links.Basic
import SourceAtlas.Links.View
import SourceAtlas.Loader.Basic
import SourceAtlas.Loader.Supply
import SourceAtlas.Main
import SourceAtlas.Markup.Escape
import SourceAtlas.Panel.Basic
import SourceAtlas.Panel.Document
import SourceAtlas.Panel.Html
import SourceAtlas.Panel.Markdown
import SourceAtlas.Proofs.Atlas.Details
import SourceAtlas.Proofs.Atlas.Names
import SourceAtlas.Proofs.CSource.Body
import SourceAtlas.Proofs.CSource.Bounds
import SourceAtlas.Proofs.CSource.Functions
import SourceAtlas.Proofs.CSource.Globals
import SourceAtlas.Proofs.CSource.Header
import SourceAtlas.Proofs.CSource.LineNumbers
import SourceAtlas.Proofs.CSource.Phrase
import SourceAtlas.Proofs.CSource.Structs
import SourceAtlas.Proofs.Diagram.Arc
import SourceAtlas.Proofs.Diagram.Arena
import SourceAtlas.Proofs.Diagram.Clicks
import SourceAtlas.Proofs.Diagram.Expansion
import SourceAtlas.Proofs.Diagram.Labels
import SourceAtlas.Proofs.Diagram.Nesting
import SourceAtlas.Proofs.Diagram.Outline
import SourceAtlas.Proofs.Diagram.Placement
import SourceAtlas.Proofs.Diagram.Positions
import SourceAtlas.Proofs.Diagram.ReadBack
import SourceAtlas.Proofs.Diagram.Selection
import SourceAtlas.Proofs.Diagram.Transition
import SourceAtlas.Proofs.Diagram.Treemap
import SourceAtlas.Proofs.Diagram.Visible
import SourceAtlas.Proofs.Geometry.Exact
import SourceAtlas.Proofs.Geometry.Padding
import SourceAtlas.Proofs.Json.Canonical
import SourceAtlas.Proofs.Json.Spelling
import SourceAtlas.Proofs.Json.Token
import SourceAtlas.Proofs.Layout.Clearance
import SourceAtlas.Proofs.Layout.Contours
import SourceAtlas.Proofs.Layout.Cursors
import SourceAtlas.Proofs.Layout.Extent
import SourceAtlas.Proofs.Layout.FirstWalk
import SourceAtlas.Proofs.Layout.Levels
import SourceAtlas.Proofs.Layout.Midpoint
import SourceAtlas.Proofs.Layout.Notes
import SourceAtlas.Proofs.Layout.Preorder
import SourceAtlas.Proofs.Layout.Rows
import SourceAtlas.Proofs.Layout.Safety
import SourceAtlas.Proofs.Layout.Shifts
import SourceAtlas.Proofs.Layout.Spacing
import SourceAtlas.Proofs.Layout.Squarify
import SourceAtlas.Proofs.Layout.TidyTree
import SourceAtlas.Proofs.Layout.Tiling
import SourceAtlas.Proofs.Layout.Visits
import SourceAtlas.Proofs.Links.Endpoints
import SourceAtlas.Proofs.Links.Extraction
import SourceAtlas.Proofs.Links.Occurrence
import SourceAtlas.Proofs.Lists
import SourceAtlas.Proofs.Loader.Forgetting
import SourceAtlas.Proofs.Loader.Hydration
import SourceAtlas.Proofs.Loader.Reads
import SourceAtlas.Proofs.Loader.Selected
import SourceAtlas.Proofs.Markup.Page
import SourceAtlas.Proofs.Markup.Scanner
import SourceAtlas.Proofs.Panel.Actions
import SourceAtlas.Proofs.Panel.ReadBack
import SourceAtlas.Proofs.Scan.Assembly
import SourceAtlas.Proofs.Server.Codebase
import SourceAtlas.Proofs.Server.Reads
import SourceAtlas.Proofs.Svg.ReadBack
import SourceAtlas.Proofs.Text.ByteOrder
import SourceAtlas.Proofs.Text.Pieces
import SourceAtlas.Proofs.Text.SortedSet
import SourceAtlas.Proofs.Tree.Address
import SourceAtlas.Proofs.Tree.Lineage
import SourceAtlas.Proofs.Tree.Members
import SourceAtlas.Proofs.Tree.Reading
import SourceAtlas.Proofs.Tree.RoundTrip
import SourceAtlas.Proofs.Tree.Sizes
import SourceAtlas.Proofs.Tree.Sorted
import SourceAtlas.Proofs.Tree.Trails
import SourceAtlas.Proofs.Tree.Walk
import SourceAtlas.Proofs.Tree.WellFormed
import SourceAtlas.Scan.Assemble
import SourceAtlas.Scan.Describe
import SourceAtlas.Scan.Naming
import SourceAtlas.Scan.Pattern
import SourceAtlas.Scan.Rules
import SourceAtlas.Scan.Walk
import SourceAtlas.Server.Page
import SourceAtlas.Server.Routes
import SourceAtlas.Server.Target
import SourceAtlas.Svg.Drawing
import SourceAtlas.Svg.Number
import SourceAtlas.Text.Blank
import SourceAtlas.Text.Percent
import SourceAtlas.Text.Pieces
import SourceAtlas.Text.Utf8
import SourceAtlas.Text.Word
import SourceAtlas.Text.WordTable
import SourceAtlas.Time.Instant
import SourceAtlas.Toml.Basic
import SourceAtlas.Toml.Quoted
import SourceAtlas.Toml.Reader
import SourceAtlas.Toml.Scalar
import SourceAtlas.Toml.Table
import SourceAtlas.Tree.Basic
import SourceAtlas.Tree.Category
import SourceAtlas.Tree.Document
import SourceAtlas.Tree.Locate
