import FixedPage.Bytes
import FixedPage.Cache
import FixedPage.Decimal.Binary64
import FixedPage.Decimal.Machine
import FixedPage.Decimal.Numeral
import FixedPage.Decimal.Shortest
import FixedPage.Decimal.Significant
import FixedPage.Dump.Arguments
import FixedPage.Dump.Run
import FixedPage.Error
import FixedPage.Font.CharacterMap
import FixedPage.Font.Compact.Charset
import FixedPage.Font.Compact.Dictionary
import FixedPage.Font.Compact.Pen
import FixedPage.Font.Compact.Program
import FixedPage.Font.Compact.Table
import FixedPage.Font.Component
import FixedPage.Font.Contour
import FixedPage.Font.Face
import FixedPage.Font.Obfuscation
import FixedPage.Font.Outline
import FixedPage.Font.Tables
import FixedPage.Font.Variation.Glyph
import FixedPage.Font.Variation.Metrics
import FixedPage.Font.Variation.Shift
import FixedPage.Font.Variation.Store
import FixedPage.Geometry.Matrix
import FixedPage.Geometry.Rectangle
import FixedPage.Glyph.Font
import FixedPage.Glyph.Indices
import FixedPage.Glyph.Layout
import FixedPage.Glyph.Token
import FixedPage.Image.Decode
import FixedPage.Image.Inflate
import FixedPage.Image.Jpeg
import FixedPage.Image.Jpeg.Blocks
import FixedPage.Image.Jpeg.Coefficient
import FixedPage.Image.Jpeg.Color
import FixedPage.Image.Jpeg.Plane
import FixedPage.Image.Jpeg.Segment
import FixedPage.Image.Png
import FixedPage.Image.PrefixCode
import FixedPage.Image.Raster
import FixedPage.Image.Tiff
import FixedPage.Image.Tiff.Field
import FixedPage.Image.Tiff.Layout
import FixedPage.Image.Tiff.Packing
import FixedPage.Main
import FixedPage.Markup.Element
import FixedPage.Markup.Event
import FixedPage.Markup.Fault
import FixedPage.Markup.Reader
import FixedPage.Markup.Reference
import FixedPage.Markup.Tag
import FixedPage.Markup.Token
import FixedPage.Package.Archive
import FixedPage.Package.Directory
import FixedPage.Paint.Literal
import FixedPage.Paint.Pattern
import FixedPage.Path.Data
import FixedPage.Path.Segment
import FixedPage.Path.Token
import FixedPage.Profile.Connection
import FixedPage.Profile.Curve
import FixedPage.Profile.Read
import FixedPage.Profile.Stage
import FixedPage.Profile.Table
import FixedPage.Proofs.Font.Obfuscation
import FixedPage.Proofs.Geometry.Matrix
import FixedPage.Proofs.Glyph.Clusters
import FixedPage.Proofs.Glyph.Composition
import FixedPage.Proofs.Glyph.Excess
import FixedPage.Proofs.Glyph.Grammar
import FixedPage.Proofs.Glyph.Mirrored
import FixedPage.Proofs.Glyph.Partition
import FixedPage.Proofs.Glyph.Placing
import FixedPage.Proofs.Markup.Attribute
import FixedPage.Proofs.Markup.Cutting
import FixedPage.Proofs.Markup.Elements
import FixedPage.Proofs.Markup.Encoding
import FixedPage.Proofs.Markup.Names
import FixedPage.Proofs.Markup.Places
import FixedPage.Proofs.Markup.Pulling
import FixedPage.Proofs.Markup.Tags
import FixedPage.Proofs.Markup.Written
import FixedPage.Proofs.Memory.History
import FixedPage.Proofs.Memory.Lookup
import FixedPage.Proofs.Mirror.Brush
import FixedPage.Proofs.Mirror.Closing
import FixedPage.Proofs.Mirror.Dictionary
import FixedPage.Proofs.Mirror.Elements
import FixedPage.Proofs.Mirror.Opening
import FixedPage.Proofs.Mirror.Relation
import FixedPage.Proofs.Mirror.Running
import FixedPage.Proofs.Package.Directory
import FixedPage.Proofs.Package.Names
import FixedPage.Proofs.Paint.Literal
import FixedPage.Proofs.Parallel.Closing
import FixedPage.Proofs.Parallel.Opening
import FixedPage.Proofs.Parallel.Relation
import FixedPage.Proofs.Parallel.Running
import FixedPage.Proofs.Path.CurrentPoint
import FixedPage.Proofs.Path.Evaluation
import FixedPage.Proofs.Path.Extents
import FixedPage.Proofs.Path.Grammar
import FixedPage.Proofs.Path.Lexical
import FixedPage.Proofs.Path.Offence
import FixedPage.Proofs.Path.Straightened
import FixedPage.Proofs.Path.Stroke
import FixedPage.Proofs.Path.Trace
import FixedPage.Proofs.Render.Active
import FixedPage.Proofs.Render.Balance
import FixedPage.Proofs.Render.Clipped
import FixedPage.Proofs.Render.Depth
import FixedPage.Proofs.Render.Diary
import FixedPage.Proofs.Render.Drawing
import FixedPage.Proofs.Render.Drawn
import FixedPage.Proofs.Render.Effect
import FixedPage.Proofs.Render.Ellipse
import FixedPage.Proofs.Render.Fate
import FixedPage.Proofs.Render.Figures
import FixedPage.Proofs.Render.Filled
import FixedPage.Proofs.Render.Finish
import FixedPage.Proofs.Render.Geometries
import FixedPage.Proofs.Render.GivenTransform
import FixedPage.Proofs.Render.Growth
import FixedPage.Proofs.Render.Kind
import FixedPage.Proofs.Render.Layers
import FixedPage.Proofs.Render.Marking
import FixedPage.Proofs.Render.Masked
import FixedPage.Proofs.Render.Outcome
import FixedPage.Proofs.Render.Owner
import FixedPage.Proofs.Render.Replay
import FixedPage.Proofs.Render.Run
import FixedPage.Proofs.Render.Scope
import FixedPage.Proofs.Render.Sibling
import FixedPage.Proofs.Render.Singular
import FixedPage.Proofs.Render.Source
import FixedPage.Proofs.Render.Start
import FixedPage.Proofs.Render.Steady
import FixedPage.Proofs.Render.Tile
import FixedPage.Proofs.Render.Tracing
import FixedPage.Proofs.Render.Turned
import FixedPage.Proofs.Render.TurnedGeometry
import FixedPage.Proofs.Render.Viewport
import FixedPage.Proofs.Reorder.Attributes
import FixedPage.Proofs.Reorder.Change
import FixedPage.Proofs.Reorder.Elements
import FixedPage.Proofs.Reorder.Page
import FixedPage.Proofs.Resource.Clauses
import FixedPage.Proofs.Resource.Inline
import FixedPage.Proofs.Resource.Outline
import FixedPage.Proofs.Resource.Recorded
import FixedPage.Proofs.Resource.RoundTrip
import FixedPage.Proofs.Resource.Shape
import FixedPage.Proofs.Resource.Writer
import FixedPage.Proofs.Scalar.Exact
import FixedPage.Proofs.Scalar.Ordered
import FixedPage.Proofs.Surface.Brackets
import FixedPage.Proofs.Surface.FillRule
import FixedPage.Proofs.Surface.Marks
import FixedPage.Proofs.Surface.Operations
import FixedPage.Proofs.Surface.Raised
import FixedPage.Proofs.Surface.Setting
import FixedPage.Proofs.Surface.Transformation
import FixedPage.Proofs.Text.Fields
import FixedPage.Proofs.Text.Utf8
import FixedPage.Proofs.Tint.Elements
import FixedPage.Proofs.Tint.Origin
import FixedPage.Proofs.Tint.Page
import FixedPage.Proofs.Value.Normalized
import FixedPage.Render.Closing
import FixedPage.Render.Frame
import FixedPage.Render.Opening.Brush
import FixedPage.Render.Opening.Content
import FixedPage.Render.Opening.Glyphs
import FixedPage.Render.Opening.Path
import FixedPage.Render.Page
import FixedPage.Render.Reference
import FixedPage.Render.Session
import FixedPage.Render.Stack
import FixedPage.Render.State
import FixedPage.Resource.Entry
import FixedPage.Resource.Geometry
import FixedPage.Resource.Scope
import FixedPage.Scalar
import FixedPage.Scan
import FixedPage.Surface.Recording
import FixedPage.Surface.Stroke
import FixedPage.Surface.Text
import FixedPage.Text.Blank
import FixedPage.Text.Hidden
import FixedPage.Text.LetterCase
import FixedPage.Text.Utf16
import FixedPage.Text.Utf8
import FixedPage.Values
