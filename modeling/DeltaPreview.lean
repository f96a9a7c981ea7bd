import DeltaPreview.CommandLine.Arguments
import DeltaPreview.CommandLine.Job
import DeltaPreview.CommandLine.Run
import DeltaPreview.Compile.Run
import DeltaPreview.Compile.Step
import DeltaPreview.Delta.Attributes
import DeltaPreview.Delta.Document
import DeltaPreview.Delta.Samples
import DeltaPreview.Delta.Summary
import DeltaPreview.Delta.Validation
import DeltaPreview.Double.Basic
import DeltaPreview.Double.Print
import DeltaPreview.Double.Shortest
import DeltaPreview.File.Path
import DeltaPreview.File.Tree
import DeltaPreview.Formula.Render
import DeltaPreview.Formula.Segment
import DeltaPreview.Formula.Typesetter
import DeltaPreview.Json.Basic
import DeltaPreview.Json.Display
import DeltaPreview.Json.Error
import DeltaPreview.Json.Number
import DeltaPreview.Json.Printer
import DeltaPreview.Json.Reader
import DeltaPreview.Json.StringLiteral
import DeltaPreview.Latex.Builder
import DeltaPreview.Latex.Error
import DeltaPreview.Latex.Meaning
import DeltaPreview.Latex.Parser
import DeltaPreview.Latex.Token
import DeltaPreview.Latex.Typeset
import DeltaPreview.Lenient
import DeltaPreview.Main
import DeltaPreview.Markup.Basic
import DeltaPreview.Markup.Escape
import DeltaPreview.Markup.Fragment
import DeltaPreview.Markup.Html.Closing
import DeltaPreview.Markup.Html.Names
import DeltaPreview.Markup.Html.Printer
import DeltaPreview.Markup.Html.Reader
import DeltaPreview.Markup.Html.Reference
import DeltaPreview.Markup.Html.Token
import DeltaPreview.Markup.Xml.Event
import DeltaPreview.Markup.Xml.Printer
import DeltaPreview.Markup.Xml.Reader
import DeltaPreview.Markup.Xml.Uri
import DeltaPreview.Misfit
import DeltaPreview.Node.Basic
import DeltaPreview.Node.Printer
import DeltaPreview.Node.Reader
import DeltaPreview.Preview.Html
import DeltaPreview.Preview.Outcome
import DeltaPreview.Preview.Service
import DeltaPreview.Settings.Basic
import DeltaPreview.Settings.Load
import DeltaPreview.Text.Basic
import DeltaPreview.Text.Blank
import DeltaPreview.Text.Compatible
import DeltaPreview.Text.Digit
import DeltaPreview.Text.Letter
import DeltaPreview.Text.Line
import DeltaPreview.Text.Printable
import DeltaPreview.Text.Utf8
import DeltaPreview.Yaml.Cursor
import DeltaPreview.Yaml.Node
import DeltaPreview.Yaml.Reader
import DeltaPreview.Yaml.Scalar
import DeltaPreview.Yaml.Text
import DeltaPreview.Yaml.Value
import DeltaPreview.Proofs.Compile.Erasure
import DeltaPreview.Proofs.Compile.Grouping
import DeltaPreview.Proofs.Markup.Page
import DeltaPreview.Proofs.Markup.Tags
import DeltaPreview.Proofs.Markup.Tree
import DeltaPreview.Proofs.Markup.Vocabulary
import DeltaPreview.Proofs.Preview.Compiled
import DeltaPreview.Proofs.Preview.Rendering
import DeltaPreview.Proofs.Preview.Text
import DeltaPreview.Proofs.Markup.Content
import DeltaPreview.Proofs.Markup.ReadBack
import DeltaPreview.Proofs.Formula.Segment
import DeltaPreview.Proofs.Formula.Markup
import DeltaPreview.Proofs.Preview.Safety
import DeltaPreview.Proofs.Double.Range
import DeltaPreview.Proofs.Delta.Reading
import DeltaPreview.Proofs.Preview.Total
import DeltaPreview.Proofs.Latex.Math
import DeltaPreview.Proofs.Latex.Parametric
import DeltaPreview.Proofs.Latex.Elements
import DeltaPreview.Proofs.Latex.Grammar
import DeltaPreview.Proofs.Latex.Nesting
import DeltaPreview.Proofs.Latex.Expression
import DeltaPreview.Proofs.Latex.Spelling
import DeltaPreview.Proofs.Latex.Symbol
import DeltaPreview.Proofs.Latex.Setting
import DeltaPreview.Proofs.Markup.Locality
import DeltaPreview.Proofs.Markup.Concatenation
import DeltaPreview.Proofs.Formula.Interleaving
import DeltaPreview.Proofs.Node.RoundTrip
import DeltaPreview.Proofs.Formula.Listing
import DeltaPreview.Proofs.Double.Rounding
import DeltaPreview.Proofs.Double.Shortest
import DeltaPreview.Proofs.Json.Number
import DeltaPreview.Proofs.Json.StringLiteral
import DeltaPreview.Proofs.Json.WellFormed
import DeltaPreview.Proofs.Json.RoundTrip
import DeltaPreview.Proofs.Delta.Format
import DeltaPreview.Proofs.Delta.Kept
import DeltaPreview.Proofs.Delta.Verdict
import DeltaPreview.Proofs.Delta.Formatted
import DeltaPreview.Proofs.Compile.Expansion
import DeltaPreview.Proofs.Compile.Lines
import DeltaPreview.Proofs.Compile.Runs
import DeltaPreview.Proofs.Compile.Shape
import DeltaPreview.Proofs.Compile.Cutting
import DeltaPreview.Proofs.Preview.Cutting
import DeltaPreview.Proofs.Formula.Partition
import DeltaPreview.Proofs.Text.Trim
import DeltaPreview.Proofs.Latex.Scanning
import DeltaPreview.Proofs.Latex.Lexical
import DeltaPreview.Proofs.Latex.Presentation
import DeltaPreview.Proofs.Latex.Concatenation
import DeltaPreview.Proofs.Latex.Cursor
import DeltaPreview.Proofs.Latex.Progress
import DeltaPreview.Proofs.Latex.Layout
import DeltaPreview.Proofs.Latex.Atoms
import DeltaPreview.Proofs.Latex.Embedding
import DeltaPreview.Proofs.Latex.Nest
import DeltaPreview.Proofs.Latex.Cells
import DeltaPreview.Proofs.Latex.Alphabet
import DeltaPreview.Proofs.Latex.Trimming
import DeltaPreview.Proofs.Latex.Spacing
import DeltaPreview.Proofs.Latex.Replacement
import DeltaPreview.Proofs.Latex.Bracing
import DeltaPreview.Proofs.Preview.Status
import DeltaPreview.Proofs.Latex.Respacing
import DeltaPreview.Proofs.Markup.Clean
import DeltaPreview.Proofs.Preview.Compatible
import DeltaPreview.Proofs.Text.Utf8
import DeltaPreview.Proofs.File.Path
import DeltaPreview.Proofs.File.Tree
import DeltaPreview.Proofs.CommandLine.Ending
import DeltaPreview.Proofs.CommandLine.Source
import DeltaPreview.Proofs.Markup.Slots
import DeltaPreview.Proofs.Markup.Escape
import DeltaPreview.Proofs.Markup.Fragment
import DeltaPreview.Proofs.Preview.Filling
