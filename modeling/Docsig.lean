import Docsig.Code.Environment
import Docsig.Code.Escape
import Docsig.Code.Lexer
import Docsig.Code.Lexer.Number
import Docsig.Code.Lexer.Quotation
import Docsig.Code.Literal
import Docsig.Code.Parser
import Docsig.Code.Parser.Basic
import Docsig.Code.Parser.Expression
import Docsig.Code.Parser.Pattern
import Docsig.Code.Parser.Statement
import Docsig.Code.Parser.Text
import Docsig.Code.Printer
import Docsig.Code.Printer.Quotation
import Docsig.Code.Syntax
import Docsig.Code.Template
import Docsig.Code.Token
import Docsig.Comment.Block
import Docsig.Comment.Declaration
import Docsig.Comment.Line
import Docsig.Definition.Basic
import Docsig.Definition.Draft
import Docsig.Definition.Fault
import Docsig.Definition.Parse
import Docsig.Definition.Signature
import Docsig.Json.Reader
import Docsig.Json.Writer
import Docsig.JsonSchema.Basic
import Docsig.JsonSchema.Check
import Docsig.JsonSchema.Describe
import Docsig.Logging.Basic
import Docsig.Logging.Streams
import Docsig.Number.Double
import Docsig.Number.Numeral
import Docsig.Number.Rounding
import Docsig.Number.Shortest
import Docsig.Page.Render
import Docsig.Page.Row
import Docsig.Page.Write
import Docsig.Proofs.Code.BlankLine
import Docsig.Proofs.Code.Environment
import Docsig.Proofs.Code.Grammar
import Docsig.Proofs.Code.Lexer
import Docsig.Proofs.Code.Literal
import Docsig.Proofs.Code.Node
import Docsig.Proofs.Code.Parser
import Docsig.Proofs.Code.Scan
import Docsig.Proofs.Code.Source
import Docsig.Proofs.Comment.Above
import Docsig.Proofs.Comment.Block
import Docsig.Proofs.Comment.Declaration
import Docsig.Proofs.Comment.Layout
import Docsig.Proofs.Comment.Line
import Docsig.Proofs.Comment.Pass
import Docsig.Proofs.Comment.Spelling
import Docsig.Proofs.Definition.Belonging
import Docsig.Proofs.Definition.CommentBlock
import Docsig.Proofs.Definition.Defaults
import Docsig.Proofs.Definition.Draft
import Docsig.Proofs.Definition.Encoding
import Docsig.Proofs.Definition.Entries
import Docsig.Proofs.Definition.Export
import Docsig.Proofs.Definition.Faults
import Docsig.Proofs.Definition.Fields
import Docsig.Proofs.Definition.Inferred
import Docsig.Proofs.Definition.Keys
import Docsig.Proofs.Definition.Member
import Docsig.Proofs.Definition.Nesting
import Docsig.Proofs.Definition.Newlines
import Docsig.Proofs.Definition.Orderly
import Docsig.Proofs.Definition.Stack
import Docsig.Proofs.Definition.WellFormed
import Docsig.Proofs.Definition.Writable
import Docsig.Proofs.Json.Printable
import Docsig.Proofs.Json.RoundTrip
import Docsig.Proofs.Json.Text
import Docsig.Proofs.Json.Writable
import Docsig.Proofs.JsonSchema.Admits
import Docsig.Proofs.JsonSchema.Agreement
import Docsig.Proofs.JsonSchema.Export
import Docsig.Proofs.JsonSchema.Limit
import Docsig.Proofs.JsonSchema.Pointer
import Docsig.Proofs.Number.Double
import Docsig.Proofs.Number.Numeral
import Docsig.Proofs.Number.Rounding
import Docsig.Proofs.Number.Spelling
import Docsig.Proofs.Page.Cells
import Docsig.Proofs.Page.Line
import Docsig.Proofs.Page.Listing
import Docsig.Proofs.Page.Render
import Docsig.Proofs.Page.Rows
import Docsig.Proofs.Page.Write
import Docsig.Proofs.Result
import Docsig.Proofs.Settings.UnknownKeys
import Docsig.Proofs.Text.Base64
import Docsig.Proofs.Text.Blank
import Docsig.Proofs.Text.Line
import Docsig.Proofs.Text.Newline
import Docsig.Proofs.Text.Outline
import Docsig.Proofs.Text.Split
import Docsig.Proofs.Text.Utf8
import Docsig.Proofs.Text.Word
import Docsig.Proofs.Tree.Change
import Docsig.Proofs.Tree.Collision
import Docsig.Proofs.Tree.Edit
import Docsig.Proofs.Tree.Key
import Docsig.Proofs.Tree.Load
import Docsig.Proofs.Tree.Path
import Docsig.Proofs.Tree.Place
import Docsig.Proofs.Tree.Relevance
import Docsig.Proofs.Tree.Walk
import Docsig.Proofs.Types.Convert
import Docsig.Proofs.Types.Exported
import Docsig.Proofs.Types.Forms
import Docsig.Proofs.Types.Fragment
import Docsig.Proofs.Types.Freeze
import Docsig.Proofs.Types.Integer
import Docsig.Proofs.Types.Introspect
import Docsig.Proofs.Types.Order
import Docsig.Proofs.Types.Sanitize
import Docsig.Proofs.Types.Shape
import Docsig.Proofs.Types.Totality
import Docsig.Proofs.Types.Validate
import Docsig.Proofs.Value.Container
import Docsig.Proofs.Value.Freeze
import Docsig.Proofs.Value.Insert
import Docsig.Proofs.Value.Parts
import Docsig.Settings.Basic
import Docsig.Settings.File
import Docsig.Text.Base64
import Docsig.Text.Basic
import Docsig.Text.Blank
import Docsig.Text.Digit
import Docsig.Text.Identifier
import Docsig.Text.Printable
import Docsig.Text.Quoted
import Docsig.Text.Utf8
import Docsig.Text.Word
import Docsig.Tree.Basic
import Docsig.Tree.Load
import Docsig.Tree.Path
import Docsig.Tree.Place
import Docsig.Tree.Walk
import Docsig.Types.Classify
import Docsig.Types.Convert
import Docsig.Types.Entry
import Docsig.Types.Introspect
import Docsig.Types.Sanitize
import Docsig.Types.Tag
import Docsig.Types.Validate
import Docsig.Value.Basic
import Docsig.Value.Display
import Docsig.Value.Equality
import Docsig.Value.Freeze
import Docsig.Yaml.Cursor
import Docsig.Yaml.Document
import Docsig.Yaml.Node
import Docsig.Yaml.Resolve
import Docsig.Yaml.Scalar
import Docsig.Yaml.Token
