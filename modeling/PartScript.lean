import PartScript.Assignment
import PartScript.Command
import PartScript.CommandLine.Arguments
import PartScript.CommandLine.Ending
import PartScript.CommandLine.Files
import PartScript.CommandLine.Report
import PartScript.Config
import PartScript.Config.File
import PartScript.Diagnostic
import PartScript.Digest.Sha256
import PartScript.Digest.Uuid
import PartScript.Document
import PartScript.Edit.Literal
import PartScript.Edit.Negation
import PartScript.Edit.Placement
import PartScript.Edit.Rename
import PartScript.Edit.Replace
import PartScript.Event
import PartScript.Fault
import PartScript.Geometry
import PartScript.Identity
import PartScript.Kind
import PartScript.Library
import PartScript.Main
import PartScript.Node
import PartScript.Node.Equality
import PartScript.Node.Listing
import PartScript.Node.Parser
import PartScript.Node.Printer
import PartScript.Node.Tree
import PartScript.Number.Basic
import PartScript.Number.Dyadic
import PartScript.Number.Layout
import PartScript.Number.Reading
import PartScript.Number.Shortest
import PartScript.Pass
import PartScript.Pass.Evaluate
import PartScript.Pass.Run
import PartScript.Plain
import PartScript.Proofs.Document.Compact
import PartScript.Proofs.Document.Quoting
import PartScript.Proofs.Edit.Edited
import PartScript.Proofs.Edit.Exchanged
import PartScript.Proofs.Edit.Numeral
import PartScript.Proofs.Edit.Placement
import PartScript.Proofs.Edit.Quotation
import PartScript.Proofs.Edit.Replaced
import PartScript.Proofs.Edit.Revised
import PartScript.Proofs.Grammar
import PartScript.Proofs.Grammar.Excerpt
import PartScript.Proofs.Grammar.Extent
import PartScript.Proofs.Grammar.Lineation
import PartScript.Proofs.Grammar.Reading
import PartScript.Proofs.Grammar.Recognition
import PartScript.Proofs.Grammar.Sound
import PartScript.Proofs.Library.Content
import PartScript.Proofs.Library.Effects
import PartScript.Proofs.Library.Faults
import PartScript.Proofs.Library.Like
import PartScript.Proofs.Library.Refusals
import PartScript.Proofs.Library.Serves
import PartScript.Proofs.Library.Submission
import PartScript.Proofs.Library.Trails
import PartScript.Proofs.Node.Accepted
import PartScript.Proofs.Node.Alike
import PartScript.Proofs.Node.Bare
import PartScript.Proofs.Node.Calls
import PartScript.Proofs.Node.Differences
import PartScript.Proofs.Node.Excerpt
import PartScript.Proofs.Node.Innermost
import PartScript.Proofs.Node.Layout
import PartScript.Proofs.Node.Legible
import PartScript.Proofs.Node.Nesting
import PartScript.Proofs.Node.Paths
import PartScript.Proofs.Node.Places
import PartScript.Proofs.Node.Ranges
import PartScript.Proofs.Node.ReadBack
import PartScript.Proofs.Node.RoundTrip
import PartScript.Proofs.Node.Runnable
import PartScript.Proofs.Node.Writable
import PartScript.Proofs.Number.Finite
import PartScript.Proofs.Number.Lexed
import PartScript.Proofs.Number.Nearest
import PartScript.Proofs.Number.Rounding
import PartScript.Proofs.Number.Sign
import PartScript.Proofs.Number.Spelling
import PartScript.Proofs.Number.Written
import PartScript.Proofs.Parentheses.Around
import PartScript.Proofs.Parentheses.Depths
import PartScript.Proofs.Parentheses.Frames
import PartScript.Proofs.Parentheses.Needed
import PartScript.Proofs.Parentheses.Printed
import PartScript.Proofs.Parentheses.Read
import PartScript.Proofs.Parentheses.Seams
import PartScript.Proofs.Pass.Budgets
import PartScript.Proofs.Pass.Closed
import PartScript.Proofs.Pass.Drawing
import PartScript.Proofs.Pass.Escape
import PartScript.Proofs.Pass.Executor
import PartScript.Proofs.Pass.Frame
import PartScript.Proofs.Pass.Grounds
import PartScript.Proofs.Pass.Guard
import PartScript.Proofs.Pass.Identifiers
import PartScript.Proofs.Pass.Judged
import PartScript.Proofs.Pass.Overflow
import PartScript.Proofs.Pass.Provenance
import PartScript.Proofs.Pass.Quoted
import PartScript.Proofs.Pass.Upkeep
import PartScript.Proofs.Pipe.Evaluate
import PartScript.Proofs.Pipe.Lexical
import PartScript.Proofs.Pipe.Meaning
import PartScript.Proofs.Pipe.Nested
import PartScript.Proofs.Pipe.Pass
import PartScript.Proofs.Pipe.Stack
import PartScript.Proofs.Pipe.World
import PartScript.Proofs.Rename.Evaluate
import PartScript.Proofs.Rename.Inverse
import PartScript.Proofs.Rename.Meaning
import PartScript.Proofs.Rename.Pass
import PartScript.Proofs.Rename.Sight
import PartScript.Proofs.Rename.World
import PartScript.Proofs.Results
import PartScript.Proofs.Scratch
import PartScript.Proofs.Scratch.Evaluate
import PartScript.Proofs.Scratch.Live
import PartScript.Proofs.Scratch.Outlook
import PartScript.Proofs.Sign.Evaluate
import PartScript.Proofs.Sign.Meaning
import PartScript.Proofs.Sign.Normal
import PartScript.Proofs.Sign.Pairs
import PartScript.Proofs.Sign.Pass
import PartScript.Proofs.Store
import PartScript.Proofs.Store.Actions
import PartScript.Proofs.Store.Visible
import PartScript.Proofs.Text.Lines
import PartScript.Proofs.Token.Digits
import PartScript.Proofs.Token.Excerpt
import PartScript.Proofs.Token.Lexeme
import PartScript.Proofs.Token.Numeral
import PartScript.Proofs.Token.Piece
import PartScript.Proofs.Token.Respaced
import PartScript.Proofs.Token.Skipped
import PartScript.Proofs.Token.Tiling
import PartScript.Proofs.Twin.Command
import PartScript.Proofs.Twin.Evaluate
import PartScript.Proofs.Twin.Library
import PartScript.Proofs.Twin.Pass
import PartScript.Proofs.Twin.Reformat
import PartScript.Proofs.Twin.Value
import PartScript.Proofs.Twin.World
import PartScript.Proofs.Value.Like
import PartScript.Proofs.Value.Numbers
import PartScript.Proofs.Value.Origins
import PartScript.Proofs.Value.Parts
import PartScript.Proofs.Value.Serves
import PartScript.Proofs.Whole.Amounts
import PartScript.Proofs.Whole.Printed
import PartScript.Scratch
import PartScript.Shape
import PartScript.Span
import PartScript.Store
import PartScript.Store.Access
import PartScript.Text.Blank
import PartScript.Text.Digit
import PartScript.Text.Lines
import PartScript.Text.Printable
import PartScript.Text.Quoted
import PartScript.Token
import PartScript.Token.Lexer
import PartScript.Value
import PartScript.Value.Shown
import PartScript.Yaml.Document
import PartScript.Yaml.Scalar
import PartScript.Yaml.Token
