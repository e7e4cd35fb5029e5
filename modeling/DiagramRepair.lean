import DiagramRepair.Analysis.Identifiers
import DiagramRepair.Analysis.Kind
import DiagramRepair.Analysis.Summary
import DiagramRepair.Batch.Report
import DiagramRepair.Batch.Run
import DiagramRepair.Block.Closed
import DiagramRepair.Block.Closing
import DiagramRepair.Block.Fence
import DiagramRepair.Block.Segment
import DiagramRepair.Bracket
import DiagramRepair.Checker
import DiagramRepair.CommandLine.Arguments
import DiagramRepair.CommandLine.Command
import DiagramRepair.CommandLine.Run
import DiagramRepair.File.Path
import DiagramRepair.File.Tree
import DiagramRepair.Json.Basic
import DiagramRepair.Json.Parser
import DiagramRepair.Json.Printer
import DiagramRepair.Line.Normal
import DiagramRepair.MathDelimiter
import DiagramRepair.Number.Decimal
import DiagramRepair.Number.Integer
import DiagramRepair.Pattern.Basic
import DiagramRepair.Pattern.Search
import DiagramRepair.Placeholder.Hiding
import DiagramRepair.Placeholder.Registry
import DiagramRepair.Refine
import DiagramRepair.Renderer
import DiagramRepair.Repair.Context
import DiagramRepair.Repair.Rule
import DiagramRepair.Repair.Run
import DiagramRepair.Report
import DiagramRepair.Rule.Arrow
import DiagramRepair.Rule.Cleanup
import DiagramRepair.Rule.Comment
import DiagramRepair.Rule.EdgeLabel
import DiagramRepair.Rule.Node
import DiagramRepair.Rule.Note
import DiagramRepair.Rule.Template
import DiagramRepair.Service.Handler
import DiagramRepair.Service.Request
import DiagramRepair.Settings
import DiagramRepair.Text.Alphanumeric
import DiagramRepair.Text.Basic
import DiagramRepair.Text.Digit
import DiagramRepair.Text.Printable
import DiagramRepair.Text.Quoted
import DiagramRepair.Text.Utf8
import DiagramRepair.Validation
import DiagramRepair.Main
import DiagramRepair.Proofs.Refine.Pieces
import DiagramRepair.Proofs.Repair.Total
import DiagramRepair.Proofs.Flowchart.Spelling
import DiagramRepair.Proofs.Flowchart.Clean
import DiagramRepair.Proofs.Flowchart.Quoting
import DiagramRepair.Proofs.Flowchart.Arrows
import DiagramRepair.Proofs.Flowchart.Targets
import DiagramRepair.Proofs.Flowchart.Edges
import DiagramRepair.Proofs.Flowchart.Names
import DiagramRepair.Proofs.Flowchart.Repair
import DiagramRepair.Proofs.Pattern.First
import DiagramRepair.Proofs.Block.Counted
import DiagramRepair.Proofs.Block.Closed
import DiagramRepair.Proofs.Validation
import DiagramRepair.Proofs.Refine.Accepted
import DiagramRepair.Proofs.Block.Regular
import DiagramRepair.Proofs.Refine.Fences
import DiagramRepair.Proofs.Batch.Kept
import DiagramRepair.Proofs.Block.Cut
import DiagramRepair.Proofs.Block.Normal
import DiagramRepair.Proofs.Block.Scan
import DiagramRepair.Proofs.Placeholder.Parts
import DiagramRepair.Proofs.Text.Utf8
import DiagramRepair.Proofs.Repair.Written
import DiagramRepair.Proofs.Refine.Written
import DiagramRepair.Proofs.Batch.Again
import DiagramRepair.Proofs.Line.Again
import DiagramRepair.Proofs.Repair.Wording
import DiagramRepair.Proofs.Repair.Notes
import DiagramRepair.Proofs.Repair.Preference
import DiagramRepair.Proofs.Rule.DoubleLabels
import DiagramRepair.Proofs.Repair.Lines
import DiagramRepair.Proofs.Bracket.InnerQuotes
import DiagramRepair.Proofs.Rule.MovedQuotes
import DiagramRepair.Proofs.Rule.QuotedEdges
import DiagramRepair.Proofs.Placeholder.Separator
import DiagramRepair.Proofs.Placeholder.RoundTrip
import DiagramRepair.Proofs.Validation.Issues
import DiagramRepair.Proofs.MathDelimiter.Trimming
import DiagramRepair.Proofs.Rule.NoteNames
import DiagramRepair.Proofs.Analysis.LongestPrefix
import DiagramRepair.Proofs.Analysis.Kind
