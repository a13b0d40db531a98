import SourceRepair.Calendar
import SourceRepair.CommandLine.Arguments
import SourceRepair.CommandLine.Run
import SourceRepair.Compiler.Extractor
import SourceRepair.Config.Basic
import SourceRepair.Config.Layers
import SourceRepair.Config.Reading
import SourceRepair.Config.Setting
import SourceRepair.Diagnostic.Basic
import SourceRepair.Diagnostic.CompilerText
import SourceRepair.Diagnostic.LintJson
import SourceRepair.Diagnostic.Source
import SourceRepair.Edit.Content
import SourceRepair.Edit.Plan
import SourceRepair.Edit.Repair
import SourceRepair.Failure
import SourceRepair.FileTree.Basic
import SourceRepair.FileTree.Listing
import SourceRepair.FileTree.Write
import SourceRepair.Json.Decode
import SourceRepair.Json.Outline
import SourceRepair.Json.Parse
import SourceRepair.Json.Value
import SourceRepair.Literal.Spans
import SourceRepair.Main
import SourceRepair.Notice
import SourceRepair.Number.Double
import SourceRepair.Number.Shortest
import SourceRepair.Path
import SourceRepair.Pattern.Basic
import SourceRepair.Pattern.First
import SourceRepair.Pattern.Search
import SourceRepair.Proofs.Config.Assignments
import SourceRepair.Proofs.Config.Keys
import SourceRepair.Proofs.Config.Layers
import SourceRepair.Proofs.Config.Merging
import SourceRepair.Proofs.Diagnostic.CompilerText
import SourceRepair.Proofs.Diagnostic.Grouping
import SourceRepair.Proofs.Diagnostic.LineForm
import SourceRepair.Proofs.Diagnostic.LineGrammar
import SourceRepair.Proofs.Diagnostic.LinterReports
import SourceRepair.Proofs.Diagnostic.Spelling
import SourceRepair.Proofs.Edit.Composition
import SourceRepair.Proofs.Edit.Dispatch
import SourceRepair.Proofs.Edit.Extension
import SourceRepair.Proofs.Edit.FinalLineFeed
import SourceRepair.Proofs.Edit.Image
import SourceRepair.Proofs.Edit.LineEndings
import SourceRepair.Proofs.Edit.Planning
import SourceRepair.Proofs.Edit.Reordering
import SourceRepair.Proofs.Edit.Singles
import SourceRepair.Proofs.Edit.Splicing
import SourceRepair.Proofs.FileTree.AllOrNothing
import SourceRepair.Proofs.FileTree.Entries
import SourceRepair.Proofs.FileTree.Listing
import SourceRepair.Proofs.FileTree.Lookup
import SourceRepair.Proofs.FileTree.Overwriting
import SourceRepair.Proofs.FileTree.Reading
import SourceRepair.Proofs.FileTree.Replacing
import SourceRepair.Proofs.FileTree.Walks
import SourceRepair.Proofs.FileTree.WellFormed
import SourceRepair.Proofs.Json.Decoding
import SourceRepair.Proofs.Json.Grammar
import SourceRepair.Proofs.Json.Pretty
import SourceRepair.Proofs.Json.Reading
import SourceRepair.Proofs.Json.Records
import SourceRepair.Proofs.Literal.Borders
import SourceRepair.Proofs.Literal.Comments
import SourceRepair.Proofs.Literal.Composition
import SourceRepair.Proofs.Literal.Coverage
import SourceRepair.Proofs.Literal.Ends
import SourceRepair.Proofs.Literal.Holes
import SourceRepair.Proofs.Literal.Masks
import SourceRepair.Proofs.Literal.Ranges
import SourceRepair.Proofs.Literal.SameCode
import SourceRepair.Proofs.Literal.States
import SourceRepair.Proofs.Literal.Steps
import SourceRepair.Proofs.PartitionPoint
import SourceRepair.Proofs.Path.Order
import SourceRepair.Proofs.Path.Resolve
import SourceRepair.Proofs.Path.Spelling
import SourceRepair.Proofs.Pattern.Lines
import SourceRepair.Proofs.Pattern.Matches
import SourceRepair.Proofs.Pattern.Reading
import SourceRepair.Proofs.Pattern.Selection
import SourceRepair.Proofs.Pattern.Surroundings
import SourceRepair.Proofs.Report.Instant
import SourceRepair.Proofs.Report.Summary
import SourceRepair.Proofs.Report.Validation
import SourceRepair.Proofs.Rule.CodeFixes
import SourceRepair.Proofs.Rule.Counting
import SourceRepair.Proofs.Rule.Lines
import SourceRepair.Proofs.Rule.Literals
import SourceRepair.Proofs.Rule.Names
import SourceRepair.Proofs.Rule.Rewriting
import SourceRepair.Proofs.Rule.Settling
import SourceRepair.Proofs.Run.Accounting
import SourceRepair.Proofs.Run.Collected
import SourceRepair.Proofs.Run.File
import SourceRepair.Proofs.Run.Links
import SourceRepair.Proofs.Run.Preview
import SourceRepair.Proofs.Scan.Computed
import SourceRepair.Proofs.Scan.Files
import SourceRepair.Proofs.Scan.Findings
import SourceRepair.Proofs.Scan.LineEndings
import SourceRepair.Proofs.Scan.LineIndex
import SourceRepair.Proofs.Scan.Overlaps
import SourceRepair.Proofs.Scan.Places
import SourceRepair.Proofs.Scan.Rewriting
import SourceRepair.Proofs.Scan.Sources
import SourceRepair.Proofs.Scan.Splicing
import SourceRepair.Proofs.Sorting
import SourceRepair.Proofs.Text.Bytes
import SourceRepair.Proofs.Text.Cutting
import SourceRepair.Proofs.Text.Digits
import SourceRepair.Proofs.Text.Lines
import SourceRepair.Proofs.Text.Pieces
import SourceRepair.Proofs.Text.Returns
import SourceRepair.Proofs.Text.Trimming
import SourceRepair.Proofs.Toml.Distinct
import SourceRepair.Proofs.TypeScript.AppendedMarks
import SourceRepair.Proofs.TypeScript.AwaitRemoval
import SourceRepair.Proofs.TypeScript.CarriageReturns
import SourceRepair.Proofs.TypeScript.Changes
import SourceRepair.Proofs.TypeScript.CommentLines
import SourceRepair.Proofs.TypeScript.LineByLine
import SourceRepair.Proofs.TypeScript.LineEnds
import SourceRepair.Proofs.TypeScript.LiteralRuns
import SourceRepair.Proofs.TypeScript.Passes
import SourceRepair.Proofs.TypeScript.Residue
import SourceRepair.Proofs.TypeScript.Runs
import SourceRepair.Proofs.TypeScript.SameCode
import SourceRepair.Proofs.TypeScript.SettledLines
import SourceRepair.Proofs.TypeScript.Shapes
import SourceRepair.Proofs.TypeScript.StaticRules
import SourceRepair.Proofs.TypeScript.StraightQuotes
import SourceRepair.Report.Instant
import SourceRepair.Report.Summary
import SourceRepair.Report.Validation
import SourceRepair.Rule.Basic
import SourceRepair.Rule.Catalog
import SourceRepair.Rule.Literal
import SourceRepair.Run.File
import SourceRepair.Run.Repair
import SourceRepair.Run.Validation
import SourceRepair.Scan.Files
import SourceRepair.Scan.Finding
import SourceRepair.Scan.Sources
import SourceRepair.Shell.Command
import SourceRepair.Shell.Script
import SourceRepair.Shell.Token
import SourceRepair.Text.Basic
import SourceRepair.Text.CharClass
import SourceRepair.Text.CharTable
import SourceRepair.Text.Digits
import SourceRepair.Text.Line
import SourceRepair.Text.Quoted
import SourceRepair.Text.Utf8
import SourceRepair.Toml.Document
import SourceRepair.Toml.Scalar
import SourceRepair.Toml.Tables
import SourceRepair.TypeScript.Line
import SourceRepair.TypeScript.Rules
