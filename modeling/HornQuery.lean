import HornQuery.BodyPolicy
import HornQuery.Cell
import HornQuery.CommandLine
import HornQuery.Compiler
import HornQuery.Config
import HornQuery.Config.Json
import HornQuery.Decimal.Shortest
import HornQuery.Distinct
import HornQuery.Error
import HornQuery.Event
import HornQuery.FileSystem
import HornQuery.Folder
import HornQuery.Fragment
import HornQuery.Json
import HornQuery.Json.Reader
import HornQuery.Json.Writer
import HornQuery.Main
import HornQuery.Node
import HornQuery.Node.Cursor
import HornQuery.Node.Reader
import HornQuery.ParseError
import HornQuery.Place
import HornQuery.Program
import HornQuery.Program.Draft
import HornQuery.Program.Survey
import HornQuery.Proofs.Answers
import HornQuery.Proofs.Collected
import HornQuery.Proofs.Compilation
import HornQuery.Proofs.Concatenation
import HornQuery.Proofs.Cursor
import HornQuery.Proofs.Decoding
import HornQuery.Proofs.Diagnosis
import HornQuery.Proofs.Display
import HornQuery.Proofs.Encoding
import HornQuery.Proofs.Extension.Compilation
import HornQuery.Proofs.Extension.Evaluation
import HornQuery.Proofs.Extension.Runs
import HornQuery.Proofs.Failures
import HornQuery.Proofs.Framing
import HornQuery.Proofs.Grammar
import HornQuery.Proofs.History
import HornQuery.Proofs.Instantiation
import HornQuery.Proofs.Interning
import HornQuery.Proofs.Levels
import HornQuery.Proofs.Lines
import HornQuery.Proofs.Locality
import HornQuery.Proofs.Materialization
import HornQuery.Proofs.Names
import HornQuery.Proofs.Numbering
import HornQuery.Proofs.Ownership
import HornQuery.Proofs.Parameters
import HornQuery.Proofs.Passes
import HornQuery.Proofs.Pinning
import HornQuery.Proofs.Placeholders
import HornQuery.Proofs.Places
import HornQuery.Proofs.Printing
import HornQuery.Proofs.Progress
import HornQuery.Proofs.QueryText
import HornQuery.Proofs.Reads
import HornQuery.Proofs.Rejections
import HornQuery.Proofs.Remainders
import HornQuery.Proofs.Renaming.Compilation
import HornQuery.Proofs.Renaming.Evaluation
import HornQuery.Proofs.Renaming.Fragments
import HornQuery.Proofs.Renaming.Resolution
import HornQuery.Proofs.Renaming.Runs
import HornQuery.Proofs.Rendering
import HornQuery.Proofs.Renumbering
import HornQuery.Proofs.Reordering.Compilation
import HornQuery.Proofs.Reordering.Outlines
import HornQuery.Proofs.Reordering.Resolution
import HornQuery.Proofs.Reordering.Runs
import HornQuery.Proofs.Reordering.Scopes
import HornQuery.Proofs.Repetition
import HornQuery.Proofs.Reuse
import HornQuery.Proofs.Scoping
import HornQuery.Proofs.Solutions
import HornQuery.Proofs.Soundness
import HornQuery.Proofs.Substitution
import HornQuery.Proofs.Templates
import HornQuery.Proofs.Truncation
import HornQuery.Proofs.Truth
import HornQuery.Proofs.UnusedParameters
import HornQuery.Proofs.Visits
import HornQuery.Proofs.Written
import HornQuery.Report
import HornQuery.Resolution
import HornQuery.Scan
import HornQuery.Scan.Depth
import HornQuery.Scan.Evaluation
import HornQuery.Scan.Execution
import HornQuery.Scan.Join
import HornQuery.Schema
import HornQuery.Scope
import HornQuery.Session
import HornQuery.Store
import HornQuery.Symbol
import HornQuery.SymbolTable
import HornQuery.Term
import HornQuery.Text.Blank
import HornQuery.Text.Location
import HornQuery.Text.Printable
import HornQuery.Text.Quoted
import HornQuery.Text.Utf8
import HornQuery.Workbench
