import DryMake.Budget
import DryMake.Build
import DryMake.Build.Error
import DryMake.Build.Trace
import DryMake.CommandLine
import DryMake.Conditional
import DryMake.Database
import DryMake.Database.Dump
import DryMake.Diagnostic
import DryMake.Environment
import DryMake.Event
import DryMake.Expansion
import DryMake.Expansion.Error
import DryMake.Expansion.Token
import DryMake.Fault
import DryMake.FileSystem
import DryMake.FileTree
import DryMake.Line
import DryMake.LogicalLine
import DryMake.Macro
import DryMake.Main
import DryMake.Output
import DryMake.Output.Bounded
import DryMake.Path
import DryMake.Plan
import DryMake.Reading
import DryMake.Reading.Error
import DryMake.Run
import DryMake.Table
import DryMake.Text.Blank
import DryMake.Text.Lines
import DryMake.Text.Printable
import DryMake.Text.Quoted
import DryMake.Workspace
import DryMake.Proofs.Expansion.Evaluator
import DryMake.Proofs.Expansion.Termination
import DryMake.Proofs.Build.Visit
import DryMake.Proofs.Build.Termination
import DryMake.Proofs.Expansion.Correspondence
import DryMake.Proofs.Expansion.Tokens
import DryMake.Proofs.Expansion.Grammar
import DryMake.Proofs.Expansion.Relevance
import DryMake.Proofs.Expansion.Recursion
import DryMake.Proofs.Expansion.Overlay
import DryMake.Proofs.Expansion.Concatenation
import DryMake.Proofs.Line.Cut
import DryMake.Proofs.Line.Definition
import DryMake.Proofs.Line.Spelling
import DryMake.Proofs.Build.Correspondence
import DryMake.Proofs.Build.Requests
import DryMake.Proofs.Build.Reachability
import DryMake.Proofs.Build.OpenVisit
import DryMake.Proofs.Build.Bracketing
import DryMake.Proofs.Build.Rendering
import DryMake.Proofs.Build.Depth
import DryMake.Proofs.Build.Escaping
import DryMake.Proofs.Build.Recurrence
import DryMake.Proofs.Build.Isolation
import DryMake.Proofs.Build.Markers
import DryMake.Proofs.Reading.Effect
import DryMake.Proofs.Reading.Grouping
import DryMake.Proofs.Reading.Failure
import DryMake.Proofs.Reading.Inclusion
import DryMake.Proofs.Reading.Merge
import DryMake.Proofs.Reading.Stability
import DryMake.Proofs.Reading.Nesting
import DryMake.Proofs.Reading.Joining
import DryMake.Proofs.Reading.Protection
import DryMake.Proofs.Reading.Growth
import DryMake.Proofs.Reading.WellFormed
import DryMake.Proofs.Reading.Settings
import DryMake.Proofs.Reading.Omission
import DryMake.Proofs.Reading.Agreement
import DryMake.Proofs.Reading.Rearrangement
import DryMake.Proofs.Reading.Cutting
import DryMake.Proofs.Reading.Calls
import DryMake.Proofs.Run.Precedence
import DryMake.Proofs.Text.Trimming
import DryMake.Proofs.Database.Written
import DryMake.Proofs.Database.ReadBack
import DryMake.Proofs.Database.Listing
import DryMake.Proofs.Output.Delivery
