import MethodFlow.CallSite
import MethodFlow.CommandLine.Help
import MethodFlow.CommandLine.Options
import MethodFlow.CommandLine.Run
import MethodFlow.CommandLine.Sample
import MethodFlow.Declaration
import MethodFlow.Dialect
import MethodFlow.FileTree
import MethodFlow.Flow.Graph
import MethodFlow.Flow.Trace
import MethodFlow.FunctionMap
import MethodFlow.Header.ClassHeader
import MethodFlow.Header.Continuation
import MethodFlow.Header.MethodHeader
import MethodFlow.Header.Modifier
import MethodFlow.Header.Parameters
import MethodFlow.Header.Reading
import MethodFlow.Header.Supertypes
import MethodFlow.Header.TopLevel
import MethodFlow.JsonValue
import MethodFlow.LineStatements
import MethodFlow.Log
import MethodFlow.LogLevel
import MethodFlow.Main
import MethodFlow.MaskedLine
import MethodFlow.Parenthesis
import MethodFlow.Project
import MethodFlow.Proofs.CommandLine.Outcomes
import MethodFlow.Proofs.CommandLine.Overrides
import MethodFlow.Proofs.CommandLine.Settings
import MethodFlow.Proofs.Flow.Agreement
import MethodFlow.Proofs.Flow.Calls
import MethodFlow.Proofs.Flow.Chain
import MethodFlow.Proofs.Flow.Connected
import MethodFlow.Proofs.Flow.Drawing
import MethodFlow.Proofs.Flow.Failures
import MethodFlow.Proofs.Flow.Growth
import MethodFlow.Proofs.Flow.Junctions
import MethodFlow.Proofs.Flow.Reachable
import MethodFlow.Proofs.Flow.Record
import MethodFlow.Proofs.Flow.Size
import MethodFlow.Proofs.Flow.Strokes
import MethodFlow.Proofs.Flow.Ways
import MethodFlow.Proofs.Flow.WellFormed
import MethodFlow.Proofs.Flow.Wiring
import MethodFlow.Proofs.Header.Bodies
import MethodFlow.Proofs.Header.ClassBodies
import MethodFlow.Proofs.Header.ClassClauses
import MethodFlow.Proofs.Header.ClassHeaders
import MethodFlow.Proofs.Header.DottedNames
import MethodFlow.Proofs.Header.Fronts
import MethodFlow.Proofs.Header.Heads
import MethodFlow.Proofs.Header.Items
import MethodFlow.Proofs.Header.JavaParameters
import MethodFlow.Proofs.Header.KotlinParameters
import MethodFlow.Proofs.Header.KotlinSupertypes
import MethodFlow.Proofs.Header.MethodBodies
import MethodFlow.Proofs.Header.MethodTails
import MethodFlow.Proofs.Header.Names
import MethodFlow.Proofs.Header.Spacing
import MethodFlow.Proofs.Header.Splitting
import MethodFlow.Proofs.Line.CallSites
import MethodFlow.Proofs.Line.Colons
import MethodFlow.Proofs.Line.Conditions
import MethodFlow.Proofs.Line.Parentheses
import MethodFlow.Proofs.Line.Statements
import MethodFlow.Proofs.Project.Callees
import MethodFlow.Proofs.Project.Entries
import MethodFlow.Proofs.Project.Folders
import MethodFlow.Proofs.Project.FunctionMaps
import MethodFlow.Proofs.Project.Lines
import MethodFlow.Proofs.Report.Lossless
import MethodFlow.Proofs.Report.Tokens
import MethodFlow.Proofs.Scan.Arrangement
import MethodFlow.Proofs.Scan.BodyStarts
import MethodFlow.Proofs.Scan.BracePlacement
import MethodFlow.Proofs.Scan.ClassOpenings
import MethodFlow.Proofs.Scan.Depth
import MethodFlow.Proofs.Scan.Flat
import MethodFlow.Proofs.Scan.Formatting
import MethodFlow.Proofs.Scan.Housing
import MethodFlow.Proofs.Scan.JoinedHeaders
import MethodFlow.Proofs.Scan.Layout
import MethodFlow.Proofs.Scan.Moves
import MethodFlow.Proofs.Scan.Nesting
import MethodFlow.Proofs.Scan.Renumbering
import MethodFlow.Proofs.Scan.Turns
import MethodFlow.Proofs.Scan.Wrapping
import MethodFlow.Proofs.Text.Columns
import MethodFlow.Proofs.Text.Masking
import MethodFlow.Proofs.Text.Pieces
import MethodFlow.Proofs.Text.Search
import MethodFlow.Proofs.Text.Unmarked
import MethodFlow.Proofs.Text.Utf8
import MethodFlow.Proofs.Text.Word
import MethodFlow.Proofs.Text.Words
import MethodFlow.Proofs.Tree.Correspondence
import MethodFlow.Proofs.Tree.NodeTexts
import MethodFlow.Proofs.Tree.Roles
import MethodFlow.Proofs.Tree.Sites
import MethodFlow.Proofs.Tree.SpreadParameters
import MethodFlow.Proofs.Tree.Totality
import MethodFlow.Report.Printout
import MethodFlow.Report.Wire
import MethodFlow.Scan.Basic
import MethodFlow.Scan.Feed
import MethodFlow.Settings
import MethodFlow.Statement
import MethodFlow.Text.Alphanumeric
import MethodFlow.Text.Blank
import MethodFlow.Text.Position
import MethodFlow.Text.Printable
import MethodFlow.Text.Quoted
import MethodFlow.Text.Search
import MethodFlow.Text.Utf8
import MethodFlow.Tree.Classes
import MethodFlow.Tree.Node
import MethodFlow.Tree.Statements
