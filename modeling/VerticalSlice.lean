import VerticalSlice.Text.Blank
import VerticalSlice.Text.Word
import VerticalSlice.Text.Printable
import VerticalSlice.Text.Case
import VerticalSlice.Text.Search
import VerticalSlice.Text.Lines
import VerticalSlice.Text.Utf8
import VerticalSlice.Text.Quoted
import VerticalSlice.Path
import VerticalSlice.FileTree
import VerticalSlice.Json.Reader
import VerticalSlice.Feature.Template
import VerticalSlice.Color.Source
import VerticalSlice.Syntax.Query
import VerticalSlice.Verdict
import VerticalSlice.Rule.Check
import VerticalSlice.Feature.Generation
import VerticalSlice.Command.Program
import VerticalSlice.Main
import VerticalSlice.Proofs.Tree.Listing
import VerticalSlice.Proofs.FeatureImports.Destination
import VerticalSlice.Proofs.Text.Utf8
import VerticalSlice.Proofs.Syntax.Depth
import VerticalSlice.Proofs.Syntax.Probe
import VerticalSlice.Proofs.Syntax.Cutting
import VerticalSlice.Proofs.Syntax.Substitution
import VerticalSlice.Proofs.Syntax.FilledLexemes
import VerticalSlice.Proofs.Feature.Spelling
import VerticalSlice.Proofs.Feature.Holes
import VerticalSlice.Proofs.Syntax.Translation
import VerticalSlice.Proofs.Syntax.Enclosing
import VerticalSlice.Proofs.Syntax.Derivation
import VerticalSlice.Proofs.Syntax.FilledTree
import VerticalSlice.Proofs.Syntax.FilledQuery
import VerticalSlice.Proofs.Color.Colorless
import VerticalSlice.Proofs.Color.Joined
import VerticalSlice.Proofs.Color.Filled
import VerticalSlice.Proofs.Feature.Program
import VerticalSlice.Proofs.FeatureRoutes.Filled
import VerticalSlice.Proofs.Path.Normalize
import VerticalSlice.Proofs.Feature.Sources
import VerticalSlice.Proofs.Feature.Outlines
import VerticalSlice.Proofs.Feature.Files
import VerticalSlice.Proofs.Tree.Growth
import VerticalSlice.Proofs.Tree.Order
import VerticalSlice.Proofs.Feature.Writing
import VerticalSlice.Proofs.Feature.Reading
import VerticalSlice.Proofs.Feature.Checks
import VerticalSlice.Proofs.Feature.Addition
import VerticalSlice.Proofs.AppRoutes.Composition
import VerticalSlice.Proofs.Text.Letters
import VerticalSlice.Proofs.Text.Occurrence
import VerticalSlice.Proofs.Tree.Rewriting
import VerticalSlice.Proofs.Feature.Faults
import VerticalSlice.Proofs.Feature.Registrations
import VerticalSlice.Proofs.FeatureImports.SourceRoot
import VerticalSlice.Proofs.Syntax.Edge
import VerticalSlice.Proofs.Syntax.Front
import VerticalSlice.Proofs.Syntax.InsertedItem
import VerticalSlice.Proofs.Syntax.Concatenation
import VerticalSlice.Proofs.Syntax.FilledFront
import VerticalSlice.Proofs.FeatureRoutes.Composition
import VerticalSlice.Proofs.Structure.Placement
import VerticalSlice.Proofs.Color.Lines
import VerticalSlice.Proofs.Color.Approval
import VerticalSlice.Proofs.Color.Padding
import VerticalSlice.Proofs.Color.Sheet
import VerticalSlice.Proofs.Path.Written
import VerticalSlice.Proofs.Tree.Alike
import VerticalSlice.Proofs.Check.Locality
import VerticalSlice.Proofs.Syntax.Move
import VerticalSlice.Proofs.Check.Loosening
import VerticalSlice.Proofs.FeatureRoutes.Missing
import VerticalSlice.Proofs.Workspace.Faults
import VerticalSlice.Proofs.Check.Unreadable
import VerticalSlice.Proofs.Syntax.Focus
import VerticalSlice.Proofs.Syntax.Amount
import VerticalSlice.Proofs.Syntax.Arrays
import VerticalSlice.Proofs.Syntax.Origin
import VerticalSlice.Proofs.Syntax.Lexical
import VerticalSlice.Proofs.Syntax.Exports
import VerticalSlice.Proofs.Syntax.Outer
import VerticalSlice.Proofs.Syntax.Places
import VerticalSlice.Proofs.Syntax.Planting
import VerticalSlice.Proofs.Check.Report
import VerticalSlice.Proofs.Command.Gate
import VerticalSlice.Proofs.Feature.Keeping
import VerticalSlice.Proofs.Check.Trivia
import VerticalSlice.Proofs.Feature.Entry
import VerticalSlice.Proofs.Feature.Table
import VerticalSlice.Proofs.Feature.Routing
import VerticalSlice.Proofs.Feature.Retabling
import VerticalSlice.Proofs.Feature.Runs
import VerticalSlice.Proofs.Feature.Presence
import VerticalSlice.Proofs.Feature.AnyRoute
import VerticalSlice.Proofs.Feature.Appending
import VerticalSlice.Proofs.Color.Arguments
import VerticalSlice.Proofs.Color.Interpolation
import VerticalSlice.Proofs.Color.Underscores
import VerticalSlice.Proofs.Color.Inlining
import VerticalSlice.Proofs.Color.Literals
import VerticalSlice.Proofs.AppRoutes.Loaders
import VerticalSlice.Proofs.Feature.Regenerating
import VerticalSlice.Proofs.Feature.Safety
import VerticalSlice.Proofs.Feature.LineEnds
import VerticalSlice.Proofs.Tree.Collection
import VerticalSlice.Proofs.Workspace.Nearest
import VerticalSlice.Proofs.Workspace.Keys
import VerticalSlice.Proofs.Feature.Conventions
import VerticalSlice.Proofs.Syntax.Interface
import VerticalSlice.Proofs.Feature.Linking
import VerticalSlice.Proofs.Syntax.Imports
import VerticalSlice.Proofs.Json.WellFormed
import VerticalSlice.Proofs.Workspace.Selection
import VerticalSlice.Proofs.Syntax.Delimited
import VerticalSlice.Proofs.Syntax.Lines
import VerticalSlice.Proofs.FeatureImports.Order
import VerticalSlice.Proofs.Syntax.Walk
