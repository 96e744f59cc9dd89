import DynamicPrompt.Choice.Filter
import DynamicPrompt.Choice.Pool
import DynamicPrompt.Glob
import DynamicPrompt.Quantity
import DynamicPrompt.Scope
import DynamicPrompt.Text.Digit
import DynamicPrompt.Wildcard.Json
import DynamicPrompt.Expression.Basic
import DynamicPrompt.Expression.Parser
import DynamicPrompt.Expression.Evaluation
import DynamicPrompt.Template.Basic
import DynamicPrompt.Template.Parser
import DynamicPrompt.Source.Basic
import DynamicPrompt.Source.Bracket
import DynamicPrompt.Source.Break
import DynamicPrompt.Source.Head
import DynamicPrompt.Source.Label
import DynamicPrompt.Source.Variable
import DynamicPrompt.Source.Variant
import DynamicPrompt.Source.Block
import DynamicPrompt.Source.Reference
import DynamicPrompt.Source.Transpiler
import DynamicPrompt.Engine.Basic
import DynamicPrompt.Engine.Directives
import DynamicPrompt.Proofs.Engine.Unhandled
import DynamicPrompt.Proofs.Template.RoundTrip
import DynamicPrompt.Proofs.Source.Choices
import DynamicPrompt.Proofs.Source.Conditionals
import DynamicPrompt.Proofs.Delimiter.Unclosed
import DynamicPrompt.Proofs.Source.Constructless
import DynamicPrompt.Proofs.Engine.Nesting
import DynamicPrompt.Proofs.Source.Passes
import DynamicPrompt.Proofs.Bindings
import DynamicPrompt.Proofs.Expression.Lookup
import DynamicPrompt.Proofs.Engine.Advance
import DynamicPrompt.Proofs.Engine.FirstMatch
import DynamicPrompt.Proofs.Choice.Count
import DynamicPrompt.Proofs.Choice.Cycle
import DynamicPrompt.Proofs.Engine.Drawing
import DynamicPrompt.Proofs.Template.Blank
import DynamicPrompt.Proofs.Template.Part
import DynamicPrompt.Proofs.Engine.Estimate
import DynamicPrompt.Proofs.Engine.LongestCase
import DynamicPrompt.Proofs.Source.Plain
import DynamicPrompt.Proofs.Delimiter.Separator
import DynamicPrompt.Proofs.Source.Bracketed
import DynamicPrompt.Proofs.Engine.Bracketed
import DynamicPrompt.Proofs.Numeral.Word
import DynamicPrompt.Proofs.Source.Quantified
import DynamicPrompt.Proofs.Expression.Grammar
import DynamicPrompt.Proofs.Expression.Spelling
import DynamicPrompt.Proofs.Source.Condition
import DynamicPrompt.Proofs.Source.Settled
import DynamicPrompt.Proofs.Source.Naming
import DynamicPrompt.Proofs.Source.Counted
import DynamicPrompt.Proofs.Choice.Labelled
import DynamicPrompt.Proofs.Source.Filtered
import DynamicPrompt.Proofs.Engine.Filtered
import DynamicPrompt.Proofs.Engine.Inherited
import DynamicPrompt.Proofs.Agreement
import DynamicPrompt.Proofs.Source.Nesting
import DynamicPrompt.Proofs.Engine.Levels
import DynamicPrompt.Proofs.Text.Line
import DynamicPrompt.Proofs.Source.Line.Block
import DynamicPrompt.Proofs.Source.Lines
import DynamicPrompt.Proofs.Numeral.Natural
import DynamicPrompt.Proofs.Source.Variables
import DynamicPrompt.Proofs.Engine.Fallback
import DynamicPrompt.Proofs.Engine.Readers
import DynamicPrompt.Proofs.Text.Order
import DynamicPrompt.Proofs.Glob
import DynamicPrompt.Proofs.Expression.Printing
import DynamicPrompt.Proofs.Delimiter.Balanced
import DynamicPrompt.Proofs.Choice.Clause
import DynamicPrompt.Proofs.Expression.Adjacency
import DynamicPrompt.Proofs.Choice.Guard
import DynamicPrompt.Proofs.Wildcard
import DynamicPrompt.Proofs.Overrides
import DynamicPrompt.Proofs.Engine.Fixed
import DynamicPrompt.Proofs.Source.Spellings
import DynamicPrompt.Proofs.Choice.Position
import DynamicPrompt.Proofs.Delimiter.Place
import DynamicPrompt.Proofs.Delimiter.Octets
import DynamicPrompt.Proofs.Delimiter.Splitting
import DynamicPrompt.Proofs.Source.Keyword
import DynamicPrompt.Proofs.Choice.Quantity
