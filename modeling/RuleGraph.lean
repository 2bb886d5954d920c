import RuleGraph.Decision.Basic
import RuleGraph.Decision.Compile
import RuleGraph.Decision.Json
import RuleGraph.Document.Basic
import RuleGraph.Document.Content
import RuleGraph.Document.Reader
import RuleGraph.Engine.Basic
import RuleGraph.Engine.Config
import RuleGraph.Engine.Error
import RuleGraph.Engine.Loader
import RuleGraph.Engine.Path
import RuleGraph.Engine.Standalone
import RuleGraph.Expr.Basic
import RuleGraph.Expr.Builtin
import RuleGraph.Expr.Cursor
import RuleGraph.Expr.Eval
import RuleGraph.Expr.EvalError
import RuleGraph.Expr.Fold
import RuleGraph.Expr.Function
import RuleGraph.Expr.Json
import RuleGraph.Expr.Lexer
import RuleGraph.Expr.Operation
import RuleGraph.Expr.Operator
import RuleGraph.Expr.Parser
import RuleGraph.Expr.Scope
import RuleGraph.Expr.Token
import RuleGraph.Form
import RuleGraph.Graph.Analysis
import RuleGraph.Graph.Order
import RuleGraph.Host.Registry
import RuleGraph.Host.Request
import RuleGraph.Json.Basic
import RuleGraph.Json.Printer
import RuleGraph.Json.Reader
import RuleGraph.Json.Token
import RuleGraph.Json.Variant
import RuleGraph.Json.Written
import RuleGraph.Members
import RuleGraph.Number.Binary64
import RuleGraph.Number.Notation
import RuleGraph.Number.Reading
import RuleGraph.Number.Shortest
import RuleGraph.ParseError
import RuleGraph.Run.Context
import RuleGraph.Run.Error
import RuleGraph.Run.Evaluate
import RuleGraph.Run.Options
import RuleGraph.Run.Progress
import RuleGraph.Run.Table
import RuleGraph.Run.Trace
import RuleGraph.Template
import RuleGraph.Text.Blank
import RuleGraph.Text.Casing
import RuleGraph.Text.Letter
import RuleGraph.Text.Pieces
import RuleGraph.Text.Printable
import RuleGraph.Text.Quoted
import RuleGraph.Text.Ranges
import RuleGraph.Value.Basic
import RuleGraph.Value.Conversion
import RuleGraph.Value.Explicit
import RuleGraph.Value.Json
import RuleGraph.Value.Merge
import RuleGraph.Value.Path
import RuleGraph.Yaml.Layout
import RuleGraph.Yaml.Node
import RuleGraph.Yaml.Plain
import RuleGraph.Yaml.Reader
import RuleGraph.Yaml.Scalar
import RuleGraph.Yaml.Spot
import RuleGraph.Yaml.Token
import RuleGraph.Proofs.Results
import RuleGraph.Proofs.Expr.Closure
import RuleGraph.Proofs.Expr.Evaluation
import RuleGraph.Proofs.Folding.Expression
import RuleGraph.Proofs.Folding.Compile
import RuleGraph.Proofs.Run.Progress
import RuleGraph.Proofs.Folding.Decision
import RuleGraph.Proofs.Run.Recording
import RuleGraph.Proofs.Table.Selection
import RuleGraph.Proofs.Graph.Cycle
import RuleGraph.Proofs.Graph.Placement
import RuleGraph.Proofs.Graph.Countdown
import RuleGraph.Proofs.Graph.Layout
import RuleGraph.Proofs.Run.Underway
import RuleGraph.Proofs.Run.History
import RuleGraph.Proofs.Run.Faults
import RuleGraph.Proofs.Run.Settled
import RuleGraph.Proofs.Run.Rearranging
import RuleGraph.Proofs.Table.Columns
import RuleGraph.Proofs.Decision.WellFormed
import RuleGraph.Proofs.Decision.Guarantees
import RuleGraph.Proofs.Engine.Keeping
import RuleGraph.Proofs.Number.Bits
import RuleGraph.Proofs.Number.Rounding
import RuleGraph.Proofs.Number.Integers
import RuleGraph.Proofs.Value.Finite
import RuleGraph.Proofs.Expr.Finite
import RuleGraph.Proofs.Expr.Overflow
import RuleGraph.Proofs.Parsing.Rendering
import RuleGraph.Proofs.Parsing.Reading
import RuleGraph.Proofs.Parsing.Levels
import RuleGraph.Proofs.Parsing.Constructs
import RuleGraph.Proofs.Parsing.Brackets
import RuleGraph.Proofs.Parsing.RoundTrip
import RuleGraph.Proofs.Parsing.Grammar
import RuleGraph.Proofs.Parsing.Lexing
import RuleGraph.Proofs.Parsing.Tokens
import RuleGraph.Proofs.Parsing.Soundness
import RuleGraph.Proofs.Parsing.Continuation
import RuleGraph.Proofs.Parsing.Alternatives
import RuleGraph.Proofs.Parsing.Completeness
import RuleGraph.Proofs.Parsing.Cells
import RuleGraph.Proofs.Parsing.OpenBrackets
import RuleGraph.Proofs.Parsing.DeepBrackets
import RuleGraph.Proofs.Parsing.Height
import RuleGraph.Proofs.Parsing.Failures
import RuleGraph.Proofs.Template.Span
import RuleGraph.Proofs.Template.Embedding
import RuleGraph.Proofs.Template.Strings
import RuleGraph.Proofs.Template.Closing
import RuleGraph.Proofs.Template.Splitting
import RuleGraph.Proofs.Expr.Visibility
import RuleGraph.Proofs.Run.Levels
import RuleGraph.Proofs.Run.Calls
import RuleGraph.Proofs.Run.Correspondence
import RuleGraph.Proofs.Run.FailurePath
import RuleGraph.Proofs.Run.Repeating
import RuleGraph.Proofs.Engine.Transparency
import RuleGraph.Proofs.Value.Parts
import RuleGraph.Proofs.Value.Ordered
import RuleGraph.Proofs.Value.Lens
import RuleGraph.Proofs.Value.Merging
import RuleGraph.Proofs.Expr.Ordered
import RuleGraph.Proofs.Expr.Substitution
import RuleGraph.Proofs.Expr.Calls
import RuleGraph.Proofs.Expr.Spellings
import RuleGraph.Proofs.Decision.Pipeline
import RuleGraph.Proofs.Number.Exact
import RuleGraph.Proofs.Value.Stored
import RuleGraph.Proofs.Json.Fields
import RuleGraph.Proofs.Expr.Stored
import RuleGraph.Proofs.Decision.Stored
import RuleGraph.Proofs.Value.Divergent
import RuleGraph.Proofs.Table.Arranging
import RuleGraph.Proofs.Expr.Nodes
import RuleGraph.Proofs.Folding.NormalForm
import RuleGraph.Proofs.Expr.Coherence
import RuleGraph.Proofs.Expr.Access
import RuleGraph.Proofs.Text.Pieces
import RuleGraph.Proofs.Text.Bytes
import RuleGraph.Proofs.Value.Walks
import RuleGraph.Proofs.Engine.Folder
import RuleGraph.Proofs.Run.SelfContained
import RuleGraph.Proofs.Number.Nearest
import RuleGraph.Proofs.Number.Decimals
import RuleGraph.Proofs.Number.Identifying
import RuleGraph.Proofs.Number.Spelling
import RuleGraph.Proofs.Number.ReadBack
import RuleGraph.Proofs.Json.Rereading
import RuleGraph.Proofs.Json.Trees
import RuleGraph.Proofs.Json.Lexed
import RuleGraph.Proofs.Json.TextTokens
import RuleGraph.Proofs.Json.TextTrees
import RuleGraph.Proofs.Decision.StoredText
import RuleGraph.Proofs.Table.Literals
import RuleGraph.Proofs.Template.Sum
import RuleGraph.Proofs.Expr.Joining
import RuleGraph.Proofs.Parsing.LongestTokens
import RuleGraph.Proofs.Parsing.Indexed
import RuleGraph.Proofs.Parsing.Course
import RuleGraph.Proofs.Parsing.Calls
import RuleGraph.Proofs.Parsing.Following
import RuleGraph.Proofs.Parsing.Progress
import RuleGraph.Proofs.Value.Text
