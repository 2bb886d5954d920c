import RuleGraph.Expr.EvalError
import RuleGraph.ParseError
import RuleGraph.Run.Progress
import RuleGraph.Value.Conversion
/-!
# Why an evaluation fails

A failure inside a node is wrapped with the id of the node, once for each node on the way out.
-/
namespace RuleGraph

/-- What a component of the host reports: messages from the outermost to the innermost one. -/
abbrev Failure := List String

def Failure.message (f : Failure) : String :=
  ": ".intercalate f

inductive RunError where
  | eval (cause : EvalError)
  | parse (cause : ParseError)
  | conversion (cause : ConversionError)
  | progress (fault : ProgressFault)
  | pathNotFound (path : String)
  | depthExceeded (limit : UInt8)
  | resolution (key message : String)
  | noHandler (node : String)
  | component (node message : String)
  | inNode (node : String) (cause : RunError)
  deriving Repr

namespace RunError

def message : RunError → String
  | eval cause => cause.message
  | parse cause => cause.message
  | conversion cause => cause.message
  | progress fault => "Invalid operation: " ++ fault.text
  | pathNotFound path => "Path not found: " ++ path
  | depthExceeded limit =>
    s!"Depth limit exceeded: maximum sub-decision depth is {limit.toNat}"
  | resolution key message => s!"Failed to resolve decision '{key}': {message}"
  | noHandler node =>
    s!"Custom node '{node}' cannot be evaluated: no custom node handler is configured"
  | component node message => s!"Custom node '{node}' failed: {message}"
  | inNode node cause => s!"Node '{node}' failed: " ++ cause.message

/-- Names the node in which an error arose. A node that fails inside of itself is named once. -/
def within (node : String) (e : RunError) : RunError :=
  match e with
  | inNode inner _ => if inner = node then e else .inNode node e
  | _ => .inNode node e

/-- The cause under all names of nodes. -/
def root : RunError → RunError
  | inNode _ cause => cause.root
  | e => e

end RunError
end RuleGraph
