import RuleGraph.Run.Error
import RuleGraph.Run.Trace
import RuleGraph.Template
/-!
# Requests to the host

What the host gets to know when it evaluates a custom node. Texts in the configuration of the node
can be templates over the input.
-/
namespace RuleGraph

structure CustomNode where
  id : String
  name : String
  component : String
  config : Json
  deriving Repr

structure Request where
  node : CustomNode
  input : Value
  iteration : UInt8
  deriving Repr

abbrev Handler := Request → Except Failure Outcome

def CustomNode.toJson (n : CustomNode) : Json :=
  .record [
    ("id", .string n.id),
    ("name", .string n.name),
    ("component", .string n.component),
    ("config", n.config)]

def Request.toJson (r : Request) : Json :=
  .record [
    ("node", r.node.toJson),
    ("input", r.input.toJson),
    ("iteration", .integer r.iteration.toNat)]

/-- What a path of names and indices leads to in a tree; an empty one to all of it. -/
def Json.at? (path : String) (j : Json) : Option Json :=
  if path = "" then some j else j.getPath (Text.dotted path)

namespace Request
variable {α : Type}

def config (r : Request) (path : String) : Except RunError Json :=
  match r.node.config.at? path with
  | some j => .ok j
  | none => .error (.pathNotFound path)

def rawField (r : Request) (decode : Json → Option α) (path : String) : Except RunError α := do
  (Json.convert decode (← r.config path)).mapError .conversion

def render (r : Request) (text : String) : Except RunError Value := do
  let template ← (Template.parse text).mapError .parse
  (template.render (.ofRoot r.input)).mapError .eval

/-- A field of the configuration. If it is a text with spans, their values take their places. -/
def field (r : Request) (decode : Json → Option α) (path : String) : Except RunError α := do
  match ← r.config path with
  | .string text =>
    if Template.hasSpans text then
      ((← r.render text).convert decode).mapError .conversion
    else (Json.convert decode (.string text)).mapError .conversion
  | j => (Json.convert decode j).mapError .conversion

end Request
end RuleGraph
