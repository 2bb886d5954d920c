import RuleGraph.Json.Basic
import RuleGraph.Json.Printer
import RuleGraph.Text.Blank
/-!
# Decision documents

A document is a graph as its author wrote it: nodes of several kinds, with edges between them.
-/
namespace RuleGraph

inductive HitPolicy where
  | first
  | collect
  deriving DecidableEq, Repr

structure Column where
  id : String
  name : String
  /-- For an input the expression that its cells test, for an output the path of its value. -/
  field : Option String
  deriving DecidableEq, Repr

structure Rule where
  id : Option String
  /-- Whether the rule counts only if no other one matches. -/
  isDefault : Bool
  description : Option String
  cells : List (String × Json)
  deriving Repr

structure TableContent where
  policy : HitPolicy
  inputs : List Column
  outputs : List Column
  rules : List Rule
  /-- Whether the output is merged over the input. -/
  passThrough : Bool
  deriving Repr

structure ExpressionEntry where
  id : String
  key : String
  value : String
  deriving DecidableEq, Repr

inductive Content where
  /-- The context, or of it only the fields of a schema. -/
  | input (schema : Option (List String))
  | output
  | table (content : TableContent)
  | expressions (entries : List ExpressionEntry) (passThrough : Bool)
  | function (source : String)
  | custom (component : String) (config : Json)
  | decision (key : String)
  deriving Repr

structure Node where
  id : String
  name : String
  content : Content
  deriving Repr

structure Edge where
  id : String
  source : String
  target : String
  deriving DecidableEq, Repr

def Edge.between (source target : String) : Edge :=
  ⟨source ++ "->" ++ target, source, target⟩

structure Document where
  nodes : List Node
  edges : List Edge
  deriving Repr

inductive NodeKind where
  | input | output | table | expressions | function | custom | decision
  deriving DecidableEq, Repr

def NodeKind.tag : NodeKind → String
  | input => "inputNode"
  | output => "outputNode"
  | table => "decisionTableNode"
  | expressions => "expressionNode"
  | function => "functionNode"
  | custom => "customNode"
  | decision => "decisionNode"

def NodeKind.ofTag? (tag : String) : Option NodeKind :=
  [input, output, table, expressions, function, custom, decision].find? (·.tag == tag)

def Content.kind : Content → NodeKind
  | input _ => .input
  | output => .output
  | table _ => .table
  | expressions _ _ => .expressions
  | function _ => .function
  | custom _ _ => .custom
  | decision _ => .decision

def Document.node? (d : Document) (id : String) : Option Node :=
  d.nodes.find? (·.id == id)

/-- The text of a cell. What is absent, null or blank is no cell, and what is no text stands for its
JSON text. -/
def Rule.cell (rule : Rule) (column : String) : Option String :=
  match Members.get? column rule.cells with
  | none => none
  | some .null => none
  | some (.string s) => if Text.allBlank s then none else some s
  | some j => some j.text

end RuleGraph
