import RuleGraph.Document.Basic
import RuleGraph.Expr.Basic
/-!
# Compiled decisions

A compiled decision holds its nodes in the order in which they are executed. Nodes refer to each
other by their positions in that order, and expressions are parsed.
-/
namespace RuleGraph

structure TableInput where
  id : String
  name : String
  /-- What the cells of the column test; without it they are conditions of their own. -/
  field : Option Expr
  deriving Repr

structure TableOutput where
  id : String
  name : String
  path : List String
  deriving Repr

structure Row where
  index : Nat
  id : Option String
  isDefault : Bool
  /-- A test for each input column; an empty cell has none. -/
  conditions : List (Option Expr)
  outputs : List (Option Expr)
  deriving Repr

structure Table where
  policy : HitPolicy
  inputs : List TableInput
  outputs : List TableOutput
  rows : List Row
  passThrough : Bool
  deriving Repr

inductive Program where
  | input (schema : Option (List String))
  | output
  | table (table : Table)
  | expressions (entries : List (List String × Expr)) (passThrough : Bool)
  | function (source : Expr)
  | custom (component : String) (config : Json)
  | decision (key : String)
  deriving Repr

def Program.kind : Program → NodeKind
  | input _ => .input
  | output => .output
  | table _ => .table
  | expressions _ _ => .expressions
  | function _ => .function
  | custom _ _ => .custom
  | decision _ => .decision

def Program.isExternal : Program → Bool
  | custom _ _ | decision _ => true
  | _ => false

structure Step where
  id : String
  name : String
  /-- The positions of the nodes that it gets its input from, in the order of the edges. -/
  sources : List Nat
  program : Program
  deriving Repr

structure Decision where
  steps : List Step
  outputs : List Nat
  key : Option String
  edgeCount : Nat
  version : String
  deriving Repr

namespace Decision

def step? (d : Decision) (id : String) : Option Step :=
  d.steps.find? (·.id == id)

def hasExternal (d : Decision) : Bool :=
  d.steps.any (·.program.isExternal)

end Decision
end RuleGraph
