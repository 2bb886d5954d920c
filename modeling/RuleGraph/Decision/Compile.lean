import RuleGraph.Decision.Basic
import RuleGraph.Document.Reader
import RuleGraph.Expr.Fold
import RuleGraph.Expr.Parser
import RuleGraph.Graph.Analysis
/-!
# Compiling documents
-/
namespace RuleGraph

structure Compiler where
  /-- Whether constant parts of expressions are evaluated in advance. -/
  folds : Bool

namespace Compiler

def standard : Compiler :=
  ⟨true⟩

def finish (c : Compiler) (e : Expr) : Expr :=
  if c.folds then e.fold else e

def expression (c : Compiler) (node : String) (location : Location) (source : String) :
    Except CompileError Expr :=
  match Expr.parse source with
  | .ok e => .ok (c.finish e)
  | .error cause => .error (.invalidExpression node location cause)

def test (c : Compiler) (node : String) (location : Location) (source : String) :
    Except CompileError Expr :=
  match Expr.parseCell source with
  | .ok e => .ok (c.finish e)
  | .error cause => .error (.invalidExpression node location cause)

def path (source : String) : List String :=
  (Text.dotted source).map Text.trim

def fieldOf (column : Column) : Option String :=
  match column.field.map Text.trim with
  | some "" => none
  | field => field

def inputColumn (c : Compiler) (node : String) (column : Column) :
    Except CompileError TableInput := do
  match fieldOf column with
  | some field =>
    return ⟨column.id, column.name, ← c.expression node (.inputColumn column.id) field⟩
  | none => return ⟨column.id, column.name, none⟩

def outputColumn (node : String) (column : Column) : Except CompileError TableOutput :=
  match fieldOf column with
  | some field => .ok ⟨column.id, column.name, path field⟩
  | none => .error (.invalidContent node (.noPath column.id))

def ruleLabel (index : Nat) (rule : Rule) : String :=
  rule.id.getD (toString index)

/-- The cell of a rule in an input column: a test of the field, or a condition if there is none. -/
def condition (c : Compiler) (node label : String) (rule : Rule) (column : Column) :
    Except CompileError (Option Expr) := do
  match rule.cell column.id with
  | none => return none
  | some cell =>
    let location := Location.cell label column.id
    if (fieldOf column).isSome then return ← c.test node location cell
    else return ← c.expression node location cell

def outputCell (c : Compiler) (node label : String) (rule : Rule) (column : Column) :
    Except CompileError (Option Expr) := do
  match rule.cell column.id with
  | none => return none
  | some cell => return ← c.expression node (.cell label column.id) cell

def row (c : Compiler) (node : String) (content : TableContent) (index : Nat) (rule : Rule) :
    Except CompileError Row := do
  let label := ruleLabel index rule
  return {
    index := index
    id := rule.id
    isDefault := rule.isDefault
    conditions := ← content.inputs.mapM (c.condition node label rule)
    outputs := ← content.outputs.mapM (c.outputCell node label rule) }

def rows (c : Compiler) (node : String) (content : TableContent) :
    (index : Nat) → List Rule → Except CompileError (List Row)
  | _, [] => .ok []
  | index, rule :: rest => do
    let r ← c.row node content index rule
    return r :: (← rows c node content (index + 1) rest)

def table (c : Compiler) (node : String) (content : TableContent) : Except CompileError Table := do
  return {
    policy := content.policy
    inputs := ← content.inputs.mapM (c.inputColumn node)
    outputs := ← content.outputs.mapM (outputColumn node)
    rows := ← c.rows node content 0 content.rules
    passThrough := content.passThrough }

def entry (c : Compiler) (node : String) (e : ExpressionEntry) :
    Except CompileError (List String × Expr) := do
  let key := Text.trim e.key
  if key = "" then throw (.invalidContent node .emptyEntryKey)
  return (path key, ← c.expression node (.key key) e.value)

def program (c : Compiler) (node : String) : Content → Except CompileError Program
  | .input schema => .ok (.input schema)
  | .output => .ok .output
  | .table content => do return .table (← c.table node content)
  | .expressions entries passThrough => do
    return .expressions (← entries.mapM (c.entry node)) passThrough
  | .function source => do return .function (← c.expression node .source source)
  | .custom component config =>
    if Text.allBlank component then .error (.invalidContent node .noComponent)
    else .ok (.custom component config)
  | .decision key =>
    if Text.allBlank key then .error (.invalidContent node .noKey) else .ok (.decision key)

/-- The step of the node at a place of the document, with the positions of its sources. -/
def stepAt (c : Compiler) (d : Document) (layout : Layout) (i : Nat) :
    Except CompileError (Option Step) := do
  match d.nodes[i]? with
  | none => return none
  | some node =>
    return some {
      id := node.id
      name := node.name
      sources := (layout.sources.getD i []).map layout.order.idxOf
      program := ← c.program node.id node.content }

def outputPositions (steps : List Step) : List Nat :=
  (List.range steps.length).filter fun i => match steps[i]? with
    | some step => step.program.kind == .output
    | none => false

def version : String := "0.1.0"

def compile (c : Compiler) (d : Document) (key : Option String) : Except CompileError Decision := do
  let layout ← d.layout
  let steps := (← layout.order.mapM (c.stepAt d layout)).filterMap id
  return ⟨steps, outputPositions steps, key, d.edges.length, version⟩

def compileBytes (c : Compiler) (bytes : List UInt8) (key : Option String) :
    Except CompileError Decision :=
  match Document.parse bytes with
  | .ok d => c.compile d key
  | .error cause => .error (.parse cause)

end Compiler
end RuleGraph
