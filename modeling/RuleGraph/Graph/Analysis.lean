import RuleGraph.Document.Basic
import RuleGraph.Graph.Order
import RuleGraph.ParseError
/-!
# Checking a graph

A document can be executed if its ids are distinct, it has an input and an output, its edges join
nodes that exist, and it has no cycle. The first thing that is wrong is reported.
-/
namespace RuleGraph

inductive Location where
  | source
  | key (key : String)
  | inputColumn (id : String)
  | cell (rule column : String)
  deriving DecidableEq, Repr

def Location.text : Location → String
  | source => "source"
  | key name => s!"key '{name}'"
  | inputColumn id => s!"input column '{id}'"
  | cell rule column => s!"rule '{rule}', column '{column}'"

inductive ContentFault where
  | noComponent
  | noKey
  | emptyEntryKey
  | noPath (column : String)
  deriving DecidableEq, Repr

def ContentFault.text : ContentFault → String
  | noComponent => "custom node has no component"
  | noKey => "decision node has no key"
  | emptyEntryKey => "expression entry has an empty key"
  | noPath column => s!"output column '{column}' has no field"

/-- Why a document cannot be compiled. -/
inductive CompileError where
  | duplicateNode (id : String)
  | danglingEdge (edge node : String)
  | cycle (nodes : List String)
  | noInput
  | noOutput
  | invalidExpression (node : String) (location : Location) (cause : ParseError)
  | invalidContent (node : String) (fault : ContentFault)
  | parse (cause : ParseError)
  deriving Repr

def CompileError.message : CompileError → String
  | duplicateNode id => "Duplicate node id: " ++ id
  | danglingEdge edge node => s!"Edge '{edge}' references unknown node '{node}'"
  | cycle nodes =>
    "Decision graph contains a cycle (unordered nodes: " ++ ", ".intercalate nodes ++ ")"
  | noInput => "Decision graph has no input node"
  | noOutput => "Decision graph has no output node"
  | invalidExpression node location cause =>
    s!"Invalid expression in node '{node}' ({location.text}): " ++ cause.message
  | invalidContent node fault => s!"Invalid content for node '{node}': " ++ fault.text
  | parse cause => cause.message

namespace Document

def firstRepeated (seen : List String) : List String → Option String
  | [] => none
  | id :: rest => if seen.contains id then some id else firstRepeated (id :: seen) rest

def hasKind (d : Document) (kind : NodeKind) : Bool :=
  d.nodes.any (·.content.kind == kind)

def indexOf? (d : Document) (id : String) : Option Nat :=
  d.nodes.findIdx? (·.id == id)

def ends (d : Document) (e : Edge) : Except CompileError (Nat × Nat) :=
  match d.indexOf? e.source, d.indexOf? e.target with
  | some source, some target => .ok (source, target)
  | none, _ => .error (.danglingEdge e.id e.source)
  | _, none => .error (.danglingEdge e.id e.target)

def idAt (d : Document) (i : Nat) : String :=
  match d.nodes[i]? with
  | some node => node.id
  | none => ""

def layout (d : Document) : Except CompileError Layout := do
  match firstRepeated [] (d.nodes.map (·.id)) with
  | some id => throw (.duplicateNode id)
  | none =>
    if !d.hasKind .input then throw .noInput
    if !d.hasKind .output then throw .noOutput
    let edges ← d.edges.mapM d.ends
    match Layout.ofEdges d.nodes.length edges with
    | .ok layout => return layout
    | .error rest => throw (.cycle (rest.map d.idAt))

end Document
end RuleGraph
