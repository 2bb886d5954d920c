import RuleGraph.Expr.Basic
import RuleGraph.Json.Variant
import RuleGraph.Value.Json
/-!
# Stored expressions

Each kind of expression is a variant under its tag.
-/
namespace RuleGraph.Expr

mutual

def toJson : Expr → Json
  | .literal v => .variant "Literal" v.toJson
  | .field path => .variant "FieldAccess" (.strings path)
  | .subject => .string "Subject"
  | .element => .string "ClosureElement"
  | .index base key => .variant "Index" (.record [("object", base.toJson), ("index", key.toJson)])
  | .binary left op right =>
    .variant "Binary"
      (.record [("left", left.toJson), ("op", .string op.tag), ("right", right.toJson)])
  | .unary op operand =>
    .variant "Unary" (.record [("op", .string op.tag), ("operand", operand.toJson)])
  | .call f args =>
    .variant "FunctionCall"
      (.record [("function", .string f.tag), ("args", .array (allToJson args))])
  | .ternary condition yes no =>
    .variant "Ternary"
      (.record
        [("condition", condition.toJson), ("true_expr", yes.toJson), ("false_expr", no.toJson)])
  | .array items => .variant "Array" (.array (allToJson items))
  | .object entries => .variant "Object" (.array (entriesToJson entries))
  | .interval start stop startIncluded stopIncluded =>
    .variant "Interval"
      (.record [("start", start.toJson), ("end", stop.toJson),
        ("start_inclusive", .bool startIncluded), ("end_inclusive", .bool stopIncluded)])
termination_by structural e => e

def allToJson : List Expr → List Json
  | [] => []
  | e :: rest => e.toJson :: allToJson rest
termination_by structural es => es

def entriesToJson : List (String × Expr) → List Json
  | [] => []
  | (key, e) :: rest => .array [.string key, e.toJson] :: entriesToJson rest
termination_by structural entries => entries

end

def entryOf (decode : Json → Option Expr) : Json → Option (String × Expr)
  | .array [.string key, e] => do return (key, ← decode e)
  | _ => none

/-- Reads a stored expression. No expression nests more deeply than the tree that it is read from,
which gives the `fuel`. -/
def decode : (fuel : Nat) → Json → Option Expr
  | 0, j =>
    match j.tag? with
    | some "Subject" => some .subject
    | some "ClosureElement" => some .element
    | _ => none
  | fuel + 1, j => do
    match ← j.variant? with
    | ("Subject", _) => if j.tag?.isSome then some .subject else none
    | ("ClosureElement", _) => if j.tag?.isSome then some .element else none
    | ("Literal", some content) => some (.literal (.ofJson content))
    | ("FieldAccess", some content) => do return .field (← content.strings?)
    | ("Index", some content) => do
      let fields ← content.fields? ["object", "index"]
      let base ← decode fuel (← fields.lookup "object")
      let key ← decode fuel (← fields.lookup "index")
      return .index base key
    | ("Binary", some content) => do
      let fields ← content.fields? ["left", "op", "right"]
      let left ← decode fuel (← fields.lookup "left")
      let op ← Operator.ofTag? (← (← fields.lookup "op").tag?)
      let right ← decode fuel (← fields.lookup "right")
      return .binary left op right
    | ("Unary", some content) => do
      let fields ← content.fields? ["op", "operand"]
      let op ← UnaryOperator.ofTag? (← (← fields.lookup "op").tag?)
      let operand ← decode fuel (← fields.lookup "operand")
      return .unary op operand
    | ("FunctionCall", some content) => do
      let fields ← content.fields? ["function", "args"]
      let f ← Builtin.ofTag? (← (← fields.lookup "function").tag?)
      let args ← (← (← fields.lookup "args").array?).mapM (decode fuel)
      return .call f args
    | ("Ternary", some content) => do
      let fields ← content.fields? ["condition", "true_expr", "false_expr"]
      let condition ← decode fuel (← fields.lookup "condition")
      let yes ← decode fuel (← fields.lookup "true_expr")
      let no ← decode fuel (← fields.lookup "false_expr")
      return .ternary condition yes no
    | ("Array", some content) => do return .array (← (← content.array?).mapM (decode fuel))
    | ("Object", some content) => do
      return .object (← (← content.array?).mapM (entryOf (decode fuel)))
    | ("Interval", some content) => do
      let fields ← content.fields? ["start", "end", "start_inclusive", "end_inclusive"]
      let start ← decode fuel (← fields.lookup "start")
      let stop ← decode fuel (← fields.lookup "end")
      let startIncluded ← (← fields.lookup "start_inclusive").bool?
      let stopIncluded ← (← fields.lookup "end_inclusive").bool?
      return .interval start stop startIncluded stopIncluded
    | _ => none

def ofJson? (j : Json) : Option Expr :=
  decode j.depth j

def ofText? (text : String) : Option Expr :=
  (Json.read text.toUTF8.toList).bind ofJson?

end RuleGraph.Expr
