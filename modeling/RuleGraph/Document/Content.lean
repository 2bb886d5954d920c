import RuleGraph.Document.Basic
import RuleGraph.Json.Variant
/-!
# The content of nodes in JSON

Each kind of node has its own fields, most of which may be absent. The content of an output node is
not looked at.
-/
namespace RuleGraph

def HitPolicy.tag : HitPolicy → String
  | first => "first"
  | collect => "collect"

def HitPolicy.ofJson? (j : Json) : Option HitPolicy := do
  match ← j.tag? with
  | "first" => some .first
  | "collect" => some .collect
  | _ => none

namespace Json

def record? (names : List String) (j : Json) : Option (List (String × Json)) :=
  form.record (names.map .named) j

def optionalString (fields : List (String × Json)) (name : String) : Option (Option String) :=
  optional string? (fields.lookup name)

end Json

open Form

def Column.ofJson? (j : Json) : Option Column := do
  let fields ← j.record? ["id", "name", "field"]
  return {
    id := ← required Json.string? fields "id"
    name := ← orDefault Json.string? "" fields "name"
    field := ← Json.optionalString fields "field" }

def Rule.fieldNames : List String :=
  ["_id", "_default", "_description"]

/-- A rule is an object: besides three fields of its own it has the cells. -/
def Rule.ofJson? : Json → Option Rule
  | .object members => do
    return {
      id := ← Json.optionalString members "_id"
      isDefault := ← orDefault Json.bool? false members "_default"
      description := ← Json.optionalString members "_description"
      cells := members.filter fun (key, _) => !Rule.fieldNames.contains key }
  | _ => none

def TableContent.ofJson? (j : Json) : Option TableContent := do
  let fields ← j.record? ["hitPolicy", "inputs", "outputs", "rules", "passThrough"]
  return {
    policy := ← orDefault HitPolicy.ofJson? .first fields "hitPolicy"
    inputs := ← orDefault (listOf Json.form Column.ofJson?) [] fields "inputs"
    outputs := ← orDefault (listOf Json.form Column.ofJson?) [] fields "outputs"
    rules := ← orDefault (listOf Json.form Rule.ofJson?) [] fields "rules"
    passThrough := ← orDefault Json.bool? false fields "passThrough" }

def ExpressionEntry.ofJson? (j : Json) : Option ExpressionEntry := do
  let fields ← j.record? ["id", "key", "value"]
  return {
    id := ← orDefault Json.string? "" fields "id"
    key := ← required Json.string? fields "key"
    value := ← required Json.string? fields "value" }

/-- The content of a node of the given kind. Only an input node can do without one, and a function
may be its source alone. -/
def Content.ofJson? (kind : NodeKind) (j : Json) : Option Content :=
  match kind, j with
  | .input, .null => some (.input none)
  | .input, j => do
    let fields ← j.record? ["schema"]
    return .input (← Json.optional Json.strings? (fields.lookup "schema"))
  | .output, _ => some .output
  | .table, j => do return .table (← TableContent.ofJson? j)
  | .expressions, j => do
    let fields ← j.record? ["expressions", "passThrough"]
    let entries ← orDefault (listOf Json.form ExpressionEntry.ofJson?) [] fields "expressions"
    return .expressions entries (← orDefault Json.bool? false fields "passThrough")
  | .function, .string source => some (.function source)
  | .function, j => do
    let fields ← j.record? ["source"]
    return .function (← required Json.string? fields "source")
  | .custom, j => do
    let fields ← j.record? ["component", "config"]
    let component ← required Json.string? fields "component"
    return .custom component ((fields.lookup "config").getD .null)
  | .decision, j => do
    let fields ← j.record? ["key"]
    return .decision (← required Json.string? fields "key")

def Json.ofOption : Option String → Json
  | some s => .string s
  | none => .null

def Column.toJson (c : Column) : Json :=
  .record [("id", .string c.id), ("name", .string c.name), ("field", .ofOption c.field)]

def Rule.toJson (r : Rule) : Json :=
  let description := match r.description with
    | some s => [("_description", Json.string s)]
    | none => []
  .record ([("_id", .ofOption r.id), ("_default", .bool r.isDefault)] ++ description ++ r.cells)

def ExpressionEntry.toJson (e : ExpressionEntry) : Json :=
  .record [("id", .string e.id), ("key", .string e.key), ("value", .string e.value)]

def Content.toJson : Content → Json
  | input schema => .record [("schema", match schema with
      | some names => .strings names
      | none => .null)]
  | output => .null
  | table t => .record [
      ("hitPolicy", .string t.policy.tag),
      ("inputs", .array (t.inputs.map Column.toJson)),
      ("outputs", .array (t.outputs.map Column.toJson)),
      ("rules", .array (t.rules.map Rule.toJson)),
      ("passThrough", .bool t.passThrough)]
  | expressions entries passThrough => .record [
      ("expressions", .array (entries.map ExpressionEntry.toJson)),
      ("passThrough", .bool passThrough)]
  | function source => .record [("source", .string source)]
  | custom component config => .record [("component", .string component), ("config", config)]
  | decision key => .record [("key", .string key)]

def Edge.toJson (e : Edge) : Json :=
  .record [("id", .string e.id), ("sourceId", .string e.source), ("targetId", .string e.target)]

end RuleGraph
