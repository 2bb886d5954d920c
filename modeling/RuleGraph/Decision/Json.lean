import RuleGraph.Decision.Basic
import RuleGraph.Document.Content
import RuleGraph.Expr.Json
/-!
# Stored decisions

Compiled decisions in JSON. The record of a step, a table or a decision is an object or the list of
all its fields; the fields of a program are an object.
-/
namespace RuleGraph

namespace Json

/-- The fields of a record; as a list it must have all of them. -/
def stored? (names : List String) (j : Json) : Option (List (String × Json)) :=
  match j with
  | .array items => if items.length = names.length then some (names.zip items) else none
  | j => j.fields? names

def index? : Json → Option Nat :=
  natBelow (Nat.pow 2 64)

def ofIndex (n : Nat) : Json :=
  .integer n

def listOf? {β : Type} (decode : Json → Option β) (j : Json) : Option (List β) := do
  (← j.array?).mapM decode

end Json

open Form

def TableInput.ofJson? (j : Json) : Option TableInput := do
  let fields ← j.stored? ["id", "name", "field"]
  return {
    id := ← required Json.string? fields "id"
    name := ← required Json.string? fields "name"
    field := ← Json.optional Expr.ofJson? (fields.lookup "field") }

def TableOutput.ofJson? (j : Json) : Option TableOutput := do
  let fields ← j.stored? ["id", "name", "path"]
  return {
    id := ← required Json.string? fields "id"
    name := ← required Json.string? fields "name"
    path := ← required Json.strings? fields "path" }

/-- A cell of a row; null is an empty one. -/
def Row.cell? (j : Json) : Option (Option Expr) :=
  Json.optional Expr.ofJson? (some j)

def Row.ofJson? (j : Json) : Option Row := do
  let fields ← j.stored? ["index", "id", "is_default", "conditions", "outputs"]
  return {
    index := ← required Json.index? fields "index"
    id := ← Json.optionalString fields "id"
    isDefault := ← required Json.bool? fields "is_default"
    conditions := ← required (Json.listOf? Row.cell?) fields "conditions"
    outputs := ← required (Json.listOf? Row.cell?) fields "outputs" }

def Table.ofJson? (j : Json) : Option Table := do
  let fields ← j.stored? ["hit_policy", "inputs", "outputs", "rows", "pass_through"]
  return {
    policy := ← required HitPolicy.ofJson? fields "hit_policy"
    inputs := ← required (Json.listOf? TableInput.ofJson?) fields "inputs"
    outputs := ← required (Json.listOf? TableOutput.ofJson?) fields "outputs"
    rows := ← required (Json.listOf? Row.ofJson?) fields "rows"
    passThrough := ← required Json.bool? fields "pass_through" }

def Program.entry? : Json → Option (List String × Expr)
  | .array [path, e] => do return (← path.strings?, ← Expr.ofJson? e)
  | _ => none

def Program.ofJson? (j : Json) : Option Program := do
  match ← j.variant? with
  | ("Output", _) => if j.tag?.isSome then some .output else none
  | ("Input", some content) => do
    let fields ← content.fields? ["schema"]
    return .input (← Json.optional Json.strings? (fields.lookup "schema"))
  | ("DecisionTable", some content) => do return .table (← Table.ofJson? content)
  | ("Expression", some content) => do
    let fields ← content.fields? ["entries", "pass_through"]
    let entries ← required (Json.listOf? Program.entry?) fields "entries"
    return .expressions entries (← required Json.bool? fields "pass_through")
  | ("Function", some content) => do
    let fields ← content.fields? ["source"]
    return .function (← required Expr.ofJson? fields "source")
  | ("Custom", some content) => do
    let fields ← content.fields? ["component", "config"]
    return .custom (← required Json.string? fields "component") (← fields.lookup "config")
  | ("Decision", some content) => do
    let fields ← content.fields? ["key"]
    return .decision (← required Json.string? fields "key")
  | _ => none

def Step.ofJson? (j : Json) : Option Step := do
  let fields ← j.stored? ["id", "name", "upstream", "program"]
  return {
    id := ← required Json.string? fields "id"
    name := ← required Json.string? fields "name"
    sources := ← required (Json.listOf? Json.index?) fields "upstream"
    program := ← required Program.ofJson? fields "program" }

def Decision.ofJson? (j : Json) : Option Decision := do
  let fields ← j.stored? ["nodes", "outputs", "metadata"]
  let metadata ← (← fields.lookup "metadata").stored? ["key", "edge_count", "compiler_version"]
  return {
    steps := ← required (Json.listOf? Step.ofJson?) fields "nodes"
    outputs := ← required (Json.listOf? Json.index?) fields "outputs"
    key := ← Json.optionalString metadata "key"
    edgeCount := ← required Json.index? metadata "edge_count"
    version := ← required Json.string? metadata "compiler_version" }

def Decision.ofText? (text : String) : Option Decision :=
  (Json.read text.toUTF8.toList).bind ofJson?

def Json.ofCell : Option Expr → Json
  | some e => e.toJson
  | none => .null

def TableInput.toJson (c : TableInput) : Json :=
  .record [("id", .string c.id), ("name", .string c.name), ("field", .ofCell c.field)]

def TableOutput.toJson (c : TableOutput) : Json :=
  .record [("id", .string c.id), ("name", .string c.name), ("path", .strings c.path)]

def Row.toJson (r : Row) : Json :=
  .record [
    ("index", .ofIndex r.index),
    ("id", .ofOption r.id),
    ("is_default", .bool r.isDefault),
    ("conditions", .array (r.conditions.map Json.ofCell)),
    ("outputs", .array (r.outputs.map Json.ofCell))]

def Table.toJson (t : Table) : Json :=
  .record [
    ("hit_policy", .string t.policy.tag),
    ("inputs", .array (t.inputs.map TableInput.toJson)),
    ("outputs", .array (t.outputs.map TableOutput.toJson)),
    ("rows", .array (t.rows.map Row.toJson)),
    ("pass_through", .bool t.passThrough)]

def Program.toJson : Program → Json
  | input schema => .variant "Input" (.record [("schema", match schema with
      | some names => .strings names
      | none => .null)])
  | output => .string "Output"
  | table t => .variant "DecisionTable" t.toJson
  | expressions entries passThrough => .variant "Expression" (.record [
      ("entries", .array (entries.map fun (path, e) => .array [.strings path, e.toJson])),
      ("pass_through", .bool passThrough)])
  | function source => .variant "Function" (.record [("source", source.toJson)])
  | custom component config =>
    .variant "Custom" (.record [("component", .string component), ("config", config)])
  | decision key => .variant "Decision" (.record [("key", .string key)])

def Step.toJson (s : Step) : Json :=
  .record [
    ("id", .string s.id),
    ("name", .string s.name),
    ("upstream", .array (s.sources.map Json.ofIndex)),
    ("program", s.program.toJson)]

def Decision.toJson (d : Decision) : Json :=
  .record [
    ("nodes", .array (d.steps.map Step.toJson)),
    ("outputs", .array (d.outputs.map Json.ofIndex)),
    ("metadata", .record [
      ("key", .ofOption d.key),
      ("edge_count", .ofIndex d.edgeCount),
      ("compiler_version", .string d.version)])]

end RuleGraph
