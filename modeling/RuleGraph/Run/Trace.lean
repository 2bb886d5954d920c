import RuleGraph.Document.Basic
import RuleGraph.Value.Json
/-!
# Traces
-/
namespace RuleGraph

/-- What a node gives: its output and perhaps details for the trace. -/
structure Outcome where
  output : Value
  detail : Option Value
  deriving Repr

def Outcome.plain (output : Value) : Outcome :=
  ⟨output, none⟩

def Outcome.toJson (o : Outcome) : Json :=
  .record (("output", o.output.toJson) :: (o.detail.map fun v => ("traceData", v.toJson)).toList)

/-- What tells how long a node took for an input, as a text. Without a clock nothing is told. -/
class Clock where
  elapsed : (id : String) → (input : Value) → Option String

instance (priority := low) Clock.absent : Clock :=
  ⟨fun _ _ => none⟩

/-- What is recorded of a node apart from the time that it took. -/
structure Visit where
  id : String
  name : String
  kind : NodeKind
  order : Nat
  input : Value
  output : Value
  /-- The rows of a table that counted, the details of a component, or the trace of a decision. -/
  detail : Option Value
  deriving Repr

structure Entry extends Visit where
  performance : Option String
  deriving Repr

def Visit.timed [clock : Clock] (v : Visit) : Entry :=
  ⟨v, clock.elapsed v.id v.input⟩

def Entry.toJson (e : Entry) : Json :=
  .record ([
    ("id", .string e.id),
    ("name", .string e.name),
    ("kind", .string e.kind.tag),
    ("order", .integer e.order),
    ("input", e.input.toJson),
    ("output", e.output.toJson)] ++
    (e.performance.map fun time => ("performance", .string time)).toList ++
    (e.detail.map fun v => ("traceData", v.toJson)).toList)

def Entry.listToValue (entries : List Entry) : Value :=
  .ofJson (.array (entries.map Entry.toJson))

structure Result where
  value : Value
  trace : Option (List Entry)
  deriving Repr

def Result.toJson (r : Result) : Json :=
  .record (("result", r.value.toJson) ::
    (r.trace.map fun entries => ("trace", .array (entries.map Entry.toJson))).toList)

end RuleGraph
