import RuleGraph.Decision.Basic
import RuleGraph.Expr.Eval
import RuleGraph.Run.Trace
import RuleGraph.Value.Merge
/-!
# Evaluating tables

The field of each input column is evaluated once and is the subject of the cells of the column. A
row matches if all its tests hold; default rows are looked at only if no other row matches.
-/
namespace RuleGraph

def Value.overInput (passes : Bool) (input output : Value) : Value :=
  if passes then input.merge output else output

/-- The value of a field; data that is missing is null. -/
def TableInput.subject (column : TableInput) (s : Scope) : Except EvalError (Option Value) :=
  match column.field with
  | none => .ok none
  | some field =>
    match field.eval s with
    | .ok v => .ok (some v)
    | .error (.undefined _) => .ok (some .null)
    | .error e => .error e

/-- Whether the tests of a row hold, each of its subject. The first that does not ends the row. -/
def testsHold (s : Scope) : List (Option Expr) → List (Option Value) → Except EvalError Bool
  | none :: tests, _ :: subjects => testsHold s tests subjects
  | some test :: tests, subject :: subjects => do
    if ← test.holds ((subject.map s.withSubject).getD s) then testsHold s tests subjects
    else return false
  | _, _ => .ok true

def rowOutput (s : Scope) : List TableOutput → List (Option Expr) → Value → Except EvalError Value
  | _ :: columns, none :: cells, output => rowOutput s columns cells output
  | column :: columns, some cell :: cells, output => do
    rowOutput s columns cells (output.setPath column.path (← cell.eval s))
  | _, _, output => .ok output

namespace Table

/-- The rows that match. If only the first counts, the others are not looked at. -/
def matching (policy : HitPolicy) (isMatch : Row → Except EvalError Bool) :
    List Row → Except EvalError (List Row)
  | [] => .ok []
  | row :: rest => do
    if ← isMatch row then
      match policy with
      | .first => return [row]
      | .collect => return row :: (← matching policy isMatch rest)
    else matching policy isMatch rest

def selected (t : Table) (isMatch : Row → Except EvalError Bool) : Except EvalError (List Row) := do
  let regular ← matching t.policy isMatch (t.rows.filter (!·.isDefault))
  if regular.isEmpty then matching t.policy isMatch (t.rows.filter (·.isDefault))
  else return regular

def mark (row : Row) : Value :=
  .record [
    ("index", .number (Float.ofNat row.index)),
    ("id", (row.id.map Value.string).getD .null)]

def detail (rows : List Row) : Value :=
  .record [("matched", .array (rows.map mark))]

def evaluate (t : Table) (input : Value) : Except EvalError Outcome := do
  let s := Scope.ofRoot input
  let subjects ← t.inputs.mapM (·.subject s)
  let rows ← t.selected fun row => testsHold s row.conditions subjects
  let outputs ← rows.mapM fun row => rowOutput s t.outputs row.outputs .empty
  return ⟨.overInput t.passThrough input (.mergeAll outputs), some (detail rows)⟩

end Table
end RuleGraph
