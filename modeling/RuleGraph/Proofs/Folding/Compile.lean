import RuleGraph.Decision.Compile
import RuleGraph.Proofs.Results
/-!
# Compiling with and without folding

A compiler folds each expression after it is parsed and looks at none of them again. So what it
compiles is what a compiler without folding compiles, with each expression folded, and both refuse
the same documents.
-/
namespace RuleGraph

section
variable (g : Expr → Expr)

def TableInput.mapExprs (column : TableInput) : TableInput :=
  { column with field := column.field.map g }

def Row.mapExprs (row : Row) : Row :=
  { row with
    conditions := row.conditions.map (Option.map g)
    outputs := row.outputs.map (Option.map g) }

def Table.mapExprs (t : Table) : Table :=
  { t with inputs := t.inputs.map (TableInput.mapExprs g), rows := t.rows.map (Row.mapExprs g) }

def Program.mapExprs : Program → Program
  | .table t => .table (t.mapExprs g)
  | .expressions entries passThrough =>
    .expressions (entries.map fun entry => (entry.1, g entry.2)) passThrough
  | .function source => .function (g source)
  | .input schema => .input schema
  | .output => .output
  | .custom component config => .custom component config
  | .decision key => .decision key

def Step.mapExprs (step : Step) : Step :=
  { step with program := step.program.mapExprs g }

/-- The decision with each of its expressions changed. -/
def Decision.mapExprs (d : Decision) : Decision :=
  { d with steps := d.steps.map (Step.mapExprs g) }

@[simp] theorem Program.kind_mapExprs (p : Program) : (p.mapExprs g).kind = p.kind := by
  cases p <;> rfl

end

namespace Compiler

/-- The compiler that leaves expressions as they are parsed. -/
def plain : Compiler :=
  ⟨false⟩

variable (c : Compiler)

theorem expression_eq_map (node : String) (location : Location) (source : String) :
    c.expression node location source = (plain.expression node location source).map c.finish := by
  unfold expression
  cases Expr.parse source <;> rfl

theorem test_eq_map (node : String) (location : Location) (source : String) :
    c.test node location source = (plain.test node location source).map c.finish := by
  unfold test
  cases Expr.parseCell source <;> rfl

theorem inputColumn_eq_map (node : String) (column : Column) :
    c.inputColumn node column =
      (plain.inputColumn node column).map (TableInput.mapExprs c.finish) := by
  unfold inputColumn
  cases fieldOf column with
  | none => rfl
  | some field =>
    simp only [c.expression_eq_map]
    cases plain.expression node (.inputColumn column.id) field <;> rfl

theorem condition_eq_map (node label : String) (rule : Rule) (column : Column) :
    c.condition node label rule column =
      (plain.condition node label rule column).map (Option.map c.finish) := by
  unfold condition
  cases rule.cell column.id with
  | none => rfl
  | some cell =>
    simp only [c.expression_eq_map, c.test_eq_map]
    cases (fieldOf column).isSome with
    | true => cases plain.test node (.cell label column.id) cell <;> rfl
    | false => cases plain.expression node (.cell label column.id) cell <;> rfl

theorem outputCell_eq_map (node label : String) (rule : Rule) (column : Column) :
    c.outputCell node label rule column =
      (plain.outputCell node label rule column).map (Option.map c.finish) := by
  unfold outputCell
  cases rule.cell column.id with
  | none => rfl
  | some cell =>
    simp only [c.expression_eq_map]
    cases plain.expression node (.cell label column.id) cell <;> rfl

theorem row_eq_map (node : String) (content : TableContent) (index : Nat) (rule : Rule) :
    c.row node content index rule =
      (plain.row node content index rule).map (Row.mapExprs c.finish) := by
  unfold row
  simp only [mapM_eq_map (c.condition_eq_map node (ruleLabel index rule) rule),
    mapM_eq_map (c.outputCell_eq_map node (ruleLabel index rule) rule)]
  cases content.inputs.mapM (plain.condition node (ruleLabel index rule) rule) with
  | error e => rfl
  | ok conditions =>
    cases content.outputs.mapM (plain.outputCell node (ruleLabel index rule) rule) <;> rfl

theorem rows_eq_map (node : String) (content : TableContent) (index : Nat) (rules : List Rule) :
    c.rows node content index rules =
      (plain.rows node content index rules).map (List.map (Row.mapExprs c.finish)) := by
  induction rules generalizing index with
  | nil => rfl
  | cons rule rest ih =>
    rw [rows, rows, c.row_eq_map, ih]
    cases plain.row node content index rule with
    | error e => rfl
    | ok r => cases plain.rows node content (index + 1) rest <;> rfl

theorem table_eq_map (node : String) (content : TableContent) :
    c.table node content = (plain.table node content).map (Table.mapExprs c.finish) := by
  unfold table
  simp only [mapM_eq_map (c.inputColumn_eq_map node), c.rows_eq_map]
  cases content.inputs.mapM (plain.inputColumn node) with
  | error e => rfl
  | ok inputs =>
    cases content.outputs.mapM (outputColumn node) with
    | error e => rfl
    | ok outputs => cases plain.rows node content 0 content.rules <;> rfl

theorem entry_eq_map (node : String) (e : ExpressionEntry) :
    c.entry node e =
      (plain.entry node e).map fun entry => (entry.1, c.finish entry.2) := by
  unfold entry
  by_cases hkey : Text.trim e.key = ""
  · simp [hkey]
  · simp only [hkey, if_false, c.expression_eq_map]
    cases plain.expression node (.key (Text.trim e.key)) e.value with
    | error cause => simp
    | ok value => simp

theorem program_eq_map (node : String) (content : Content) :
    c.program node content = (plain.program node content).map (Program.mapExprs c.finish) := by
  cases content with
  | table content =>
    simp only [program, c.table_eq_map]
    cases plain.table node content <;> rfl
  | expressions entries passThrough =>
    simp only [program, mapM_eq_map (c.entry_eq_map node)]
    cases entries.mapM (plain.entry node) <;> rfl
  | function source =>
    simp only [program, c.expression_eq_map]
    cases plain.expression node .source source <;> rfl
  | custom component config =>
    simp only [program]
    split <;> rfl
  | decision key =>
    simp only [program]
    split <;> rfl
  | _ => rfl

theorem stepAt_eq_map (d : Document) (layout : Layout) (i : Nat) :
    c.stepAt d layout i =
      (plain.stepAt d layout i).map (Option.map (Step.mapExprs c.finish)) := by
  unfold stepAt
  cases d.nodes[i]? with
  | none => rfl
  | some node =>
    simp only [c.program_eq_map]
    cases plain.program node.id node.content <;> rfl

theorem outputPositions_map (g : Expr → Expr) (steps : List Step) :
    outputPositions (steps.map (Step.mapExprs g)) = outputPositions steps := by
  unfold outputPositions
  rw [List.length_map]
  refine List.filter_congr fun i _ => ?_
  rw [List.getElem?_map]
  cases steps[i]? with
  | none => rfl
  | some step => simp [Step.mapExprs]

/-- Compilers differ only in what they do to parsed expressions. -/
theorem compile_eq_map (d : Document) (key : Option String) :
    c.compile d key = (plain.compile d key).map (Decision.mapExprs c.finish) := by
  unfold compile
  cases d.layout with
  | error e => rfl
  | ok layout =>
    simp only [ok_bind, mapM_eq_map (c.stepAt_eq_map d layout)]
    cases layout.order.mapM (plain.stepAt d layout) with
    | error e => rfl
    | ok steps =>
      have hsteps : (steps.map (Option.map (Step.mapExprs c.finish))).filterMap id =
          (steps.filterMap id).map (Step.mapExprs c.finish) := by
        simp [List.filterMap_map, List.map_filterMap]
      simp only [map_ok, ok_bind, pure_eq_ok, hsteps, outputPositions_map, Decision.mapExprs]

end Compiler
end RuleGraph
