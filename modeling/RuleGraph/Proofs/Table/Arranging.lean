import Mathlib.Data.List.FinRange
import RuleGraph.Proofs.Table.Selection
import RuleGraph.Proofs.Value.Divergent
import RuleGraph.Run.Evaluate
/-!
# The order of outputs

An expression node stores the values of its entries, and a row of a table those of its cells. As
long as the paths that they are stored under diverge, the order in which this happens makes no
difference: one order has a result if and only if every other order has, and it is the same. Only
which failure comes first depends on it.
-/
namespace RuleGraph

theorem entriesOutput_of_perm {s : Scope} {entries entries' : List (List String × Expr)}
    (hperm : entries'.Perm entries) (hpaths : (entries'.map Prod.fst).Pairwise Diverge)
    (output : Value) :
    (entriesOutput s entries' output).toOption = (entriesOutput s entries output).toOption := by
  induction hperm generalizing output with
  | nil => rfl
  | cons entry hrest ih =>
    have htail := (List.pairwise_cons.1 hpaths).2
    simp only [entriesOutput, toOption_bind, ih htail]
  | swap first second rest =>
    -- If both have a value, the second is stored before or after the first.
    have hdiverge : Diverge second.1 first.1 := (List.pairwise_cons.1 hpaths).1 _ List.mem_cons_self
    have hcomm (v w : Value) := Value.setPath_comm hdiverge output v w
    simp only [entriesOutput]
    cases first.2.eval s with
    | error e => cases second.2.eval s <;> rfl
    | ok w =>
      cases second.2.eval s with
      | error e => rfl
      | ok v => simp only [ok_bind, hcomm v w]
  | trans hfirst hsecond ihfirst ihsecond =>
    have hmiddle := (hfirst.map Prod.fst).pairwise hpaths Diverge.symm
    exact (ihfirst hpaths output).trans (ihsecond hmiddle output)

theorem expressionsOutcome_of_perm {entries entries' : List (List String × Expr)}
    (hperm : entries'.Perm entries) (hpaths : (entries.map Prod.fst).Pairwise Diverge)
    (passes : Bool) (input : Value) :
    (expressionsOutcome entries' passes input).toOption =
      (expressionsOutcome entries passes input).toOption := by
  have hpaths' := (hperm.map Prod.fst).symm.pairwise hpaths Diverge.symm
  simp only [expressionsOutcome, toOption_bind, entriesOutput_of_perm hperm hpaths']

theorem rowOutput_eq_entriesOutput (s : Scope) (columns : List TableOutput) (row : Row)
    (output : Value) :
    rowOutput s columns row.outputs output = entriesOutput s (row.cells columns) output := by
  unfold Row.cells
  generalize row.outputs = cells
  induction columns generalizing cells output with
  | nil => cases cells <;> rfl
  | cons column columns ih =>
    cases cells with
    | nil => rfl
    | cons cell cells =>
      cases cell with
      | none => exact ih output cells
      | some cell =>
        simp only [rowOutput, List.zip_cons_cons, List.filterMap_cons, Option.map_some,
          entriesOutput, ih]

theorem Row.paths_sublist (row : Row) (columns : List TableOutput) :
    ((row.cells columns).map Prod.fst).Sublist (columns.map (·.path)) := by
  unfold Row.cells
  generalize row.outputs = cells
  induction columns generalizing cells with
  | nil => exact List.Sublist.refl []
  | cons column columns ih =>
    cases cells with
    | nil => exact List.nil_sublist _
    | cons cell cells =>
      cases cell with
      | none => exact (ih cells).cons column.path
      | some cell => exact (ih cells).cons_cons column.path

def Row.cell (row : Row) (columns : List TableOutput) (i : Fin columns.length) :
    Option (List String × Expr) :=
  (row.outputs[(i : Nat)]?).join.map (columns[i].path, ·)

theorem Row.cells_eq_filterMap (row : Row) (columns : List TableOutput) :
    row.cells columns = (List.finRange columns.length).filterMap (row.cell columns) := by
  unfold Row.cells Row.cell
  generalize row.outputs = cells
  induction columns generalizing cells with
  | nil => rfl
  | cons column columns ih =>
    have hrange : List.finRange (column :: columns).length =
        0 :: (List.finRange columns.length).map Fin.succ := List.finRange_succ
    rw [hrange, List.filterMap_cons, List.filterMap_map]
    cases cells with
    | nil => simp
    | cons cell cells =>
      cases cell with
      | none => exact ih cells
      | some cell => exact congrArg ((column.path, cell) :: ·) (ih cells)

/-- The cells of a row in another order. A cell that is missing is an empty one. -/
def Row.arranged (row : Row) {n : Nat} (σ : Equiv.Perm (Fin n)) : Row :=
  { row with outputs := (List.finRange n).map fun i => (row.outputs[(σ i : Nat)]?).join }

/-- A table with its output columns in another order, and the cells of each row with them. -/
def Table.arranged (t : Table) (σ : Equiv.Perm (Fin t.outputs.length)) : Table :=
  { t with
    outputs := (List.finRange t.outputs.length).map fun i => t.outputs[σ i]
    rows := t.rows.map (·.arranged σ) }

theorem Row.cells_arranged (row : Row) (t : Table) (σ : Equiv.Perm (Fin t.outputs.length)) :
    ((row.arranged σ).cells (t.arranged σ).outputs).Perm (row.cells t.outputs) := by
  have hcells : (row.arranged σ).cells (t.arranged σ).outputs =
      ((List.finRange t.outputs.length).map σ).filterMap (row.cell t.outputs) := by
    unfold Row.cells Row.arranged Table.arranged
    rw [List.zip_map', List.filterMap_map, List.filterMap_map]
    rfl
  rw [hcells, row.cells_eq_filterMap]
  exact (Equiv.Perm.map_finRange_perm σ).filterMap _

namespace Table

theorem paths_arranged (t : Table) (σ : Equiv.Perm (Fin t.outputs.length))
    (hpaths : (t.outputs.map (·.path)).Pairwise Diverge) :
    ((t.arranged σ).outputs.map (·.path)).Pairwise Diverge := by
  have hperm : (t.arranged σ).outputs.Perm t.outputs := by
    have hsame : (t.arranged σ).outputs =
        ((List.finRange t.outputs.length).map σ).map (t.outputs[·]) :=
      (List.map_map ..).symm
    have hall : (List.finRange t.outputs.length).map (t.outputs[·]) = t.outputs :=
      List.map_getElem_finRange t.outputs
    have hmap := (Equiv.Perm.map_finRange_perm σ).map (t.outputs[·])
    rwa [← hsame, hall] at hmap
  exact (hperm.map (·.path)).symm.pairwise hpaths Diverge.symm

theorem rowOutput_arranged (t : Table) (σ : Equiv.Perm (Fin t.outputs.length))
    (hpaths : (t.outputs.map (·.path)).Pairwise Diverge) (row : Row) (s : Scope) :
    (rowOutput s (t.arranged σ).outputs (row.arranged σ).outputs .empty).toOption =
      (rowOutput s t.outputs row.outputs .empty).toOption := by
  rw [rowOutput_eq_entriesOutput, rowOutput_eq_entriesOutput]
  have hcells := (t.paths_arranged σ hpaths).sublist ((row.arranged σ).paths_sublist _)
  exact entriesOutput_of_perm (row.cells_arranged t σ) hcells .empty

theorem evaluate_arranged (t : Table) (σ : Equiv.Perm (Fin t.outputs.length))
    (hpaths : (t.outputs.map (·.path)).Pairwise Diverge) (input : Value) :
    ((t.arranged σ).evaluate input).toOption = (t.evaluate input).toOption := by
  have hselected (verdict : Row → Except EvalError Bool)
      (hverdict : ∀ row, verdict (row.arranged σ) = verdict row) :
      (t.arranged σ).selected verdict =
        (t.selected verdict).map (List.map (Row.arranged · σ)) :=
    selected_map_rows hverdict t fun _ => rfl
  have hmarks (rows : List Row) : (rows.map (Row.arranged · σ)).map mark = rows.map mark := by
    rw [List.map_map]
    rfl
  unfold evaluate
  simp only [toOption_bind]
  congr 1
  funext subjects
  rw [hselected _ fun row => rfl]
  cases t.selected fun row => testsHold (.ofRoot input) row.conditions subjects with
  | error e => rfl
  | ok rows =>
    simp only [map_ok, toOption_ok, Option.bind_some, toOption_mapM, List.mapM_map, detail, hmarks]
    have houtputs := fun row => t.rowOutput_arranged σ hpaths row (.ofRoot input)
    simp only [Function.comp_def, houtputs]
    rfl

end Table

/-- The order of entries or of output columns whose paths diverge makes no difference to what a node
gives, nor to whether it gives anything. -/
theorem outputs_in_any_order :
    (∀ (entries entries' : List (List String × Expr)) (passes : Bool) (input : Value),
      (entries.map Prod.fst).Pairwise Diverge → entries'.Perm entries →
      (expressionsOutcome entries' passes input).toOption =
        (expressionsOutcome entries passes input).toOption) ∧
    ∀ (t : Table) (σ : Equiv.Perm (Fin t.outputs.length)) (input : Value),
      (t.outputs.map (·.path)).Pairwise Diverge →
      ((t.arranged σ).evaluate input).toOption = (t.evaluate input).toOption := by
  constructor
  · intro entries entries' passes input hpaths hperm
    exact expressionsOutcome_of_perm hperm hpaths passes input
  · intro t σ input hpaths
    exact t.evaluate_arranged σ hpaths input

def priceEntries : List (List String × Expr) :=
  [(["price", "net"], .field ["net"]), (["price", "gross"], .field ["gross"])]

/-- Prices with the fees of an order. The second row has no cell for the gross price. -/
def priceTable : Table where
  policy := .collect
  inputs := []
  outputs := [⟨"net", "Net", ["price", "net"]⟩, ⟨"gross", "Gross", ["price", "gross"]⟩]
  rows := [⟨0, none, false, [], [some (.field ["net"]), some (.field ["gross"])]⟩,
    ⟨1, none, false, [], [some (.string "free"), none]⟩]
  passThrough := false

/-- Both prices are members of one object, and either may be stored first. -/
theorem priceEntries_in_any_order :
    let input := Value.object [("gross", .string "12"), ("net", .string "10")]
    let σ : Equiv.Perm (Fin priceTable.outputs.length) := Equiv.swap ⟨0, by decide⟩ ⟨1, by decide⟩
    (priceEntries.map Prod.fst).Pairwise Diverge ∧ priceEntries.reverse.Perm priceEntries ∧
    (expressionsOutcome priceEntries.reverse false input).toOption =
      some (.plain (.object [("price",
        .object [("gross", .string "12"), ("net", .string "10")])])) ∧
    (priceTable.outputs.map (·.path)).Pairwise Diverge ∧
    ((priceTable.arranged σ).evaluate input).toOption.map Outcome.output =
      some (.object [("price", .object [("gross", .string "12"), ("net", .string "free")])]) := by
  intro input σ
  obtain ⟨hentries, htables⟩ := outputs_in_any_order
  have hpaths : (priceEntries.map Prod.fst).Pairwise Diverge := by decide
  have hcolumns : (priceTable.outputs.map (·.path)).Pairwise Diverge := by decide
  have hperm : priceEntries.reverse.Perm priceEntries := List.reverse_perm priceEntries
  refine ⟨hpaths, hperm, ?_, hcolumns, ?_⟩
  · rw [hentries priceEntries priceEntries.reverse false input hpaths hperm]
    rfl
  · rw [htables priceTable σ input hcolumns]
    rfl

end RuleGraph
