import Mathlib
import RuleGraph.Decision.Compile
import RuleGraph.Proofs.Folding.Expression
import RuleGraph.Proofs.Json.Lexed
/-!
# Cells that are JSON

A cell that is no text stands for its JSON text, which is compiled as an expression. Its value is
the tree itself, but for the controls in strings and keys whose escapes expressions do not know.
-/
namespace RuleGraph

theorem Rule.cell_eq_text {rule : Rule} {column : String} {j : Json}
    (hcell : Members.get? column rule.cells = some j) (hnull : j ≠ .null)
    (hstring : ∀ s, j ≠ .string s) : rule.cell column = some j.text := by
  rw [Rule.cell, hcell]
  cases j with
  | null => contradiction
  | string s => exact absurd rfl (hstring s)
  | _ => rfl

namespace Compiler

theorem eval_finish_of_ok (c : Compiler) {e : Expr} {s : Scope} {v : Value}
    (h : e.eval s = .ok v) : (c.finish e).eval s = .ok v := by
  unfold finish
  split
  · exact Expr.eval_fold_of_ok h
  · exact h

/-- A cell that is JSON is compiled as the expression that its text is read as. -/
theorem outputCell_of_json (c : Compiler) (node label : String) {rule : Rule} {column : Column}
    {j : Json} (hcell : Members.get? column.id rule.cells = some j) (hnull : j ≠ .null)
    (hstring : ∀ s, j ≠ .string s) (hj : j.WellFormed) (hdepth : j.depth + 2 ≤ maxNesting) :
    c.outputCell node label rule column = .ok (some (c.finish (Value.ofJson j).reading)) := by
  rw [outputCell, Rule.cell_eq_text hcell hnull hstring]
  simp only [expression, Json.parse_text hj hdepth]
  rfl

/-- Every cell of an output column that is JSON, neither null nor a string and not too deep, is
compiled to an expression with one value in every scope. The value is that of the tree exactly if
the strings and keys in the tree have no controls but tabs, line feeds and carriage returns. -/
theorem outputCell_means_json (c : Compiler) (node label : String) {rule : Rule} {column : Column}
    {j : Json} (hcell : Members.get? column.id rule.cells = some j) (hnull : j ≠ .null)
    (hstring : ∀ s, j ≠ .string s) (hj : j.WellFormed) (hdepth : j.depth ≤ 60) :
    ∃ e, c.outputCell node label rule column = .ok (some e) ∧
      ∀ s : Scope, e.eval s = .ok (Value.ofJson j).reread ∧
        (e.eval s = .ok (Value.ofJson j) ↔ (Value.ofJson j).isKept) := by
  refine ⟨_, c.outputCell_of_json node label hcell hnull hstring hj ?_, fun s => ?_⟩
  · exact Nat.le_trans (Nat.add_le_add_right hdepth 2) (by decide)
  · have heval := c.eval_finish_of_ok (Value.eval_reading (Value.ofJson j) s)
    refine ⟨heval, ?_⟩
    rw [heval, Except.ok.injEq]
    exact Value.reread_eq_self_iff (Value.ordered_ofJson hj)

/-- The tree `{"limits":[-5,1.5,true],"note":"net\n"}`. -/
def tariff : Json :=
  .object [("limits", .array [.integer (-5), .decimal 1.5, .bool true]), ("note", .string "net\n")]

def tariffColumn : Column :=
  ⟨"c1", "Tariff", some "tariff"⟩

def tariffRule : Rule :=
  ⟨none, false, none, [("c1", tariff)]⟩

theorem wellFormed_tariff : tariff.WellFormed := by
  have hfinite : (1.5 : Float).isFinite := by decide +kernel
  have hlimits : (Json.array [.integer (-5), .decimal 1.5, .bool true]).WellFormed := by
    refine .array fun j hj => ?_
    simp only [List.mem_cons, List.not_mem_nil, or_false] at hj
    obtain rfl | rfl | rfl := hj
    · exact .integer (by decide) (by decide)
    · exact .decimal hfinite
    · exact .bool true
  refine .object (List.pairwise_pair.2 (by decide)) fun m hm => ?_
  simp only [List.mem_cons, List.not_mem_nil, or_false] at hm
  obtain rfl | rfl := hm
  · exact hlimits
  · exact .string _

theorem tariffCell_means_json : ∃ e,
    standard.outputCell "table" "0" tariffRule tariffColumn = .ok (some e) ∧
      ∀ s : Scope, e.eval s = .ok (Value.ofJson tariff) := by
  have htariff : Members.get? tariffColumn.id tariffRule.cells = some tariff := rfl
  obtain ⟨e, hcell, heval⟩ := standard.outputCell_means_json "table" "0" htariff nofun nofun
    wellFormed_tariff (by decide)
  exact ⟨e, hcell, fun s => (heval s).2.2 (by decide)⟩

/-- The tree `["\u0008"]`: a list of one backspace. -/
def backspace : Json :=
  .array [.string "\x08"]

def backspaceRule : Rule :=
  ⟨none, false, none, [("c1", backspace)]⟩

/-- The cell is compiled to a list of the letter `b`. -/
theorem backspaceCell_differs : ∃ e,
    standard.outputCell "table" "0" backspaceRule tariffColumn = .ok (some e) ∧
      ∀ s : Scope, e.eval s = .ok (.array [.string "b"]) ∧
        e.eval s ≠ .ok (Value.ofJson backspace) := by
  have hcell : Members.get? tariffColumn.id backspaceRule.cells = some backspace := rfl
  have hwell : backspace.WellFormed := .array fun j hj => List.mem_singleton.1 hj ▸ .string _
  have hcompiled := standard.outputCell_of_json "table" "0" hcell nofun nofun hwell (by decide)
  have hstring : rereadString "\x08" = "b" := by decide
  have hreread : (Value.ofJson backspace).reread = .array [.string (rereadString "\x08")] := rfl
  refine ⟨_, hcompiled, fun s => ?_⟩
  have heval := standard.eval_finish_of_ok (Value.eval_reading (Value.ofJson backspace) s)
  rw [heval, hreread, hstring]
  refine ⟨rfl, fun h => ?_⟩
  simp [backspace, Value.ofJson, Value.ofItems] at h

end Compiler
end RuleGraph
