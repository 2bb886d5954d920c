import RuleGraph.Expr.Basic
/-!
# The parts of an expression
-/
namespace RuleGraph.Expr

mutual

/-- An expression and all expressions in it. -/
def nodes (e : Expr) : List Expr :=
  match e with
  | .literal _ | .field _ | .subject | .element => [e]
  | .index base key => e :: (base.nodes ++ key.nodes)
  | .binary left _ right => e :: (left.nodes ++ right.nodes)
  | .unary _ operand => e :: operand.nodes
  | .call _ args => e :: allNodes args
  | .ternary condition yes no => e :: (condition.nodes ++ yes.nodes ++ no.nodes)
  | .array items => e :: allNodes items
  | .object entries => e :: entriesNodes entries
  | .interval start stop _ _ => e :: (start.nodes ++ stop.nodes)
termination_by structural e

def allNodes : List Expr → List Expr
  | [] => []
  | e :: rest => e.nodes ++ allNodes rest
termination_by structural es => es

def entriesNodes : List (String × Expr) → List Expr
  | [] => []
  | (_, e) :: rest => e.nodes ++ entriesNodes rest
termination_by structural entries => entries

end

theorem allNodes_append (es fs : List Expr) : allNodes (es ++ fs) = allNodes es ++ allNodes fs := by
  induction es with
  | nil => rfl
  | cons e rest ih => simp [allNodes, ih]

theorem entriesNodes_append (es fs : List (String × Expr)) :
    entriesNodes (es ++ fs) = entriesNodes es ++ entriesNodes fs := by
  induction es with
  | nil => rfl
  | cons e rest ih => simp [entriesNodes, ih]

theorem mem_nodes_self (e : Expr) : e ∈ e.nodes := by
  cases e <;> exact List.mem_cons_self

end RuleGraph.Expr
