import RuleGraph.Expr.Basic
import RuleGraph.Expr.Function
import RuleGraph.Expr.Scope
/-!
# Evaluation

The value of an expression in a scope. Operands are evaluated from left to right; the connectives,
`??`, conditionals and closures evaluate no more than they need.
-/
namespace RuleGraph.Expr

mutual

def eval : Expr → Scope → Except EvalError Value
  | .literal v, _ => .ok v
  | .field path, s => s.root.field path
  | .subject, s => s.subject
  | .element, s => s.element
  | .index base key, s => do
    let v ← base.eval s
    return Operation.index v (← key.eval s)
  | .binary left op right, s =>
    match op with
    | .and => do
      if ← expectBool "and" (← left.eval s) then
        return .bool (← expectBool "and" (← right.eval s))
      else return .bool false
    | .or => do
      if ← expectBool "or" (← left.eval s) then return .bool true
      else return .bool (← expectBool "or" (← right.eval s))
    | .coalesce =>
      match left.eval s with
      | .ok .null | .error (.undefined _) => right.eval s
      | result => result
    | .member | .notMember => do
      let needle ← left.eval s
      match right with
      | .interval start stop startIncluded stopIncluded => do
        let low ← start.eval s
        let high ← stop.eval s
        return Operation.membership op
          (← Operation.inInterval needle low high startIncluded stopIncluded)
      | right => do
        return Operation.membership op (← Operation.contains op needle (← right.eval s))
    | .eq | .ne | .lt | .le | .gt | .ge => do
      let v ← left.eval s
      return .bool (← Operation.compare op v (← right.eval s))
    | .add | .sub | .mul | .div | .mod | .pow => do
      let v ← left.eval s
      Operation.arithmetic op v (← right.eval s)
  | .unary op operand, s => do Operation.unary op (← operand.eval s)
  | .call f args, s =>
    if !f.accepts args.length then f.refuse (.count args.length)
    else if f.isClosure then
      match args with
      | collection :: body :: _ => do
        let elements ← f.elements (← collection.eval s)
        f.applyClosure (fun v => body.eval (s.withElement v)) elements
      | _ => f.refuse (.missing args.length)
    else do f.apply (← evalAll args s)
  | .ternary condition yes no, s => do
    if ← expectBool "?:" (← condition.eval s) then yes.eval s else no.eval s
  | .array items, s => do return .array (← evalAll items s)
  | .object entries, s => do return .record (← evalEntries entries s)
  | .interval _ _ _ _, _ => .error (.type .bareInterval)
termination_by structural e => e

def evalAll : List Expr → Scope → Except EvalError (List Value)
  | [], _ => .ok []
  | e :: rest, s => do
    let v ← e.eval s
    return v :: (← evalAll rest s)
termination_by structural es => es

def evalEntries : List (String × Expr) → Scope → Except EvalError (List (String × Value))
  | [], _ => .ok []
  | (key, e) :: rest, s => do
    let v ← e.eval s
    return (key, v) :: (← evalEntries rest s)
termination_by structural entries => entries

end

/-- Whether a test holds; its value must be a boolean. -/
def holds (e : Expr) (s : Scope) : Except EvalError Bool := do
  match ← e.eval s with
  | .bool b => return b
  | v => throw (.notTest v.kind)

end RuleGraph.Expr
