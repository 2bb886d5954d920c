import RuleGraph.Expr.Basic
import RuleGraph.Number.Binary64
/-!
# Constant folding

Operators whose operands are literals are replaced by their result, and conditionals whose condition
is one by the branch that is taken. Calls stay as they are, apart from their arguments.
-/
namespace RuleGraph.Expr

/-- The result of an operator on constant values, where it is known in advance. -/
def foldBinary (op : Operator) (v w : Value) : Option Value :=
  match v, op, w with
  | .number x, .add, .number y => some (.number (x + y))
  | .number x, .sub, .number y => some (.number (x - y))
  | .number x, .mul, .number y => some (.number (x * y))
  | .number x, .div, .number y => if y == 0 then none else some (.number (x / y))
  | .number x, .mod, .number y => if y == 0 then none else some (.number (Number.remainder x y))
  | .number x, .pow, .number y => some (.number (Float.pow x y))
  | .string s, .add, .string t => some (.string (s ++ t))
  | .number x, .gt, .number y => some (.bool (y < x))
  | .number x, .ge, .number y => some (.bool (y ≤ x))
  | .number x, .lt, .number y => some (.bool (x < y))
  | .number x, .le, .number y => some (.bool (x ≤ y))
  | .number x, .eq, .number y => some (.bool (x == y))
  | .number x, .ne, .number y => some (.bool (x != y))
  | .string s, .eq, .string t => some (.bool (s == t))
  | .string s, .ne, .string t => some (.bool (s != t))
  | .bool a, .eq, .bool b => some (.bool (a == b))
  | .bool a, .ne, .bool b => some (.bool (a != b))
  | .bool a, .and, .bool b => some (.bool (a && b))
  | .bool a, .or, .bool b => some (.bool (a || b))
  | .null, .coalesce, w => some w
  | v, .coalesce, _ => some v
  | _, _, _ => none

def foldUnary (op : UnaryOperator) (v : Value) : Option Value :=
  match op, v with
  | .not, .bool b => some (.bool !b)
  | .negate, .number x => some (.number (-x))
  | _, _ => none

def binaryOf (left : Expr) (op : Operator) (right : Expr) : Expr :=
  match left, right with
  | .literal v, .literal w =>
    match foldBinary op v w with
    | some result => .literal result
    | none => .binary left op right
  | _, _ => .binary left op right

def unaryOf (op : UnaryOperator) (operand : Expr) : Expr :=
  match operand with
  | .literal v =>
    match foldUnary op v with
    | some result => .literal result
    | none => .unary op operand
  | _ => .unary op operand

def ternaryOf (condition yes no : Expr) : Expr :=
  match condition with
  | .literal (.bool b) => if b then yes else no
  | _ => .ternary condition yes no

mutual

def fold : Expr → Expr
  | .literal v => .literal v
  | .field path => .field path
  | .subject => .subject
  | .element => .element
  | .index base key => .index base.fold key.fold
  | .binary left op right => binaryOf left.fold op right.fold
  | .unary op operand => unaryOf op operand.fold
  | .call f args => .call f (foldAll args)
  | .ternary condition yes no => ternaryOf condition.fold yes.fold no.fold
  | .array items => .array (foldAll items)
  | .object entries => .object (foldEntries entries)
  | .interval start stop startIncluded stopIncluded =>
    .interval start.fold stop.fold startIncluded stopIncluded
termination_by structural e => e

def foldAll : List Expr → List Expr
  | [] => []
  | e :: rest => e.fold :: foldAll rest
termination_by structural es => es

def foldEntries : List (String × Expr) → List (String × Expr)
  | [] => []
  | (key, e) :: rest => (key, e.fold) :: foldEntries rest
termination_by structural entries => entries

end

end RuleGraph.Expr
